import LinkAggregation.Config.Reading
import LinkAggregation.Frame.Layout
import LinkAggregation.Queue.Basic
import LinkAggregation.Text.Quoted

/-!
# Entries and events

What is queued: changes of configuration tables, and events on interfaces. Two changes that set
fields of one key can be combined, and a removal makes earlier changes of its key obsolete.
-/
namespace LinkAggregation
open Text

/-- What a table change does. -/
inductive Operation where
  | set
  | del
  deriving DecidableEq, Repr, Inhabited

/-- A change of a configuration table. -/
structure Entry where
  key : String
  operation : Operation := .set
  fields : List Field := []
  deriving DecidableEq, Repr, Inhabited

namespace Entry

/-- Gives a field this value: in place of its first value, or at the end. -/
def setField (fields : List Field) (new : Field) : List Field :=
  match fields with
  | [] => [new]
  | old :: rest => if old.1 = new.1 then new :: rest else old :: setField rest new

/-- The fields of two changes in one; the newer values win. -/
def mergeFields (older newer : List Field) : List Field := newer.foldl setField older

instance : Queued Entry where
  key := key
  supersedes e := e.operation == .del
  merge? older newer :=
    if older.operation = .set ∧ newer.operation = .set then
      some { older with fields := mergeFields older.fields newer.fields }
    else none

/-- A field and its value in parentheses. -/
def describeField : Field → String
  | (field, value) => "(" ++ quoted field ++ ", " ++ quoted value ++ ")"

/-- The change on one line. -/
def describe (e : Entry) : String :=
  let operation := match e.operation with
    | .set => "Set"
    | .del => "Del"
  "KeyOpFieldsValues \x7b key: " ++ quoted e.key ++ ", op: " ++ operation ++ ", fvs: [" ++
    ", ".intercalate (e.fields.map describeField) ++ "] \x7d"

end Entry

/-- Something that happens on an interface. -/
inductive Event where
  /-- A frame is received. -/
  | frame (interface : String) (frame : Frame)
  /-- The link comes up or goes down. -/
  | link (interface : String) (up : Bool)
  deriving DecidableEq, Repr

namespace Event

def interface : Event → String
  | frame interface _ => interface
  | link interface _ => interface

instance : Queued Event where
  key := interface
  supersedes _ := false
  merge? _ _ := none

/-- The event on one line. -/
def describe : Event → String
  | frame interface octets =>
    "Frame \x7b interface: " ++ quoted interface ++ ", frame: [" ++
      ", ".intercalate (octets.map fun o => decimal o.toNat) ++ "] \x7d"
  | link interface up =>
    "Link \x7b interface: " ++ quoted interface ++ ", up: " ++ (if up then "true" else "false") ++
      " \x7d"

end Event
end LinkAggregation
