import LinkAggregation.Assoc
import LinkAggregation.Identity
import LinkAggregation.Json.Value

/-!
# Documents

What a text in some data format says, without the ways of writing that differ between formats.
Records are taken from tables by the names of their fields, or from lists by the places of their
fields.
-/
namespace LinkAggregation

/-- A value in a document. No record has a field that takes a floating point number or a date, so
these are told apart without their values. -/
inductive Document where
  | null
  | bool (value : Bool)
  | integer (value : Int)
  | float
  /-- Has the place of a number, but no value that a number can have. -/
  | badNumber
  | text (value : String)
  | moment
  | list (items : List Document)
  | table (members : List (String × Document))
  deriving Inhabited, Repr

namespace Document

mutual

/-- The document that a JSON value is. -/
def ofJson : Json → Document
  | .null => null
  | .bool value => bool value
  | .number (.integer value) => integer value
  | .number (.float ..) => float
  | .text value => text value
  | .array items => list (ofItems items)
  | .object members => table (ofMembers members)

def ofItems : List Json → List Document
  | [] => []
  | j :: rest => ofJson j :: ofItems rest

def ofMembers : List (String × Json) → List (String × Document)
  | [] => []
  | (key, j) :: rest => (key, ofJson j) :: ofMembers rest

end

mutual

/-- No number in it is bad. -/
def isSound : Document → Bool
  | badNumber => false
  | list items => areItemsSound items
  | table members => areMembersSound members
  | _ => true

def areItemsSound : List Document → Bool
  | [] => true
  | d :: rest => isSound d && areItemsSound rest

def areMembersSound : List (String × Document) → Bool
  | [] => true
  | (_, d) :: rest => isSound d && areMembersSound rest

end

/-- What is done with the items of a list beyond the fields of a record. -/
inductive Surplus where
  | refused
  | ignored
  deriving DecidableEq, Repr

/-- The fields of a record, which has them in the order of `names`. Other members of a table have
no effect, but they are read and must be sound; items of a list that are ignored are not even
read. A date has no field. -/
def fields? (surplus : Surplus) (names : List String) :
    Document → Option (List (String × Document))
  | table members =>
    if members.all fun (name, value) => name ∈ names || value.isSound then some members else none
  | list items =>
    if surplus = .refused ∧ names.length < items.length then none else some (names.zip items)
  | moment => some []
  | _ => none

/-- A field that may be missing. -/
def fieldD {α : Type} (name : String) (default : α) (read : Document → Option α)
    (fields : List (String × Document)) : Option α :=
  match Assoc.get? name fields with
  | some value => read value
  | none => some default

/-- A field that must be there. -/
def field? {α : Type} (name : String) (read : Document → Option α)
    (fields : List (String × Document)) : Option α :=
  (Assoc.get? name fields).bind read

/-- A natural number up to a limit. -/
def natural? (limit : Nat) : Document → Option Nat
  | integer value => if 0 ≤ value ∧ value ≤ limit then some value.toNat else none
  | _ => none

def word? (d : Document) : Option UInt16 := (d.natural? 65535).map UInt16.ofNat

def text? : Document → Option String
  | text value => some value
  | _ => none

/-- A value that may be null. -/
def nullable? {α : Type} (read : Document → Option α) : Document → Option (Option α)
  | null => some none
  | d => (read d).map some

def mac? (d : Document) : Option MacAddress := do (MacAddress.parse (← d.text?)).toOption

/-- One of several names: as a text, or as a table that has only this name, with null. -/
def choice? {α : Type} (ofName? : String → Option α) : Document → Option α
  | text name => ofName? name
  | table [(name, null)] => ofName? name
  | _ => none

def systemId? (surplus : Surplus) (d : Document) : Option SystemId := do
  let fields ← d.fields? surplus ["priority", "mac"]
  return ⟨← field? "priority" word? fields, ← field? "mac" mac? fields⟩

def portId? (surplus : Surplus) (d : Document) : Option PortId := do
  let fields ← d.fields? surplus ["priority", "number"]
  return ⟨← field? "priority" word? fields, ← field? "number" word? fields⟩

end Document
end LinkAggregation
