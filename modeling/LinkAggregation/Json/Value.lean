import LinkAggregation.Json.Number

/-!
# JSON values

A value as a tree. Objects keep their members in a list; a document that was read has them sorted
by key and without repetition.
-/
namespace LinkAggregation

/-- A JSON value. -/
inductive Json where
  | null
  | bool (value : Bool)
  | number (value : Json.Number)
  | text (value : String)
  | array (items : List Json)
  | object (members : List (String × Json))
  deriving Inhabited, Repr

namespace Json

def ofNat (n : Nat) : Json := .number (.integer n)

/-- The value, or null. -/
def ofOption {α : Type} (f : α → Json) : Option α → Json
  | some a => f a
  | none => .null

def ofTexts (ss : List String) : Json := .array (ss.map .text)

/-- Gives a key this value, in a list of members sorted by key. -/
def putMember (key : String) (value : Json) : List (String × Json) → List (String × Json)
  | [] => [(key, value)]
  | (k, v) :: rest =>
    if k = key then (key, value) :: rest
    else if key < k then (key, value) :: (k, v) :: rest
    else (k, v) :: putMember key value rest

/-- The object of these members, of which the last one of each key counts. -/
def ofMembers (members : List (String × Json)) : Json :=
  .object (members.foldl (fun sorted (key, value) => putMember key value sorted) [])

/-- The members of an object. -/
def members? : Json → Option (List (String × Json))
  | .object members => some members
  | _ => none

/-- The value of a key of an object. -/
def get? (key : String) (j : Json) : Option Json := do
  ((← j.members?).find? fun m => m.1 == key).map Prod.snd

end Json
end LinkAggregation
