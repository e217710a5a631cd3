import LinkAggregation.Assoc

/-!
# Arenas

An arena keeps named values in numbered slots. A new value takes the first free slot, and a slot
is free again once its value is removed. An index leads from names to slots.
-/
namespace LinkAggregation

/-- Values in slots, and the slot of each name. -/
structure Arena (α : Type) where
  slots : List (Option α) := []
  index : List (String × Nat) := []
  deriving DecidableEq, Repr

namespace Arena
variable {α : Type}

instance : Inhabited (Arena α) := ⟨{}⟩

/-- The value in a slot. -/
def get? (a : Arena α) (slot : Nat) : Option α := a.slots[slot]?.join

/-- The slot of a name. -/
def find? (a : Arena α) (name : String) : Option Nat := Assoc.get? name a.index

/-- The value under a name. -/
def lookup? (a : Arena α) (name : String) : Option α := (a.find? name).bind a.get?

/-- Changes the value in a slot, if it holds one. -/
def modify (a : Arena α) (slot : Nat) (f : α → α) : Arena α :=
  { a with slots := a.slots.modify slot (Option.map f) }

/-- The first free slot, or the one after the last. -/
def freeSlot (a : Arena α) : Nat := a.slots.findIdx Option.isNone

/-- Puts a new value under a name into the first free slot. -/
def insert (a : Arena α) (name : String) (value : α) : Arena α :=
  let slot := a.freeSlot
  { slots :=
      if slot < a.slots.length then a.slots.set slot (some value) else a.slots ++ [some value]
    index := Assoc.put name slot a.index }

/-- Frees the slot of a name. -/
def remove (a : Arena α) (name : String) (slot : Nat) : Arena α :=
  { slots := a.slots.set slot none, index := Assoc.erase name a.index }

/-- The occupied slots, ascending. -/
def occupied (a : Arena α) : List Nat :=
  (List.range a.slots.length).filter fun slot => (a.get? slot).isSome

/-- The names in use, ascending. -/
def names (a : Arena α) : List String :=
  (a.index.map Prod.fst).mergeSort fun s t => !decide (t < s)

/-- Changes every value. -/
def map (a : Arena α) (f : α → α) : Arena α := { a with slots := a.slots.map (Option.map f) }

@[simp] theorem get?_modify (a : Arena α) (slot slot' : Nat) (f : α → α) :
    (a.modify slot f).get? slot' = if slot = slot' then (a.get? slot').map f else a.get? slot' := by
  simp only [get?, modify, List.getElem?_modify]
  split
  · next h => subst h; cases a.slots[slot]? <;> simp
  · cases a.slots[slot']? <;> simp

@[simp] theorem find?_modify (a : Arena α) (slot : Nat) (f : α → α) (name : String) :
    (a.modify slot f).find? name = a.find? name := rfl

@[simp] theorem get?_insert_freeSlot (a : Arena α) (name : String) (value : α) :
    (a.insert name value).get? a.freeSlot = some value := by
  simp only [get?, insert]
  split
  · next h => simp [h]
  · next h =>
    have : a.freeSlot = a.slots.length :=
      Nat.le_antisymm List.findIdx_le_length (Nat.le_of_not_lt h)
    simp [this]

@[simp] theorem find?_insert (a : Arena α) (name name' : String) (value : α) :
    (a.insert name value).find? name' =
      if name' = name then some a.freeSlot else a.find? name' := by
  simp [find?, insert]

@[simp] theorem find?_remove (a : Arena α) (name name' : String) (slot : Nat) :
    (a.remove name slot).find? name' = if name' = name then none else a.find? name' := by
  simp [find?, remove]

end Arena
end LinkAggregation
