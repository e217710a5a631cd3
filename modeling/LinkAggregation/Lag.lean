import LinkAggregation.Config.LagSettings
import LinkAggregation.Fallback

/-!
# LAGs

A configured link aggregation group: its settings and the slots of its members, in ascending
order and without repetition.
-/
namespace LinkAggregation

/-- A configured LAG. -/
structure Lag where
  name : String
  /-- The aggregation key: the number in the name. -/
  key : UInt16
  settings : LagSettings
  members : List Nat := []
  fallback : Fallback.State := {}
  /-- The last bond status that was published. -/
  published : Option BondStatus := none
  deriving DecidableEq, Repr

namespace Lag

/-- Puts a slot at its place in an ascending list, unless it is there already. -/
def insertSlot (slot : Nat) : List Nat → List Nat
  | [] => [slot]
  | s :: rest =>
    if slot < s then slot :: s :: rest
    else if slot = s then s :: rest
    else s :: insertSlot slot rest

/-- Makes the interface in a slot a member. -/
def addMember (l : Lag) (slot : Nat) : Lag := { l with members := insertSlot slot l.members }

/-- The interface in a slot is no longer a member. -/
def removeMember (l : Lag) (slot : Nat) : Lag := { l with members := l.members.erase slot }

def isDynamic (l : Lag) : Bool := l.settings.mode.isDynamic

@[simp] theorem mem_insertSlot {slot s : Nat} {slots : List Nat} :
    s ∈ insertSlot slot slots ↔ s = slot ∨ s ∈ slots := by
  induction slots with
  | nil => simp [insertSlot]
  | cons r rest ih =>
    simp only [insertSlot]
    split
    · simp
    · split
      · next h => subst h; simp
      · simp only [List.mem_cons, ih]
        constructor
        · rintro (h | h | h) <;> simp [h]
        · rintro (h | h | h) <;> simp [h]

end Lag
end LinkAggregation
