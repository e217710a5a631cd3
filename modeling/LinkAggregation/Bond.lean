import LinkAggregation.Machine.State

/-!
# Bond status

Whether a member forwards, and whether a LAG does. A member is up if it collects and distributes,
blocked if it has link but may not take part, and down otherwise.
-/
namespace LinkAggregation

/-- The bond status of a member with this port and protocol state. -/
def memberBond (adminUp linkUp : Bool) (selection : Selection) (mux : MuxState) : BondStatus :=
  if !adminUp || !linkUp then .down
  else if selection.isConflict || selection == .standby then .blocked
  else if mux.isForwarding then .up
  else .down

/-- The bond status of an interface, which it has only as a member. -/
def interfaceBond? (isMember adminUp linkUp : Bool) (selection : Selection) (mux : MuxState) :
    Option BondStatus :=
  if isMember then some (memberBond adminUp linkUp selection mux) else none

/-- A LAG is up if a member is, blocked if none is up but one is blocked, and down otherwise. -/
def lagBond (members : List BondStatus) : BondStatus :=
  if .up ∈ members then .up else if .blocked ∈ members then .blocked else .down

@[simp] theorem lagBond_nil : lagBond [] = .down := rfl

theorem lagBond_eq_up_iff {members : List BondStatus} : lagBond members = .up ↔ .up ∈ members := by
  unfold lagBond
  split
  · simp [*]
  · split <;> simp [*]

end LinkAggregation
