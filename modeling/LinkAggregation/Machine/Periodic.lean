import LinkAggregation.Machine.State

/-!
# The periodic machine

It decides how often an interface sends unasked: fast if either side asks for short timeouts, slow
otherwise, and never if the protocol does not run or neither side is active.
-/
namespace LinkAggregation.Periodic

def fastInterval : Nat := 1000

def slowInterval : Nat := 30000

/-- The time between messages. -/
def interval? : PeriodicState → Option Nat
  | .never => none
  | .fast => some fastInterval
  | .slow => some slowInterval

/-- What the machine depends on. -/
structure Input where
  /-- Administratively up and with link. -/
  portEnabled : Bool := false
  /-- The member of a dynamic LAG. -/
  lacpEnabled : Bool := false
  /-- Left out of the aggregate by a conflict. -/
  excluded : Bool := false
  actorActive : Bool := false
  partnerActive : Bool := false
  actorShort : Bool := false
  partnerShort : Bool := false
  deriving DecidableEq, Repr, Inhabited

def state (i : Input) : PeriodicState :=
  if !i.portEnabled || !i.lacpEnabled || i.excluded then .never
  else if !i.actorActive && !i.partnerActive then .never
  else if i.actorShort || i.partnerShort then .fast
  else .slow

end LinkAggregation.Periodic
