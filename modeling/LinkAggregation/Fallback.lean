import LinkAggregation.Choice
import LinkAggregation.Identity
import LinkAggregation.Timer.Clock
import LinkAggregation.Timer.Schedule

/-!
# Fallback

A dynamic LAG may forward through members that hear nothing, once all its enabled members have
heard nothing for the fallback timeout. The members that may do so hold a grant.
-/
namespace LinkAggregation.Fallback
variable [Clock]

/-- The fallback state of a LAG. -/
structure State where
  /-- When the last enabled member fell silent. -/
  since : Option Nat := none
  /-- Grants are in force. -/
  active : Bool := false
  deriving DecidableEq, Repr, Inhabited

/-- The settings that fallback depends on. -/
structure Settings where
  /-- The LAG is dynamic and has fallback. -/
  enabled : Bool
  mode : FallbackMode
  /-- In milliseconds. -/
  timeout : Nat
  deriving DecidableEq, Repr

/-- A member as fallback sees it. -/
structure Member where
  slot : Nat
  port : PortId
  enabled : Bool
  /-- It hears nothing. -/
  defaulted : Bool
  deriving DecidableEq, Repr

/-- Some member is enabled, and all that are hear nothing. -/
def allDefaulted (members : List Member) : Bool :=
  members.any (·.enabled) && members.all fun m => !m.enabled || m.defaulted

/-- The order of grants: by port, then by slot. -/
def Member.notAfter (a b : Member) : Bool :=
  a.port.rank < b.port.rank || a.port.rank == b.port.rank && a.slot ≤ b.slot

/-- The slots to be granted: the best enabled member that hears nothing, or every one. -/
def grants (mode : FallbackMode) (members : List Member) : List Nat :=
  let ranked := (members.filter fun m => m.enabled && m.defaulted).mergeSort Member.notAfter
  let slots := ranked.map (·.slot)
  match mode with
  | .priority => slots.take 1
  | .allActive => slots

/-- Puts grants in force. -/
def activate (s : State) : State := { s with active := true }

/-- The silence begins: grants come into force after the timeout, at once if it is zero. -/
def start (lag : Nat) (settings : Settings) (s : State) (t : Timers) (now : Nat) :
    State × Timers :=
  match s.since with
  | some _ => (s, t)
  | none =>
    let s := { s with since := some now }
    if settings.timeout = 0 then (activate s, t)
    else (s, t.arm (.fallback lag) (Clock.after now settings.timeout))

/-- Brings fallback in line with the members; the last part is the slots to be granted. -/
def evaluate (lag : Nat) (settings : Settings) (members : List Member) (s : State) (t : Timers)
    (now : Nat) : State × Timers × List Nat :=
  if !settings.enabled || !allDefaulted members then ({}, t.cancel (.fallback lag), [])
  else
    let (s, t) := start lag settings s t now
    (s, t, if s.active then grants settings.mode members else [])

end LinkAggregation.Fallback
