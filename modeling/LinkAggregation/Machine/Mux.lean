import LinkAggregation.Machine.State
import LinkAggregation.Timer.Clock
import LinkAggregation.Timer.Schedule

/-!
# The mux machine

It attaches selected members to the aggregate: detached, waiting, attached, and collecting and
distributing. A member of a static LAG forwards as soon as it is selected.
-/
namespace LinkAggregation.Mux
variable [Clock]

/-- How long a newly selected member waits before it attaches. -/
def aggregateWait : Nat := 2000

/-- What a step of the machine depends on. -/
structure Input where
  selection : Selection
  /-- The LAG is static. -/
  static : Bool
  /-- The wait is over. -/
  ready : Bool
  partnerSync : Bool
  deriving DecidableEq, Repr

/-- The state after one step; the state itself if there is nothing to do. -/
def next (s : MuxState) (i : Input) : MuxState :=
  if i.static then
    if i.selection.isSelected then .collectingDistributing else .detached
  else match s with
    | .detached => if i.selection.isEligible then .waiting else .detached
    | .waiting =>
      if !i.selection.isEligible then .detached
      else if i.selection.isSelected && i.ready then .attached
      else .waiting
    | .attached =>
      if !i.selection.isSelected then .detached
      else if i.partnerSync then .collectingDistributing
      else .attached
    | .collectingDistributing =>
      if !i.selection.isSelected then .detached
      else if !i.partnerSync then .attached
      else .collectingDistributing

/-- What the machine sees of an interface. -/
def input (p : Protocol) (static : Bool) : Input :=
  ⟨p.selection, static, p.ready, p.partner.state.sync⟩

/-- Enters a state: leaving stops the wait, waiting starts it. -/
def enter (slot : Nat) (s : MuxState) (p : Protocol) (t : Timers) (now : Nat) :
    Protocol × Timers :=
  match s with
  | .detached => ({ p with mux := s, ready := false }, t.cancel (.waitWhile slot))
  | .waiting =>
    ({ p with mux := s, ready := false }, t.arm (.waitWhile slot) (Clock.after now aggregateWait))
  | .attached | .collectingDistributing => ({ p with mux := s }, t)

/-- Takes steps until nothing changes, but at most `steps`. -/
def settle (slot : Nat) (static : Bool) (now : Nat) :
    Nat → Protocol → Timers → Protocol × Timers
  | 0, p, t => (p, t)
  | steps + 1, p, t =>
    let s := next p.mux (input p static)
    if s = p.mux then (p, t)
    else
      let (p, t) := enter slot s p t now
      settle slot static now steps p t

/-- The sync, collecting and distributing flags follow the state. An attached member is in sync
unless its partner describes this end wrongly. -/
def withFlags (p : Protocol) : Protocol :=
  let sync := match p.mux with
    | .detached | .waiting => false
    | .attached => p.selection.isSelected && (!p.partnerKnown || p.viewMatches)
    | .collectingDistributing => true
  let forwarding := p.mux.isForwarding
  { p with actor :=
      { p.actor with sync := sync, collecting := forwarding, distributing := forwarding } }

/-- Runs the machine until it settles, which takes no more steps than it has states. -/
def run (slot : Nat) (static : Bool) (p : Protocol) (t : Timers) (now : Nat) :
    Protocol × Timers :=
  let (p, t) := settle slot static now 4 p t
  (if static then p else withFlags p, t)

end LinkAggregation.Mux
