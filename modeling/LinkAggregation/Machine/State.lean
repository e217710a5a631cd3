import LinkAggregation.Choice
import LinkAggregation.Endpoint
import LinkAggregation.Selection.Outcome

/-!
# Protocol state of an interface

The states of the machines that run on an interface, and everything that is forgotten when the
interface leaves its LAG. Times are in milliseconds.
-/
namespace LinkAggregation

/-- The states of the receive machine. -/
inductive ReceiveState where
  | initial
  | portDisabled
  /-- Nothing heard for a while; the partner is asked for fast messages. -/
  | expired
  /-- Nothing heard at all; a default partner is assumed. -/
  | defaulted
  /-- The partner is heard. -/
  | current
  /-- The member of a static LAG. -/
  | lacpDisabled
  deriving DecidableEq, Repr, Inhabited

namespace ReceiveState

def all : List ReceiveState :=
  [initial, portDisabled, expired, defaulted, current, lacpDisabled]

def name : ReceiveState → String
  | initial => "Initialize"
  | portDisabled => "PortDisabled"
  | expired => "Expired"
  | defaulted => "Defaulted"
  | current => "Current"
  | lacpDisabled => "LacpDisabled"

def ofName? (s : String) : Option ReceiveState := all.find? (·.name == s)

/-- The protocol runs. -/
def isRunning : ReceiveState → Bool
  | expired | defaulted | current => true
  | _ => false

end ReceiveState

/-- The states of the mux machine. -/
inductive MuxState where
  | detached
  | waiting
  | attached
  | collectingDistributing
  deriving DecidableEq, Repr, Inhabited

namespace MuxState

def all : List MuxState := [detached, waiting, attached, collectingDistributing]

def name : MuxState → String
  | detached => "Detached"
  | waiting => "Waiting"
  | attached => "Attached"
  | collectingDistributing => "CollectingDistributing"

def ofName? (s : String) : Option MuxState := all.find? (·.name == s)

def isForwarding (s : MuxState) : Bool := s == collectingDistributing

end MuxState

/-- The states of the periodic machine: how often messages are sent unasked. -/
inductive PeriodicState where
  | never
  | fast
  | slow
  deriving DecidableEq, Repr, Inhabited

namespace PeriodicState

def all : List PeriodicState := [never, fast, slow]

def name : PeriodicState → String
  | never => "NoPeriodic"
  | fast => "FastPeriodic"
  | slow => "SlowPeriodic"

def ofName? (s : String) : Option PeriodicState := all.find? (·.name == s)

def isRunning (s : PeriodicState) : Bool := s != never

end PeriodicState

/-- The protocol state of an interface. -/
structure Protocol where
  actor : Flags := {}
  partner : Endpoint := {}
  /-- A partner has been heard since the state was last reset or defaulted. -/
  partnerKnown : Bool := false
  /-- The partner last described this end as it is. -/
  viewMatches : Bool := false
  receive : ReceiveState := .initial
  mux : MuxState := .detached
  periodic : PeriodicState := .never
  selection : Selection := .initial
  /-- The wait before attaching is over. -/
  ready : Bool := false
  /-- A message has to be sent. -/
  needToTransmit : Bool := false
  actorChurn : Bool := false
  partnerChurn : Bool := false
  fallbackGranted : Bool := false
  bond : Option BondStatus := none
  deriving DecidableEq, Repr, Inhabited

end LinkAggregation
