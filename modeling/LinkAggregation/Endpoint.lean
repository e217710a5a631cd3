import LinkAggregation.Flags
import LinkAggregation.Identity

/-!
# Endpoints and protocol messages

An endpoint is one side of a link as its messages describe it. A LACP message carries the sender's
endpoint (actor) and what the sender knows of the other side (partner); a marker is answered with
the same content.
-/
namespace LinkAggregation

/-- One side of a link: its system, aggregation key, port and state. -/
structure Endpoint where
  system : SystemId := {}
  key : UInt16 := 0
  port : PortId := {}
  state : Flags := {}
  deriving DecidableEq, Repr, Inhabited

/-- Both describe the same end: system, key, port and the aggregation flag agree. -/
def Endpoint.sameEnd (a b : Endpoint) : Bool :=
  a.system == b.system && a.key == b.key && a.port == b.port &&
    a.state.aggregation == b.state.aggregation

/-- A LACP message. -/
structure Lacpdu where
  actor : Endpoint := {}
  partner : Endpoint := {}
  /-- In tens of microseconds. -/
  collectorMaxDelay : UInt16 := 0
  deriving DecidableEq, Repr, Inhabited

/-- Whether a marker asks or answers. -/
inductive MarkerKind where
  | information
  | response
  deriving DecidableEq, Repr, Inhabited

namespace MarkerKind

def all : List MarkerKind := [information, response]

def name : MarkerKind → String
  | information => "information"
  | response => "response"

def ofName? (s : String) : Option MarkerKind := all.find? (·.name == s)

end MarkerKind

/-- A Marker message. -/
structure Marker where
  kind : MarkerKind := .information
  requesterPort : UInt16 := 0
  requesterSystem : MacAddress := {}
  transaction : UInt32 := 0
  deriving DecidableEq, Repr, Inhabited

/-- The answer to a marker has its content. -/
def Marker.response (m : Marker) : Marker := { m with kind := .response }

/-- What a Slow Protocols frame can carry. -/
inductive Message where
  | lacp (pdu : Lacpdu)
  | marker (marker : Marker)
  deriving DecidableEq, Repr

end LinkAggregation
