import LinkAggregation.Choice
import LinkAggregation.Endpoint

/-!
# Published records and counters

What is published about a member: both ends of its link as texts, and its bond status. Counters
count messages and churn.
-/
namespace LinkAggregation
open Text

/-- The published state of a member. -/
structure Record where
  actorState : String
  partnerState : String
  actorSystem : String
  partnerSystem : String
  actorPort : String
  partnerPort : String
  actorKey : UInt16
  partnerKey : UInt16
  bond : Option BondStatus
  deriving DecidableEq, Repr

namespace Record

/-- The record of a link. -/
def of (actor partner : Endpoint) (bond : Option BondStatus) : Record where
  actorState := actor.state.text
  partnerState := partner.state.text
  actorSystem := actor.system.text
  partnerSystem := partner.system.text
  actorPort := actor.port.text
  partnerPort := partner.port.text
  actorKey := actor.key
  partnerKey := partner.key
  bond

/-- The record as named texts. An absent bond status has no field. -/
def fields (r : Record) : List (String × String) :=
  [("actor_state", r.actorState),
    ("partner_state", r.partnerState),
    ("actor_system_id", r.actorSystem),
    ("partner_system_id", r.partnerSystem),
    ("actor_port_id", r.actorPort),
    ("partner_port_id", r.partnerPort),
    ("actor_key", decimal r.actorKey.toNat),
    ("partner_key", decimal r.partnerKey.toNat)] ++
  (r.bond.map fun status => ("bond_status", status.name)).toList

end Record

/-- What has been counted on an interface. -/
structure Counters where
  sent : Nat := 0
  received : Nat := 0
  markersReceived : Nat := 0
  markerResponsesSent : Nat := 0
  /-- Malformed frames. -/
  errors : Nat := 0
  /-- Frames received while the protocol did not run. -/
  dropped : Nat := 0
  actorChurn : Nat := 0
  partnerChurn : Nat := 0
  deriving DecidableEq, Repr, Inhabited

namespace Counters

def add (a b : Counters) : Counters where
  sent := a.sent + b.sent
  received := a.received + b.received
  markersReceived := a.markersReceived + b.markersReceived
  markerResponsesSent := a.markerResponsesSent + b.markerResponsesSent
  errors := a.errors + b.errors
  dropped := a.dropped + b.dropped
  actorChurn := a.actorChurn + b.actorChurn
  partnerChurn := a.partnerChurn + b.partnerChurn

instance : Add Counters := ⟨add⟩

/-- The counters with their names. -/
def fields (c : Counters) : List (String × Nat) :=
  [("lacpdus_sent", c.sent),
    ("lacpdus_received", c.received),
    ("markers_received", c.markersReceived),
    ("marker_responses_sent", c.markerResponsesSent),
    ("rx_errors", c.errors),
    ("rx_dropped", c.dropped),
    ("actor_churn", c.actorChurn),
    ("partner_churn", c.partnerChurn)]

end Counters
end LinkAggregation
