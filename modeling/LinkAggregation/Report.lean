import LinkAggregation.Engine.Query
import LinkAggregation.Json.Printer

/-!
# Reports as JSON

The JSON form of records, counters and snapshots. Members of objects stand in a fixed order.
-/
namespace LinkAggregation

def MacAddress.toJson (m : MacAddress) : Json := .text m.text

def SystemId.toJson (s : SystemId) : Json :=
  .object [("priority", .ofNat s.priority.toNat), ("mac", s.mac.toJson)]

def PortId.toJson (p : PortId) : Json :=
  .object [("priority", .ofNat p.priority.toNat), ("number", .ofNat p.number.toNat)]

def Endpoint.toJson (e : Endpoint) : Json :=
  .object [("system", e.system.toJson), ("key", .ofNat e.key.toNat), ("port", e.port.toJson),
    ("state", .text e.state.text)]

/-- An exclusion is an object that names its reason. -/
def Selection.toJson : Selection → Json
  | .unselected reason => .object [("unselected", .text reason.name)]
  | s => .text s.text

def BondStatus.toJson (s : BondStatus) : Json := .text s.name

def Counters.toJson (c : Counters) : Json :=
  .object (c.fields.map fun (name, n) => (name, .ofNat n))

def Fallback.State.toJson (s : Fallback.State) : Json :=
  .object [("defaulted_since", .ofOption .ofNat s.since), ("active", .bool s.active)]

/-- Keys are numbers, and an absent bond status has no member. -/
def Record.toJson (r : Record) : Json :=
  .object ([("actor_state", .text r.actorState), ("partner_state", .text r.partnerState),
    ("actor_system_id", .text r.actorSystem), ("partner_system_id", .text r.partnerSystem),
    ("actor_port_id", .text r.actorPort), ("partner_port_id", .text r.partnerPort),
    ("actor_key", .ofNat r.actorKey.toNat), ("partner_key", .ofNat r.partnerKey.toNat)] ++
    (r.bond.map fun status => ("bond_status", status.toJson)).toList)

def MemberNames.toJson (m : MemberNames) : Json :=
  .object [("configured", .ofTexts m.configured), ("eligible", .ofTexts m.eligible),
    ("participant", .ofTexts m.participant)]

def MemberSnapshot.toJson (m : MemberSnapshot) : Json :=
  .object [("name", .text m.name), ("rx_state", .text m.protocol.receive.name),
    ("mux_state", .text m.protocol.mux.name), ("periodic", .text m.protocol.periodic.name),
    ("selection", m.protocol.selection.toJson), ("actor", m.actor.toJson),
    ("partner", m.protocol.partner.toJson), ("actor_churn", .bool m.protocol.actorChurn),
    ("partner_churn", .bool m.protocol.partnerChurn),
    ("fallback_granted", .bool m.protocol.fallbackGranted),
    ("bond_status", .ofOption BondStatus.toJson m.protocol.bond),
    ("counters", m.counters.toJson)]

def LagSnapshot.toJson (l : LagSnapshot) : Json :=
  .object [("name", .text l.name), ("key", .ofNat l.key.toNat),
    ("mode", .text l.settings.mode.name), ("rate", .text l.settings.rate.name),
    ("system_id", l.system.toJson),
    ("fallback_enabled", .bool l.settings.fallback),
    ("fallback_mode", .text l.settings.fallbackMode.name),
    ("fallback_timeout_secs", .ofNat l.settings.fallbackTimeout),
    ("fallback", l.fallback.toJson), ("bond_status", l.bond.toJson),
    ("counters", l.counters.toJson), ("members", .array (l.members.map MemberSnapshot.toJson))]

/-- The snapshot as a document for people to read. -/
def LagSnapshot.render (l : LagSnapshot) : String := l.toJson.pretty 0

end LinkAggregation
