import LinkAggregation.Engine.Evaluate
import LinkAggregation.Proofs.Text.Identifier

/-!
# A record tells everything

Both ends of a link and the bond status are read back from the fields of the record. So links whose
records are equal are equal, and a member whose record is not published again is in the state that
was published.
-/
namespace LinkAggregation
open Text

/-- Reads the end of the link whose fields have names that begin with `side`. -/
def Endpoint.read? (side : String) (fields : List (String × String)) : Option Endpoint := do
  let state ← (fields.lookup (side ++ "_state")).bind Flags.ofText?
  let system ← (fields.lookup (side ++ "_system_id")).bind fun s => (SystemId.parse s).toOption
  let port ← (fields.lookup (side ++ "_port_id")).bind fun s => (PortId.parse s).toOption
  let key ← (fields.lookup (side ++ "_key")).bind fun s => word16? s.toList
  some { system, key, port, state }

/-- Reads the bond status, which has a field if there is one. -/
def readBond? (fields : List (String × String)) : Option (Option BondStatus) :=
  match fields.lookup "bond_status" with
  | none => some none
  | some word => (BondStatus.ofName? word).map some

namespace Record

/-- Reads both ends and the bond status from the fields of a record. -/
def read? (fields : List (String × String)) : Option (Endpoint × Endpoint × Option BondStatus) := do
  some (← Endpoint.read? "actor" fields, ← Endpoint.read? "partner" fields, ← readBond? fields)

variable {actor partner : Endpoint} {bond : Option BondStatus}

theorem word16?_decimal (n : UInt16) : word16? (decimal n.toNat).toList = some n := by
  rw [decimal, String.toList_ofList, word16?_decimalDigits]

theorem read?_actor : Endpoint.read? "actor" (of actor partner bond).fields = some actor := by
  simp [Endpoint.read?, fields, of, List.lookup_cons, word16?_decimal, Except.toOption]

theorem read?_partner : Endpoint.read? "partner" (of actor partner bond).fields = some partner := by
  simp [Endpoint.read?, fields, of, List.lookup_cons, word16?_decimal, Except.toOption]

theorem readBond?_fields : readBond? (of actor partner bond).fields = some bond := by
  cases bond <;> simp [readBond?, fields, of, List.lookup_cons]

/-- What a record was made of is read back from its fields. -/
theorem read?_fields : read? (of actor partner bond).fields = some (actor, partner, bond) := by
  simp [read?, read?_actor, read?_partner, readBond?_fields]

variable {actor' partner' : Endpoint} {bond' : Option BondStatus}

theorem fields_eq_iff : (of actor partner bond).fields = (of actor' partner' bond').fields ↔
    actor = actor' ∧ partner = partner' ∧ bond = bond' := by
  constructor
  · intro h
    have hread := congrArg read? h
    simpa only [read?_fields, Option.some.injEq, Prod.mk.injEq] using hread
  · rintro ⟨rfl, rfl, rfl⟩
    rfl

theorem of_eq_iff : of actor partner bond = of actor' partner' bond' ↔
    actor = actor' ∧ partner = partner' ∧ bond = bond' := by
  constructor
  · exact fun h => fields_eq_iff.mp (congrArg fields h)
  · rintro ⟨rfl, rfl, rfl⟩
    rfl

end Record

/-- Each text of an endpoint is read back as what it was written for. -/
structure Endpoint.ReadsBack (e : Endpoint) : Prop where
  system : SystemId.parse e.system.text = .ok e.system
  mac : MacAddress.parse e.system.mac.text = .ok e.system.mac
  port : PortId.parse e.port.text = .ok e.port
  key : word16? (decimal e.key.toNat).toList = some e.key
  state : Flags.ofText? e.state.text = some e.state
  /-- The text of the flags belongs to one octet only. -/
  octet : ∀ flags : Flags, flags.text = e.state.text ↔ flags.bits = e.state.bits

theorem Flags.text_eq_iff {f g : Flags} : f.text = g.text ↔ f.bits = g.bits := by
  constructor
  · intro h
    have hread := congrArg Flags.ofText? h
    simp only [Flags.ofText?_text, Option.some.injEq] at hread
    rw [hread]
  · intro h
    have hflags := congrArg Flags.ofBits h
    simp only [Flags.ofBits_bits] at hflags
    rw [hflags]

theorem Endpoint.reads_back (e : Endpoint) : e.ReadsBack where
  system := e.system.parse_text
  mac := e.system.mac.parse_text
  port := e.port.parse_text
  key := Record.word16?_decimal e.key
  state := e.state.ofText?_text
  octet _ := Flags.text_eq_iff

namespace Evaluation

/-- What a member's record is made of after the member has been evaluated. -/
def Says (ev : Evaluation) (i : Interface) (actor partner : Endpoint) (bond : Option BondStatus) :
    Prop :=
  i.endpoint ev.system ev.lagKey = actor ∧ i.protocol.partner = partner ∧
    some (memberBond i.port.admin.isUp i.port.link.isUp i.protocol.selection i.protocol.mux) = bond

variable {ev : Evaluation} {i : Interface} {actor partner : Endpoint} {bond : Option BondStatus}

/-- A record is written unless the last one was written for the same. -/
theorem publish_of_published (h : i.published = some (Record.of actor partner bond))
    (hconnected : ev.connected = true) :
    (ev.publish i).2 = [] ↔ ev.Says i actor partner bond := by
  have hrecord : (ev.publish i).2 = [] ↔
      Record.of actor partner bond =
        Record.of (i.endpoint ev.system ev.lagKey) i.protocol.partner
          (some (memberBond i.port.admin.isUp i.port.link.isUp i.protocol.selection
            i.protocol.mux)) := by
    simp only [publish, h, hconnected, Option.some.injEq]
    split
    · next heq => exact iff_of_true rfl heq
    · next hne => exact iff_of_false (by simp) hne
  rw [hrecord, Record.of_eq_iff, Says]
  exact and_congr eq_comm (and_congr eq_comm eq_comm)

end Evaluation

/-- What the record of a link promises to its readers. -/
structure Record.Lossless (actor partner : Endpoint) (bond : Option BondStatus) : Prop where
  /-- Both ends and the bond status are read back from the fields. -/
  read : Record.read? (Record.of actor partner bond).fields = some (actor, partner, bond)
  actorTexts : actor.ReadsBack
  partnerTexts : partner.ReadsBack
  status : ∀ status, bond = some status → BondStatus.ofName? status.name = some status
  /-- The fields of two records are equal exactly if the records are of the same. -/
  fields : ∀ actor' partner' bond',
    (Record.of actor partner bond).fields = (Record.of actor' partner' bond').fields ↔
      actor = actor' ∧ partner = partner' ∧ bond = bond'
  /-- Two records are equal exactly if they are of the same. -/
  equal : ∀ actor' partner' bond',
    Record.of actor partner bond = Record.of actor' partner' bond' ↔
      actor = actor' ∧ partner = partner' ∧ bond = bond'
  /-- After this record nothing is published exactly as long as nothing has changed. -/
  unchanged : ∀ (ev : Evaluation) (i : Interface),
    i.published = some (Record.of actor partner bond) → ev.connected = true →
    ((ev.publish i).2 = [] ↔ ev.Says i actor partner bond)
  /-- The record that follows a change is of the new state. -/
  changed : ∀ (ev : Evaluation) (i : Interface), ev.connected = true →
    i.published ≠ some (Record.of actor partner bond) → ev.Says i actor partner bond →
    (ev.publish i).2 = [.writeRecord i.name (Record.of actor partner bond)]

/-- Records lose nothing of what they are made of. -/
theorem Record.lossless (actor partner : Endpoint) (bond : Option BondStatus) :
    Record.Lossless actor partner bond where
  read := read?_fields
  actorTexts := actor.reads_back
  partnerTexts := partner.reads_back
  status status _ := status.ofName?_name
  fields _ _ _ := fields_eq_iff
  equal _ _ _ := of_eq_iff
  unchanged _ _ := Evaluation.publish_of_published
  changed ev i hconnected hpublished hsays := by
    obtain ⟨rfl, rfl, rfl⟩ := hsays
    simp only [Evaluation.publish, hconnected, if_true]
    exact congrArg Prod.snd (if_neg hpublished)

end LinkAggregation
