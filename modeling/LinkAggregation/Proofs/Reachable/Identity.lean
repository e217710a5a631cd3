import LinkAggregation.Cable
import LinkAggregation.Proofs.Engine.Identified
import LinkAggregation.Proofs.Engine.Receipts
import LinkAggregation.Proofs.Reachable.Advertisement

/-!
# What frames say of their sender

Every frame that is sent has the address of one system as its source. A LACP message comes from the
system that its LAG stands for, and names a key and a port; the answer to a marker comes from the
same system.
-/
namespace LinkAggregation

namespace Frame

@[simp] theorem source_encodeLacp (pdu : Lacpdu) (source : MacAddress) :
    (encodeLacp pdu source).source = source := rfl

@[simp] theorem source_encodeMarker (marker : Marker) (source : MacAddress) :
    (encodeMarker marker source).source = source := rfl

end Frame

/-- The message presents a member of the LAG: the system for which the LAG stands, a key and a
port. -/
structure Lacpdu.Presents (pdu : Lacpdu) (system : SystemIdentity) (lag : Lag) : Prop where
  priority : pdu.actor.system.priority = lag.settings.systemPriority.getD system.priority
  mac : pdu.actor.system.mac = lag.settings.systemMac.getD system.mac
  key : pdu.actor.key ≠ 0
  portNumber : pdu.actor.port.number ≠ 0

namespace Engine
variable {e : Engine} {c : Kind} {s : Step} {a : Action} {l slot : Nat} {i : Interface}
  {name : String} {frame : Frame} {pdu : Lacpdu}

/-- A frame on an interface is a message from the address of one system. If it is a LACP message,
it presents the interface as a member of its LAG and comes from the system that it presents. -/
structure Vouches (e : Engine) (name : String) (frame : Frame) : Prop where
  message : ∃ m, frame.decode = .ok m
  source : frame.source.isMulticast = false
  lacp : ∀ pdu, frame.decode = .ok (.lacp pdu) → frame.source = pdu.actor.system.mac ∧
    ∃ i l lag, e.interface? name = some i ∧ i.lag = some l ∧ e.lags.get? l = some lag ∧
      pdu.Presents e.system lag

/-! ## How frames are written -/

/-- The frame is a LACP message from the system that it presents. -/
def IsLacp (frame : Frame) : Prop := ∃ pdu, frame = Frame.encodeLacp pdu pdu.actor.system.mac

theorem isLacp_of_evaluate (hsent : Effect.transmit name frame ∈ (e.evaluate l).2) :
    IsLacp frame := by
  cases hl : e.lags.get? l with
  | none =>
    rw [evaluate_of_not_live hl] at hsent
    cases hsent
  | some lag =>
    rw [evaluate_eq hl, List.mem_append] at hsent
    obtain hmember | hstatus := hsent
    · obtain ⟨m, -, heffect⟩ := List.mem_flatMap.mp hmember
      obtain ⟨-, -, hframe⟩ := Evaluation.transmit_of_mem_effects heffect
      exact ⟨_, hframe⟩
    · split at hstatus
      · cases hstatus
      · cases List.mem_singleton.mp (mem_of_mem_emit hstatus)

/-- Only evaluations send, apart from answers. -/
theorem Move.isLacp (hm : Move e c s) (hc : c ≠ .receipt)
    (hsent : Effect.transmit name frame ∈ s.2) : IsLacp frame := by
  cases hm with
  | shift => cases hsent
  | answer => exact absurd rfl hc
  | dissolve => cases List.mem_singleton.mp (mem_of_mem_emit hsent)
  | leave =>
    dsimp only at hsent
    split at hsent
    · cases List.mem_singleton.mp (mem_of_mem_emit hsent)
    · cases hsent
  | evaluate l => exact isLacp_of_evaluate hsent

theorem Course.isLacp (hcourse : e.Course Kind.IsDeaf s)
    (hsent : Effect.transmit name frame ∈ s.2) : IsLacp frame := by
  induction hcourse with
  | refl => cases hsent
  | step _ hc hm _ ih =>
    obtain hfirst | hrest := List.mem_append.mp hsent
    · exact hm.isLacp hc.1 hfirst
    · exact ih hrest

theorem isLacp_of_receiveLacp
    (hsent : Effect.transmit name frame ∈ (e.receiveLacp slot l i pdu).2) : IsLacp frame := by
  unfold receiveLacp at hsent
  split at hsent
  · cases hsent
  · dsimp only at hsent
    split at hsent
    · cases hsent
    · exact isLacp_of_evaluate hsent

/-- A marker is answered from the system of the LAG. -/
theorem answer_of_receiveMarker {marker : Marker}
    (hsent : Effect.transmit name frame ∈ (e.receiveMarker slot l i marker).2) :
    ∃ answer, frame =
      Frame.encodeMarker answer ((e.receiveMarker slot l i marker).1.markerSource l) := by
  revert hsent
  unfold receiveMarker
  dsimp only
  split
  · intro hsent
    obtain ⟨-, rfl⟩ := Effect.transmit.inj (List.mem_singleton.mp hsent)
    exact ⟨_, rfl⟩
  · exact nofun

/-- What is sent when a frame comes is a LACP message, or an answer from the system of the LAG. -/
theorem isLacp_or_answer_of_receiveFrame {interface : String} {received : Frame}
    (hsent : Effect.transmit name frame ∈ (e.receiveFrame interface received).effects) :
    IsLacp frame ∨ ∃ answer l, frame =
      Frame.encodeMarker answer ((e.receiveFrame interface received).engine.markerSource l) := by
  revert hsent
  unfold receiveFrame
  split
  · exact nofun
  · split
    · exact nofun
    · split
      · exact nofun
      · exact nofun
      · exact fun hsent => .inl (isLacp_of_receiveLacp hsent)
      · next l _ _ =>
        intro hsent
        obtain ⟨answer, hanswer⟩ := answer_of_receiveMarker hsent
        exact .inr ⟨answer, l, hanswer⟩

/-- What is sent in an action is a LACP message, or an answer from the system of a LAG. -/
theorem Coherent.isLacp_or_answer_of_act (h : e.Stable)
    (hsent : Effect.transmit name frame ∈ (e.act a).2) :
    IsLacp frame ∨ ∃ answer l, frame = Frame.encodeMarker answer ((e.act a).1.markerSource l) := by
  by_cases ha : ∀ interface received, a ≠ .event (.frame interface received)
  · obtain hdeaf | ⟨e', -, hs⟩ := h.deaf_act ha
    · exact .inl (hdeaf.isLacp hsent)
    · rw [hs] at hsent
      cases hsent
  · push Not at ha
    obtain ⟨interface, received, rfl⟩ := ha
    exact isLacp_or_answer_of_receiveFrame hsent

/-! ## What frames say -/

section
variable (hid : e.Identified)
include hid

theorem Identified.isMulticast_markerSource (l : Nat) :
    (e.markerSource l).isMulticast = false := by
  unfold markerSource
  split
  · next lag hl => exact SystemIdentity.isMulticast_resolve hid.system (hid.lags l lag hl).settings
  · exact hid.system

/-- What a member says presents it. -/
theorem Identified.presents (h : e.Linked) (hsends : e.Sends l name pdu) :
    pdu.actor.system.mac.isMulticast = false ∧ ∃ i l lag, e.interface? name = some i ∧
      i.lag = some l ∧ e.lags.get? l = some lag ∧ pdu.Presents e.system lag := by
  obtain ⟨lag, slot, i, hl, hslot, hi, rfl, -, rfl⟩ := hsends
  obtain ⟨j, hj, hlag⟩ := (h.members l lag hl slot).mp hslot
  obtain rfl : i = j := Option.some.inj (hi.symm.trans hj)
  have hvalid := hid.lags l lag hl
  have hmember := hid.interfaces slot i hi
  exact ⟨SystemIdentity.isMulticast_resolve hid.system hvalid.settings,
    i, l, lag, h.interface?_name hi, hlag, hl, rfl, rfl, hmember.key_ne_zero hvalid,
    hmember.portNumber_ne_zero⟩

end

/-- A valid engine vouches for what it sends. -/
theorem Coherent.vouches (h : e.Stable) (hid : e.Identified)
    (hsent : Effect.transmit name frame ∈ (e.act a).2) : (e.act a).1.Vouches name frame := by
  have hid' := hid.act a
  obtain ⟨pdu, rfl⟩ | ⟨answer, l, rfl⟩ := h.isLacp_or_answer_of_act hsent
  · have hdecode := Frame.decode_encodeLacp pdu pdu.actor.system.mac
    obtain ⟨l, hsends⟩ := (h.sincere_act a).sends name _ pdu hsent hdecode
    obtain ⟨hunicast, hpresents⟩ := hid'.presents (h.act a).linked hsends
    refine ⟨⟨_, hdecode⟩, ?_, fun pdu' hdecode' => ?_⟩
    · rw [Frame.source_encodeLacp]
      exact hunicast
    · obtain rfl : pdu = pdu' := Message.lacp.inj (Except.ok.inj (hdecode.symm.trans hdecode'))
      exact ⟨Frame.source_encodeLacp _ _, hpresents⟩
  · have hdecode := Frame.decode_encodeMarker answer ((e.act a).1.markerSource l)
    refine ⟨⟨_, hdecode⟩, ?_, fun pdu hdecode' => ?_⟩
    · rw [Frame.source_encodeMarker]
      exact hid'.isMulticast_markerSource l
    · cases hdecode.symm.trans hdecode'

/-- An engine that begins with the address of one system is always identified, whatever it is asked,
and vouches for every frame that it sends. An action evaluates after all that it changes, so that
the state after the action is that of the moment of sending. -/
theorem identified_reached {system : SystemIdentity} (h : system.mac.isMulticast = false)
    (maxMembers : Nat) (connected : Bool) (requests : List Request) :
    let begin := Engine.new system maxMembers connected
    (begin.run requests).1.Identified ∧
    ∀ past a future, begin.runActions requests = past ++ a :: future →
      let s := (begin.acts past).1.act a
      s.1.Identified ∧ ∀ name frame, .transmit name frame ∈ s.2 → s.1.Vouches name frame := by
  have hnew := identified_new h maxMembers connected
  have hstable := stable_new system maxMembers connected
  refine ⟨?_, fun past a future _ => ?_⟩
  · rw [← acts_runActions]
    exact hnew.acts _
  · have hpast := hnew.acts past
    exact ⟨hpast.act a, fun name frame => (hstable.acts past).vouches hpast⟩

/-- A LAG with an address of its own sends from it. -/
theorem identified_reached_announcing :
    let system : SystemIdentity := { mac := ⟨2, 0, 0, 0, 0, 1⟩ }
    let begin := Engine.new system 8 true
    let past : List Action := [
      .apply .lag ⟨"PortChannel1", .set, [("lacp_system_id", "02:00:00:00:00:02")]⟩,
      .apply .member ⟨"PortChannel1|Ethernet0", .set, []⟩]
    let port : Entry := ⟨"Ethernet0", .set, [("admin_status", "up"), ("oper_status", "up")]⟩
    let s := (begin.acts past).1.act (.apply .port port)
    system.mac.isMulticast = false ∧
    (Cable.sentFrames s.2).map (fun x => (x.interface, x.frame.source)) =
      [("Ethernet0", ⟨2, 0, 0, 0, 0, 2⟩)] ∧
    s.1.Identified ∧ ∀ name frame, .transmit name frame ∈ s.2 → s.1.Vouches name frame := by
  intro system begin past port s
  have hsystem : system.mac.isMulticast = false := by decide
  let requests : List Request := [
    .apply .lag ⟨"PortChannel1", .set, [("lacp_system_id", "02:00:00:00:00:02")]⟩,
    .apply .member ⟨"PortChannel1|Ethernet0", .set, []⟩, .apply .port port]
  exact ⟨hsystem, by decide +kernel,
    (identified_reached hsystem 8 true requests).2 past (.apply .port port) [] rfl⟩

end Engine
end LinkAggregation
