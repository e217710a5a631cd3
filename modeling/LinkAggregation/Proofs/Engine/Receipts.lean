import LinkAggregation.Proofs.Engine.Accounts

/-!
# Frames are accounted for

A frame that comes to an interface is counted there once, whatever it is. After that a message is
heard, a marker that asks is answered, and nothing comes of anything else. No other action counts a
frame or answers a marker.
-/
namespace LinkAggregation

/-! ## What a frame is for an interface -/

namespace Interface
variable {i : Interface} {frame : Frame} {marker : Marker}

/-- As what an interface counts a frame. -/
def receipt (i : Interface) (frame : Frame) : Receipt :=
  match frame.decode, i.lag with
  | .error _, _ => .malformed
  | .ok _, none => .dropped
  | .ok (.lacp _), some _ =>
    if i.isEnabled && i.protocol.receive.isRunning then .message else .dropped
  | .ok (.marker _), some _ => .marker

/-- The frame holds a marker that the interface has to answer. -/
structure Asked (i : Interface) (frame : Frame) (marker : Marker) : Prop where
  member : i.lag.isSome = true
  enabled : i.isEnabled = true
  frame : frame.decode = .ok (.marker marker)
  kind : marker.kind = .information

theorem Asked.receipt (h : i.Asked frame marker) : i.receipt frame = .marker := by
  obtain ⟨l, hlag⟩ := Option.isSome_iff_exists.mp h.member
  rw [Interface.receipt, h.frame, hlag]

theorem Asked.unique {marker' : Marker} (h : i.Asked frame marker) (h' : i.Asked frame marker') :
    marker = marker' :=
  Message.marker.inj (Except.ok.inj (h.frame.symm.trans h'.frame))

end Interface

namespace Engine
variable {e : Engine} {s : Step} {slot : Nat} {i : Interface} {name : String}

/-! ## Received frames -/

/-- How a received frame is handled. It is counted first, and then it is heard or answered, or
nothing happens. -/
inductive Handled (e : Engine) (slot : Nat) (i : Interface) (frame : Frame) : Receipt → Step → Prop
  | discarded {r : Receipt} (hr : r = .malformed ∨ r = .dropped) :
      Handled e slot i frame r (e.count slot r.raise, [])
  | heard {s : Step}
      (hop : (e.count slot Receipt.message.raise).Operation (· = .message) s) :
      Handled e slot i frame .message s
  | asked {marker : Marker} (source : MacAddress) (h : i.Asked frame marker) :
      Handled e slot i frame .marker
        ((e.count slot Receipt.marker.raise).count slot Counters.answered,
          [.transmit i.name (Frame.encodeMarker marker.response source)])
  | marked (h : e.connected = true → ∀ marker, ¬ i.Asked frame marker) :
      Handled e slot i frame .marker (e.count slot Receipt.marker.raise, [])

section
variable {frame : Frame} {r : Receipt}

/-- A message is heard where the receive machine runs. -/
theorem Coherent.handled_receiveLacp {l : Nat} {pdu : Lacpdu} (h : e.Stable)
    (hfind : e.interfaces.find? name = some slot) (hi : e.interfaces.get? slot = some i)
    (hlag : i.lag = some l) (hstable : (e.receiveLacp slot l i pdu).1.Stable) :
    e.Handled slot i frame
      (if i.isEnabled && i.protocol.receive.isRunning then .message else .dropped)
      (e.receiveLacp slot l i pdu) := by
  cases hrunning : i.isEnabled && i.protocol.receive.isRunning with
  | false =>
    unfold Engine.receiveLacp
    rw [hrunning]
    exact .discarded (.inr rfl)
  | true =>
    obtain ⟨lag, hl, -⟩ := h.lag_of_member hi hlag
    obtain ⟨i', r, hlistens, heq⟩ := h.receiveLacp_listens hfind hi hlag hl hrunning pdu
    rw [heq] at hstable ⊢
    exact .heard ((h.count slot _).operation_evaluate rfl hlistens.shift hstable)

/-- A marker is answered if it asks an enabled member. -/
theorem handled_receiveMarker {l : Nat} {marker : Marker} (hlag : i.lag = some l)
    (hframe : frame.decode = .ok (.marker marker)) :
    e.Handled slot i frame .marker (e.receiveMarker slot l i marker) := by
  unfold Engine.receiveMarker
  dsimp only
  split
  · next hasked =>
    simp only [Bool.and_eq_true, decide_eq_true_eq] at hasked
    exact .asked _ ⟨by rw [hlag]; rfl, hasked.1.2, hframe, hasked.1.1⟩
  · next hnot =>
    refine .marked fun hconnected marker' hasked => hnot ?_
    obtain rfl : marker = marker' :=
      Message.marker.inj (Except.ok.inj (hframe.symm.trans hasked.frame))
    have hconnected' : (e.count slot fun c =>
        { c with markersReceived := c.markersReceived + 1 }).connected = true := hconnected
    simp [hasked.kind, hasked.enabled, hconnected']

/-- A frame on a known interface is accepted. -/
theorem Coherent.handled_receiveFrame (h : e.Stable) (hfind : e.interfaces.find? name = some slot)
    (hi : e.interfaces.get? slot = some i) (frame : Frame) :
    ∃ s, e.receiveFrame name frame = .ok s ∧ e.Handled slot i frame (i.receipt frame) s := by
  have hstable : (e.receiveFrame name frame).step.1.Stable := h.receiveFrame name frame
  revert hstable
  unfold Engine.receiveFrame Interface.receipt
  simp only [hfind, hi]
  cases hframe : frame.decode with
  | error _ => exact fun _ => ⟨_, rfl, .discarded (.inl rfl)⟩
  | ok message =>
    cases hlag : i.lag with
    | none => exact fun _ => ⟨_, rfl, .discarded (.inr rfl)⟩
    | some l =>
      cases message with
      | lacp pdu => exact fun hstable => ⟨_, rfl, h.handled_receiveLacp hfind hi hlag hstable⟩
      | marker marker => exact fun _ => ⟨_, rfl, handled_receiveMarker hlag hframe⟩

/-- Counting in a slot concerns the interface there. -/
theorem Linked.countersOn_count (h : e.Linked) (hfind : e.interfaces.find? name = some slot)
    (f : Counters → Counters) (name' : String) :
    (e.count slot f).countersOn name' =
      if name' = name then f (e.countersOn name') else e.countersOn name' := by
  obtain ⟨i, hi, rfl⟩ := h.interfaces.get?_of_find? hfind
  have hfind' : (e.count slot f).interfaces.find? name' = e.interfaces.find? name' := rfl
  simp only [countersOn, interface?, Arena.lookup?, hfind']
  by_cases hname : name' = i.name
  · subst hname
    simp [hfind, hi, get?_count, recount]
  · rw [if_neg hname]
    cases hslot' : e.interfaces.find? name' with
    | none => rfl
    | some slot' =>
      obtain ⟨j, hj, rfl⟩ := h.interfaces.get?_of_find? hslot'
      have hne : slot ≠ slot' := by
        rintro rfl
        exact hname (congrArg Interface.name (Option.some.inj (hj.symm.trans hi)))
      simp [hj, get?_count, recount, hne]

/-- After a frame is counted, nothing is done with it that is not counted. -/
theorem Handled.counts_rest (hs : e.Handled slot i frame r s) (h : e.Stable)
    (hfind : e.interfaces.find? name = some slot) (hi : e.interfaces.get? slot = some i)
    (name' : String) : (e.count slot r.raise).Counts s name' 0 := by
  cases hs with
  | discarded => exact .refl _ name'
  | heard hop =>
    refine (hop.isDeaf fun c hc => ?_).counts name'
    subst hc
    exact ⟨nofun, nofun⟩
  | @asked marker source =>
    obtain rfl : i.name = name := h.interfaces.name_of_find? hfind hi
    have hsent : sentOn name' [.transmit i.name (Frame.encodeMarker marker.response source)] = 0 :=
      sentOn_eq_zero fun x hx => by
        rw [List.mem_singleton.mp hx, Effect.lacpOn?, Frame.lacp?_encodeMarker, ite_self]
    have hanswers : answersOn name' [.transmit i.name (Frame.encodeMarker marker.response source)]
        = if name' = i.name then 1 else 0 := by
      simp [answersOn, answers, Effect.answer?, Frame.answer?_encodeMarker, List.countP_cons,
        eq_comm]
    have hfind' : (e.count slot Receipt.marker.raise).interfaces.find? i.name = some slot := hfind
    unfold Counts
    rw [hsent, hanswers, (h.count slot Receipt.marker.raise).linked.countersOn_count hfind']
    split
    · exact .answered _
    · exact .refl _
  | marked => exact .refl _ name'

/-- A received frame is counted once, on the interface to which it came. -/
theorem Handled.counts (hs : e.Handled slot i frame r s) (h : e.Stable)
    (hfind : e.interfaces.find? name = some slot) (hi : e.interfaces.get? slot = some i)
    (name' : String) : e.Counts s name' (if name' = name then 1 else 0) := by
  have hcounted : e.Counts (e.count slot r.raise, []) name' (if name' = name then 1 else 0) := by
    refine .of_silent ?_
    rw [h.linked.countersOn_count hfind]
    split
    · exact .raise r _
    · exact .refl _
  exact hcounted.trans (hs.counts_rest h hfind hi name')

/-- One of the counters of frames goes up by one, and the others stay. -/
theorem Handled.counter (hs : e.Handled slot i frame r s) (h : e.Stable)
    (hfind : e.interfaces.find? name = some slot) (hi : e.interfaces.get? slot = some i)
    (r' : Receipt) : r'.counter (s.1.countersOn name) =
      r'.counter (e.countersOn name) + if r' = r then 1 else 0 := by
  rw [(hs.counts_rest h hfind hi name).counter_eq rfl, h.linked.countersOn_count hfind, if_pos rfl,
    Receipt.counter_raise]

/-- A marker that asks is answered once. -/
theorem Handled.answered {marker : Marker} (hs : e.Handled slot i frame (i.receipt frame) s)
    (hconnected : e.connected = true) (hasked : i.Asked frame marker) :
    answers s.2 = [(i.name, marker.response)] := by
  rw [hasked.receipt] at hs
  cases hs with
  | discarded hr => exact absurd hr (by simp)
  | @asked marker' source hasked' =>
    rw [hasked.unique hasked']
    simp [answers, Effect.answer?, Frame.answer?_encodeMarker]
  | marked hno => exact absurd hasked (hno hconnected marker)

/-- If a frame is no message and nothing is asked, nobody gets to know of it. -/
theorem Handled.silent (hs : e.Handled slot i frame r s) (hr : r ≠ .message)
    (hno : ∀ marker, ¬ i.Asked frame marker) : s.2 = [] := by
  cases hs with
  | heard => exact absurd rfl hr
  | asked source hasked => exact absurd hasked (hno _)
  | _ => rfl

/-- Nothing is answered if nothing is asked. -/
theorem Handled.unanswered (hs : e.Handled slot i frame r s)
    (hno : ∀ marker, ¬ i.Asked frame marker) : answers s.2 = [] := by
  by_cases hr : r = .message
  · subst hr
    cases hs with
    | discarded hr => exact absurd hr (by simp)
    | heard hop =>
      have hdeaf : Course Kind.IsDeaf (e.count slot Receipt.message.raise) s :=
        hop.isDeaf (by rintro _ rfl; exact ⟨nofun, nofun⟩)
      exact answers_eq_nil hdeaf.unanswered
  · rw [hs.silent hr hno]
    rfl

/-- What comes of a frame on an interface. -/
structure Accounted (e : Engine) (name : String) (i : Interface) (frame : Frame) (o : Outcome) :
    Prop where
  succeeds : o.error = none
  /-- One of the counters of frames goes up by one, and the others stay. -/
  counted : ∃ i', o.engine.interface? name = some i' ∧ ∀ r : Receipt,
    r.counter i'.counters = r.counter i.counters + if r = i.receipt frame then 1 else 0
  /-- A frame that is malformed or dropped changes nothing else, and nobody gets to know of it. -/
  discarded : i.receipt frame = .malformed ∨ i.receipt frame = .dropped →
    ∃ slot, e.interfaces.find? name = some slot ∧
      o = .ok (e.count slot (i.receipt frame).raise, [])
  /-- A marker that asks is answered once, with what it holds. -/
  answered : ∀ marker, i.Asked frame marker →
    answers o.effects = [(name, { marker with kind := .response })]
  /-- Nothing else is answered. -/
  unanswered : (∀ marker, ¬ i.Asked frame marker) → answers o.effects = []
  /-- Nobody gets to know of a marker response. -/
  silent : ∀ marker, frame.decode = .ok (.marker marker) → marker.kind = .response →
    o.effects = []

theorem Coherent.accounted (h : e.Stable) (hconnected : e.connected = true)
    (hknown : e.interface? name = some i) (frame : Frame) :
    e.Accounted name i frame (e.receiveFrame name frame) := by
  obtain ⟨slot, hfind, hi⟩ := Option.bind_eq_some_iff.mp hknown
  obtain ⟨s, ho, hs⟩ := h.handled_receiveFrame hfind hi frame
  have hname : i.name = name := h.interfaces.name_of_find? hfind hi
  rw [ho]
  refine ⟨rfl, ?_, fun hr => ⟨slot, hfind, ?_⟩, fun marker hasked => ?_, hs.unanswered,
    fun marker hframe hkind => ?_⟩
  · have hcounter := hs.counter h hfind hi
    have hbefore : e.countersOn name = i.counters := by simp [countersOn, hknown]
    rw [hbefore] at hcounter
    cases hafter : s.1.interface? name with
    | none =>
      -- Something was counted on the interface, so it is still known.
      have hone := hcounter (i.receipt frame)
      have hnone : s.1.countersOn name = {} := by simp [countersOn, hafter]
      have hzero : (i.receipt frame).counter {} = 0 := by cases i.receipt frame <;> rfl
      rw [hnone, hzero, if_pos rfl] at hone
      omega
    | some i' =>
      have hcounters : s.1.countersOn name = i'.counters := by simp [countersOn, hafter]
      exact ⟨i', hafter, hcounters ▸ hcounter⟩
  · generalize i.receipt frame = r at hr hs
    cases hs with
    | discarded => rfl
    | _ => exact absurd hr (by simp)
  · rw [← hname]
    exact hs.answered hconnected hasked
  · have hno : ∀ marker', ¬ i.Asked frame marker' := by
      intro marker' hasked
      obtain rfl : marker' = marker :=
        Message.marker.inj (Except.ok.inj (hasked.frame.symm.trans hframe))
      cases hkind.symm.trans hasked.kind
    refine hs.silent (fun hr => ?_) hno
    rw [Interface.receipt, hframe] at hr
    cases hlag : i.lag <;> simp [hlag] at hr

end

/-! ## Actions -/

/-- How many frames an action brings to an interface. -/
def framesOn (name : String) : Action → Nat
  | .event (.frame interface _) => if name = interface then 1 else 0
  | _ => 0

section
variable (h : e.Stable)
include h

/-- An action that brings no frame counts none, and forgets nothing if it does anything else. -/
theorem Coherent.deaf_act {a : Action} (ha : ∀ name frame, a ≠ .event (.frame name frame)) :
    e.Course Kind.IsDeaf (e.act a) ∨ e.Forgets (e.act a) := by
  obtain hclearing | hforgets | ⟨name, fields, hset⟩ | ⟨name, frame, rfl⟩ | ⟨time, rfl⟩ :=
    h.act_cases a
  · refine .inl (hclearing.isDeaf fun c hc => ?_)
    obtain rfl | rfl := hc <;> exact ⟨nofun, nofun⟩
  · exact .inr hforgets
  · rw [hset]
    refine .inl ((h.operation_lagSet name fields).isDeaf fun c hc => ?_)
    obtain rfl | rfl | rfl := hc <;> exact ⟨nofun, nofun⟩
  · exact absurd rfl (ha name frame)
  · refine .inl ((h.operation_advanceTo time).isDeaf fun c hc => ?_)
    obtain rfl | rfl := hc <;> exact ⟨nofun, nofun⟩

/-- Markers are answered only when a frame comes. -/
theorem Coherent.unanswered_act {a : Action} (ha : ∀ name frame, a ≠ .event (.frame name frame)) :
    answers (e.act a).2 = [] := by
  obtain hdeaf | ⟨e', -, hs⟩ := h.deaf_act ha
  · exact answers_eq_nil hdeaf.unanswered
  · rw [hs]
    rfl

/-- An interface that is known after an action has counted all that the action brought to it and
sent on it. -/
theorem Coherent.counts_act (a : Action) (hknown : (e.act a).1.interface? name ≠ none) :
    e.Counts (e.act a) name (framesOn name a) := by
  by_cases ha : ∀ name frame, a ≠ .event (.frame name frame)
  · have hnone : framesOn name a = 0 := by
      unfold framesOn
      split
      · exact absurd rfl (ha _ _)
      · rfl
    rw [hnone]
    obtain hdeaf | ⟨e', hforget, hs⟩ := h.deaf_act ha
    · exact hdeaf.counts name
    · rw [hs] at hknown ⊢
      exact hforget.counts h.linked nofun fun _ => hknown
  · simp only [not_forall, not_not] at ha
    obtain ⟨interface, frame, rfl⟩ := ha
    cases hfind : e.interfaces.find? interface with
    | none =>
      have hfailed : e.act (.event (.frame interface frame)) = (e, []) := by
        simp only [Engine.act, Engine.applyEvent, Engine.receiveFrame, hfind]
        rfl
      rw [hfailed] at hknown ⊢
      have hne : name ≠ interface := by
        rintro rfl
        simp [interface?, Arena.lookup?, hfind] at hknown
      rw [framesOn, if_neg hne]
      exact .refl e name
    | some slot =>
      obtain ⟨i, hi, -⟩ := h.interfaces.get?_of_find? hfind
      obtain ⟨s, ho, hs⟩ := h.handled_receiveFrame hfind hi frame
      have hact : e.act (.event (.frame interface frame)) = s := congrArg Outcome.step ho
      rw [hact]
      exact hs.counts h hfind hi name

end

end Engine
end LinkAggregation
