import LinkAggregation.Proofs.Engine.Apart

/-!
# What is counted on an interface

Every LACP message and every marker response that leaves is counted on the interface that sends it.
Nothing is counted among the frames but by the move that is for this, and no counter ever goes back.
-/
namespace LinkAggregation

/-! ## Counters -/

/-- As what a frame is counted. -/
inductive Receipt where
  | malformed
  | dropped
  | message
  | marker
  deriving DecidableEq, Repr

namespace Receipt

/-- The counter for such frames. -/
def counter : Receipt → Counters → Nat
  | malformed => Counters.errors
  | dropped => Counters.dropped
  | message => Counters.received
  | marker => Counters.markersReceived

/-- One more such frame. -/
def raise : Receipt → Counters → Counters
  | malformed, c => { c with errors := c.errors + 1 }
  | dropped, c => { c with dropped := c.dropped + 1 }
  | message, c => { c with received := c.received + 1 }
  | marker, c => { c with markersReceived := c.markersReceived + 1 }

/-- One counter goes up, and the others stay. -/
theorem counter_raise (r s : Receipt) (c : Counters) :
    s.counter (r.raise c) = s.counter c + if s = r then 1 else 0 := by
  cases r <;> cases s <;> rfl

end Receipt

/-- So many frames, and LACP messages and marker responses that were sent. -/
@[ext] structure Tally where
  frames : Nat := 0
  sent : Nat := 0
  answers : Nat := 0
  deriving DecidableEq, Repr

instance : Add Tally :=
  ⟨fun t u => ⟨t.frames + u.frames, t.sent + u.sent, t.answers + u.answers⟩⟩

protected theorem Tally.add_assoc (t u v : Tally) : t + u + v = t + (u + v) :=
  Tally.ext (Nat.add_assoc _ _ _) (Nat.add_assoc _ _ _) (Nat.add_assoc _ _ _)

namespace Counters

/-- All that was counted, of whatever kind the frames were. -/
def tally (c : Counters) : Tally where
  frames := c.errors + c.dropped + c.received + c.markersReceived
  sent := c.sent
  answers := c.markerResponsesSent

/-- One more marker response that was sent. -/
def answered (c : Counters) : Counters :=
  { c with markerResponsesSent := c.markerResponsesSent + 1 }

/-- No counter is above the other one. -/
structure AtMost (a b : Counters) : Prop where
  sent : a.sent ≤ b.sent
  received : a.received ≤ b.received
  markersReceived : a.markersReceived ≤ b.markersReceived
  markerResponsesSent : a.markerResponsesSent ≤ b.markerResponsesSent
  errors : a.errors ≤ b.errors
  dropped : a.dropped ≤ b.dropped
  actorChurn : a.actorChurn ≤ b.actorChurn
  partnerChurn : a.partnerChurn ≤ b.partnerChurn

end Counters

/-- So much was counted from one state of the counters to another, and no counter went back. -/
structure Counted (before after : Counters) (more : Tally) : Prop where
  grows : before.AtMost after
  tally : after.tally = before.tally + more

namespace Counted
variable {a b c : Counters} {t u : Tally}

theorem refl (a : Counters) : Counted a a {} := by
  refine ⟨?_, rfl⟩
  constructor <;> exact Nat.le_refl _

theorem of_eq (h : b = a) : Counted a b {} := h ▸ refl a

theorem trans (h : Counted a b t) (h' : Counted b c u) : Counted a c (t + u) where
  grows := by
    obtain ⟨h1, h2, h3, h4, h5, h6, h7, h8⟩ := h.grows
    obtain ⟨h1', h2', h3', h4', h5', h6', h7', h8'⟩ := h'.grows
    constructor <;> omega
  tally := by rw [h'.tally, h.tally, Tally.add_assoc]

theorem raise (r : Receipt) (c : Counters) : Counted c (r.raise c) { frames := 1 } := by
  have hframes : (r.raise c).tally.frames = c.tally.frames + 1 := by
    cases r <;> simp only [Receipt.raise, Counters.tally] <;> omega
  refine ⟨?_, Tally.ext hframes ?_ ?_⟩
  · cases r <;> constructor <;> simp [Receipt.raise]
  · cases r <;> rfl
  · cases r <;> rfl

theorem answered (c : Counters) : Counted c c.answered { answers := 1 } := by
  refine ⟨?_, rfl⟩
  constructor <;> simp [Counters.answered]

/-- If no frame was counted, all counters of frames are as they were. -/
theorem counter_eq (h : Counted a b t) (ht : t.frames = 0) (r : Receipt) :
    r.counter b = r.counter a := by
  obtain ⟨-, hreceived, hmarkers, -, herrors, hdropped, -, -⟩ := h.grows
  have hframes : b.errors + b.dropped + b.received + b.markersReceived =
      a.errors + a.dropped + a.received + a.markersReceived + t.frames :=
    congrArg Tally.frames h.tally
  cases r <;> simp only [Receipt.counter] <;> omega

end Counted

/-! ## Marker responses -/

/-- The marker response in a frame, if it holds one. -/
def Frame.answer? (frame : Frame) : Option Marker :=
  match frame.decode with
  | .ok (.marker marker) => if marker.kind = .response then some marker else none
  | _ => none

/-- The marker response that is sent, and the interface that sends it. -/
def Effect.answer? : Effect → Option (String × Marker)
  | .transmit interface frame => frame.answer?.map fun marker => (interface, marker)
  | _ => none

/-- The marker responses that are sent. -/
def answers (effects : List Effect) : List (String × Marker) := effects.filterMap Effect.answer?

/-- How many marker responses are sent on an interface. -/
def answersOn (name : String) (effects : List Effect) : Nat :=
  (answers effects).countP (·.1 = name)

section
variable {name : String} {effects more : List Effect}

@[simp] theorem answersOn_append :
    answersOn name (effects ++ more) = answersOn name effects + answersOn name more := by
  simp [answersOn, answers]

theorem answers_eq_nil (h : ∀ x ∈ effects, x.answer? = none) : answers effects = [] :=
  List.filterMap_eq_nil_iff.mpr h

theorem answersOn_eq_zero (h : ∀ x ∈ effects, x.answer? = none) : answersOn name effects = 0 := by
  rw [answersOn, answers_eq_nil h]
  rfl

theorem Frame.answer?_encodeLacp (pdu : Lacpdu) (source : MacAddress) :
    (Frame.encodeLacp pdu source).answer? = none := by
  rw [Frame.answer?, Frame.decode_encodeLacp]

theorem Frame.answer?_encodeMarker (marker : Marker) (source : MacAddress) :
    (Frame.encodeMarker marker.response source).answer? = some marker.response := by
  rw [Frame.answer?, Frame.decode_encodeMarker]
  rfl

end

/-! ## Evaluation -/

namespace Evaluation
variable {ev : Evaluation} {selection : Selection} {i : Interface}

/-- A message that is sent is counted. -/
theorem counters_transmitIfDue {slot : Nat} {t : Timers} :
    (ev.transmitIfDue slot i t).1.counters =
      { i.counters with
        sent := i.counters.sent + sentOn i.name (ev.transmitIfDue slot i t).2.2 } := by
  unfold transmitIfDue transmit
  split
  · rfl
  · split
    · dsimp only
      split
      · split
        · simp
        · rfl
      · rfl
    · rfl

theorem counters_result (selection : Selection) (i : Interface) :
    (ev.result selection i).counters =
      { i.counters with sent := i.counters.sent + sentOn i.name (ev.effects selection i) } := by
  have hmachines : (ev.runMachines 0 selection i {}).1 =
      { i with protocol := ev.machined selection i } := runMachines_fst
  have hsilent : ∀ j : Interface, sentOn i.name (ev.publish j).2 = 0 := fun j =>
    sentOn_eq_zero fun x hx => publish_lacpOn? hx
  rw [effects, member, result_eq 0 (ev.runMachines 0 selection i {}).2, publish_fst]
  simp only [hmachines, sentOn_append, hsilent, Nat.add_zero]
  exact counters_transmitIfDue (i := { i with protocol := ev.machined selection i })

/-- No member answers a marker in its evaluation. -/
theorem answer?_of_mem_effects {x : Effect} (h : x ∈ ev.effects selection i) :
    x.answer? = none := by
  cases x with
  | transmit name frame =>
    obtain ⟨-, -, rfl⟩ := transmit_of_mem_effects h
    simp [Effect.answer?, Frame.answer?_encodeLacp]
  | _ => rfl

end Evaluation

namespace Engine
variable {e e' : Engine} {c : Kind} {s s' : Step} {l slot : Nat} {lag : Lag} {i : Interface}
  {name : String} {frames frames' : Nat} {allowed : Kind → Prop}

/-! ## Moves -/

/-- The counters of an interface. Of one that is not known nothing was counted. -/
def countersOn (e : Engine) (name : String) : Counters :=
  ((e.interface? name).map (·.counters)).getD {}

/-- All that is sent on the interface is counted, and so many frames. -/
def Counts (e : Engine) (s : Step) (name : String) (frames : Nat) : Prop :=
  Counted (e.countersOn name) (s.1.countersOn name)
    ⟨frames, sentOn name s.2, answersOn name s.2⟩

theorem Counts.refl (e : Engine) (name : String) : e.Counts (e, []) name 0 := Counted.refl _

theorem Counts.trans (h : e.Counts s name frames) (h' : s.1.Counts s' name frames') :
    e.Counts (s'.1, s.2 ++ s'.2) name (frames + frames') := by
  unfold Counts
  rw [sentOn_append, answersOn_append]
  exact Counted.trans h h'

/-- Nothing is sent. -/
theorem Counts.of_quiet (h : Counted (e.countersOn name) (s.1.countersOn name) { frames })
    (hsent : ∀ x ∈ s.2, x.lacpOn? name = none) (hanswers : ∀ x ∈ s.2, x.answer? = none) :
    e.Counts s name frames := by
  unfold Counts
  rw [sentOn_eq_zero hsent, answersOn_eq_zero hanswers]
  exact h

/-- A beginning without effects. -/
theorem Counts.of_silent (h : Counted (e.countersOn name) (e'.countersOn name) { frames }) :
    e.Counts (e', []) name frames :=
  .of_quiet h (fun _ hx => absurd hx List.not_mem_nil) fun _ hx => absurd hx List.not_mem_nil

/-- A move that counts no frame and forgets no interface. -/
def Kind.IsDeaf (c : Kind) : Prop := c ≠ .receipt ∧ c ≠ .oblivion

theorem counted_churnDetected (i : Interface) (side : Churn.Side) :
    Counted i.counters (i.churnDetected side).counters {} := by
  cases side <;> exact ⟨by constructor <;> simp [Interface.churnDetected], rfl⟩

/-- A timer counts churn at most. -/
theorem counted_timerFired (i : Interface) (key : TimerKey) (t : Timers) (now : Nat) :
    Counted i.counters (i.timerFired key t now).1.counters {} := by
  unfold Interface.timerFired
  cases key with
  | periodic => dsimp only; split <;> exact .refl _
  | actorChurn => exact counted_churnDetected i .actor
  | partnerChurn => exact counted_churnDetected i .partner
  | _ => exact .refl _

theorem Adjust.counted {i' : Interface} (ha : e.Adjust c slot i i') (hc : c ≠ .receipt) :
    Counted i.counters i'.counters {} := by
  cases ha with
  | idle => exact .refl _
  | count _ hreceipt => exact absurd hreceipt hc
  | report => exact .refl _
  | tell => exact .of_eq (tell_keeps Interface.counters (fun _ _ => rfl) i)
  | turn _ _ ht =>
    cases ht with
    | timer key => exact counted_timerFired i key _ _
    | _ => exact .refl _
  | revise t _ _ hr => exact .of_eq (hr.keeps Interface.counters (fun _ _ => rfl) i slot t)
  | join => exact .refl _

/-- A shift counts no frame, unless it is for this. -/
theorem Shift.counts (hs : Shift e c e') (h : e.Linked) (hc : c ≠ .receipt)
    (hknown : c = .oblivion → e'.interface? name ≠ none) : e.Counts (e', []) name 0 := by
  refine .of_silent ((hs.named h name).related (r := (Counted · · {})) (.refl _) ?_ ?_ ?_)
  · rintro i ⟨slot, rfl⟩
    exact .refl _
  · rintro i ⟨hoblivion, hunknown⟩
    exact absurd (by simp [interface?, Arena.lookup?, hunknown]) (hknown hoblivion)
  · rintro i i' ⟨slot, hadjust⟩
    exact hadjust.counted hc

theorem answer?_of_mem_evaluate {x : Effect} (hx : x ∈ (e.evaluate l).2) : x.answer? = none := by
  cases hl : e.lags.get? l with
  | none =>
    rw [evaluate_of_not_live hl] at hx
    cases hx
  | some lag =>
    rw [evaluate_eq hl, List.mem_append] at hx
    obtain hx | hx := hx
    · obtain ⟨m, -, hx⟩ := List.mem_flatMap.mp hx
      exact Evaluation.answer?_of_mem_effects hx
    · split at hx
      · cases hx
      · rw [List.mem_singleton.mp (mem_of_mem_emit hx)]
        rfl

/-- Whoever sends in an evaluation counts it. -/
theorem Linked.counts_evaluate (h : e.Linked) (l : Nat) (name : String) :
    e.Counts (e.evaluate l) name 0 := by
  unfold Counts
  rw [answersOn_eq_zero fun _ => answer?_of_mem_evaluate]
  obtain ⟨hstays, hsent⟩ | ⟨lag, slot, i, -, hi, rfl, hafter, hsent⟩ := h.interface?_evaluate l name
  · rw [countersOn, countersOn, hstays, hsent]
    exact .refl _
  · have hregrant : (e.regrant l lag slot i).counters = i.counters :=
      Interface.withGrant_keeps Interface.counters (fun _ _ _ => rfl) i _
    have hsame : (e.regrant l lag slot i).name = i.name := Interface.withGrant_name _ _
    have hcounters := (e.evaluation lag).counters_result (e.decision l lag slot)
      (e.regrant l lag slot i)
    rw [hregrant, hsame] at hcounters
    rw [countersOn, countersOn, hi, hafter, hsent, Option.map_some, Option.map_some,
      Option.getD_some, Option.getD_some, show (e.after l lag slot i).counters = _ from hcounters]
    refine ⟨?_, rfl⟩
    constructor <;> simp

/-- No move answers a marker but the one that is for this. -/
theorem Move.unanswered (hm : Move e c s) (hc : c ≠ .receipt) : ∀ x ∈ s.2, x.answer? = none := by
  intro x hx
  cases hm with
  | shift hs => cases hx
  | answer => exact absurd rfl hc
  | dissolve =>
    rw [List.mem_singleton.mp (mem_of_mem_emit hx)]
    rfl
  | leave =>
    dsimp only at hx
    split at hx
    · rw [List.mem_singleton.mp (mem_of_mem_emit hx)]
      rfl
    · cases hx
  | evaluate l => exact answer?_of_mem_evaluate hx

/-- A move counts all that it sends. -/
theorem Move.counts (hm : Move e c s) (h : e.Linked) (hc : c.IsDeaf) (name : String) :
    e.Counts s name 0 := by
  have hunanswered := hm.unanswered hc.1
  cases hm with
  | shift hs => exact hs.counts h hc.1 fun hoblivion => absurd hoblivion hc.2
  | answer => exact absurd rfl hc.1
  | dissolve =>
    refine .of_quiet (.refl _) (fun x hx => ?_) hunanswered
    rw [List.mem_singleton.mp (mem_of_mem_emit hx)]
    rfl
  | @leave l slot i hi hlag =>
    have hfate : Fate (fun _ => False) (fun _ => False)
        (fun i i' => Counted i.counters i'.counters {}) (e.interface? name)
        ((e.exchange l slot (·.removeMember slot) (e.freed slot i)).interface? name) :=
      h.fate_of_put hi (fun _ => .refl _) (.of_eq rfl) rfl fun _ => get?_exchange _
    refine .of_quiet (hfate.related (r := (Counted · · {})) (.refl _) (fun _ => False.elim)
      (fun _ => False.elim) fun _ _ => id) (fun x hx => ?_) hunanswered
    dsimp only at hx
    split at hx
    · rw [List.mem_singleton.mp (mem_of_mem_emit hx)]
      rfl
    · cases hx
  | evaluate l => exact h.counts_evaluate l name

theorem Operation.isDeaf (hop : e.Operation allowed s) (hallowed : ∀ c, allowed c → c.IsDeaf) :
    e.Course Kind.IsDeaf s := by
  refine hop.course.mono fun c hc => ?_
  obtain hc | rfl := hc
  · exact hallowed c hc
  · exact ⟨nofun, nofun⟩

theorem Course.counts (hcourse : e.Course Kind.IsDeaf s) (name : String) : e.Counts s name 0 := by
  induction hcourse with
  | refl e => exact .refl e name
  | step h hc hm _ ih => exact (hm.counts h hc name).trans ih

theorem Course.unanswered (hcourse : e.Course Kind.IsDeaf s) : ∀ x ∈ s.2, x.answer? = none := by
  induction hcourse with
  | refl e => exact fun _ hx => absurd hx List.not_mem_nil
  | step h hc hm _ ih =>
    intro x hx
    obtain hx | hx := List.mem_append.mp hx
    · exact hm.unanswered hc.1 x hx
    · exact ih x hx

end Engine
end LinkAggregation
