import LinkAggregation.Proofs.Engine.Progress
import LinkAggregation.Proofs.Engine.Receipts

/-!
# How often churn is detected

Churn is counted where its timer fires and nowhere else. Every timer that is due fires once when the
clock is set, so an action counts one detection for a side whose deadline it passes, and none for
the other sides.
-/
namespace LinkAggregation

/-- The counter of the detections on a side. -/
def Churn.Side.counter : Churn.Side → Counters → Nat
  | actor => Counters.actorChurn
  | partner => Counters.partnerChurn

/-- All detections. -/
def Counters.detections (c : Counters) (side : Churn.Side) : Nat := side.counter c

namespace Engine
variable {e e' : Engine} {c : Kind} {s : Step} {l slot : Nat} {i i' : Interface} {name : String}
  {key : TimerKey} {keys : List TimerKey}

/-- The detections on an interface. -/
def detections (e : Engine) (name : String) : Churn.Side → Nat := (e.countersOn name).detections

theorem detections_eq (hi : e.interface? name = some i) (side : Churn.Side) :
    e.detections name side = side.counter i.counters := by
  rw [detections, countersOn, hi]
  rfl

/-! ## Nothing else detects churn -/

/-- A move with which nothing is received and forgotten, and no time passes. -/
def Kind.IsStill (c : Kind) : Prop := c.IsDeaf ∧ c ≠ .time ∧ c ≠ .timer

theorem Kind.isStill_of_evaluation (hc : c = .evaluation) : c.IsStill := by
  subst hc
  exact ⟨⟨nofun, nofun⟩, nofun, nofun⟩

theorem Adjust.detections (ha : e.Adjust c slot i i') (hreceipt : c ≠ .receipt)
    (htimer : c ≠ .timer) : i'.counters.detections = i.counters.detections := by
  cases ha with
  | idle => rfl
  | count _ hc => exact absurd hc hreceipt
  | report => rfl
  | tell => exact congrArg Counters.detections (tell_keeps Interface.counters (fun _ _ => rfl) i)
  | turn _ _ ht =>
    cases ht with
    | timer => exact absurd rfl htimer
    | _ => rfl
  | revise t _ _ hr =>
    exact congrArg Counters.detections (hr.keeps Interface.counters (fun _ _ => rfl) i slot t)
  | join => rfl

/-- A shift detects nothing, unless a timer fires. -/
theorem Shift.detections (hs : Shift e c e') (h : e.Linked) (hreceipt : c ≠ .receipt)
    (htimer : c ≠ .timer) (hknown : c = .oblivion → e'.interface? name ≠ none) :
    e'.detections name = e.detections name := by
  refine (hs.named h name).related (r := fun a b : Counters => b.detections = a.detections)
    rfl ?_ ?_ ?_
  · rintro i ⟨slot, rfl⟩
    rfl
  · rintro i ⟨hoblivion, hunknown⟩
    exact absurd (by simp [interface?, Arena.lookup?, hunknown]) (hknown hoblivion)
  · rintro i i' ⟨slot, hadjust⟩
    exact hadjust.detections hreceipt htimer

theorem Linked.detections_evaluate (h : e.Linked) (l : Nat) (name : String) :
    (e.evaluate l).1.detections name = e.detections name := by
  obtain ⟨hstays, -⟩ | ⟨lag, slot, i, -, hi, rfl, hafter, -⟩ := h.interface?_evaluate l name
  · rw [detections, detections, countersOn, countersOn, hstays]
  · have hregrant : (e.regrant l lag slot i).counters = i.counters :=
      Interface.withGrant_keeps Interface.counters (fun _ _ _ => rfl) i _
    have hcounters := (e.evaluation lag).counters_result (e.decision l lag slot)
      (e.regrant l lag slot i)
    funext side
    rw [detections_eq hafter, detections_eq hi, show (e.after l lag slot i).counters = _ from
      hcounters, hregrant]
    cases side <;> rfl

theorem Move.detections (hm : Move e c s) (h : e.Linked) (hc : c.IsStill) (name : String) :
    s.1.detections name = e.detections name := by
  obtain ⟨⟨hreceipt, hoblivion⟩, -, htimer⟩ := hc
  cases hm with
  | shift hs => exact hs.detections h hreceipt htimer fun hc => absurd hc hoblivion
  | answer => rfl
  | dissolve => rfl
  | @leave l slot i hi hlag =>
    have hfate : Fate (fun _ => False) (fun _ => False)
        (fun i i' => i'.counters.detections = i.counters.detections) (e.interface? name)
        ((e.exchange l slot (·.removeMember slot) (e.freed slot i)).interface? name) := by
      refine h.fate_of_put (r := (e.freed slot i).1) hi ?_ rfl rfl fun _ => get?_exchange _
      exact fun _ => rfl
    exact hfate.related (r := fun a b : Counters => b.detections = a.detections) rfl
      (fun _ => False.elim) (fun _ => False.elim) fun _ _ => id
  | evaluate l => exact h.detections_evaluate l name

theorem Move.now_eq (hm : Move e c s) (h : e.Linked) (hc : c ≠ .time) : s.1.now = e.now := by
  cases hm with
  | shift hs =>
    cases hs with
    | requeue hsame => rw [hsame]
    | later => exact absurd rfl hc
    | revise hl hr _ => exact (get?_revised h hl hr).1.now
    | _ => rfl
  | evaluate l => exact now_evaluate e l
  | _ => rfl

/-- The clock and the detections stay as they are. -/
structure Stands (e : Engine) (name : String) (e' : Engine) : Prop where
  now : e'.now = e.now
  detections : e'.detections name = e.detections name

theorem Stands.refl (e : Engine) (name : String) : e.Stands name e := ⟨rfl, rfl⟩

theorem Stands.trans {e'' : Engine} (h : e.Stands name e') (h' : e'.Stands name e'') :
    e.Stands name e'' :=
  ⟨h'.now.trans h.now, h'.detections.trans h.detections⟩

theorem Course.stands (hcourse : e.Course Kind.IsStill s) (name : String) :
    e.Stands name s.1 := by
  induction hcourse with
  | refl e => exact .refl e name
  | step h hc hm _ ih =>
    have hmove : Stands _ name _ := ⟨hm.now_eq h hc.2.1, hm.detections h hc name⟩
    exact hmove.trans ih

theorem Operation.isStill {allowed : Kind → Prop} (hop : e.Operation allowed s)
    (hallowed : ∀ c, allowed c → c.IsStill) : e.Course Kind.IsStill s := by
  refine hop.course.mono fun c hc => ?_
  obtain hc | hc := hc
  · exact hallowed c hc
  · exact Kind.isStill_of_evaluation hc

/-- A frame that is counted is no detection. -/
theorem Linked.stands_count (h : e.Linked) {interface : String}
    (hfind : e.interfaces.find? interface = some slot) {f : Counters → Counters}
    (hf : ∀ c, (f c).detections = c.detections) (name : String) :
    e.Stands name (e.count slot f) := by
  refine ⟨rfl, ?_⟩
  rw [detections, detections, h.countersOn_count hfind]
  split
  · exact hf _
  · rfl

theorem detections_raise (r : Receipt) (c : Counters) :
    (r.raise c).detections = c.detections := by
  funext side
  cases r <;> cases side <;> rfl

theorem Handled.stands {frame : Frame} {r : Receipt} (hs : e.Handled slot i frame r s)
    (h : e.Stable) {interface : String} (hfind : e.interfaces.find? interface = some slot)
    (name : String) : e.Stands name s.1 := by
  have hcount := h.linked.stands_count hfind (detections_raise r) name
  cases hs with
  | discarded => exact hcount
  | heard hop =>
    refine hcount.trans ((hop.isStill fun c hc => ?_).stands name)
    subst hc
    exact ⟨⟨nofun, nofun⟩, nofun, nofun⟩
  | asked =>
    refine hcount.trans ((h.count slot _).linked.stands_count hfind (fun c => ?_) name)
    funext side
    cases side <;> rfl
  | marked => exact hcount

/-- Unless the clock is set, it stands still, and an action detects nothing. -/
theorem Coherent.stands_act (h : e.Stable) {a : Action} (ha : ∀ time, a ≠ .advanceTo time)
    (name : String) : (e.act a).1.now = e.now ∧
      ((e.act a).1.interface? name ≠ none → (e.act a).1.detections name = e.detections name) := by
  have hstill : e.Stands name (e.act a).1 → (e.act a).1.now = e.now ∧
      ((e.act a).1.interface? name ≠ none →
        (e.act a).1.detections name = e.detections name) :=
    fun hstands => ⟨hstands.now, fun _ => hstands.detections⟩
  obtain hclearing | ⟨e', hforget, hs⟩ | ⟨lagName, fields, hset⟩ | ⟨interface, frame, rfl⟩ |
      ⟨time, rfl⟩ := h.act_cases a
  · refine hstill ((hclearing.isStill fun c hc => ?_).stands name)
    obtain rfl | rfl := hc <;> exact ⟨⟨nofun, nofun⟩, nofun, nofun⟩
  · rw [hs]
    have hnow := (Move.shift hforget).now_eq h.linked nofun
    exact ⟨hnow, fun hknown => hforget.detections h.linked nofun nofun fun _ => hknown⟩
  · refine hstill ?_
    rw [hset]
    refine ((h.operation_lagSet lagName fields).isStill fun c hc => ?_).stands name
    obtain rfl | rfl | rfl := hc <;> exact ⟨⟨nofun, nofun⟩, nofun, nofun⟩
  · refine hstill ?_
    cases hfind : e.interfaces.find? interface with
    | none =>
      have hfailed : e.act (.event (.frame interface frame)) = (e, []) := by
        simp only [Engine.act, Engine.applyEvent, Engine.receiveFrame, hfind]
        rfl
      rw [hfailed]
      exact .refl e name
    | some slot =>
      obtain ⟨i, hi, -⟩ := h.interfaces.get?_of_find? hfind
      obtain ⟨s, ho, hs⟩ := h.handled_receiveFrame hfind hi frame
      rw [show e.act (.event (.frame interface frame)) = s from congrArg Outcome.step ho]
      exact hs.stands h hfind name
  · exact absurd rfl (ha time)

/-! ## Detections -/

/-- The interface after some timers have fired: so many detections were added. -/
structure Detected (i : Interface) (more : Churn.Side → Nat) (i' : Interface) : Prop where
  lag : i'.lag = i.lag
  detections : ∀ side : Churn.Side, side.counter i'.counters = side.counter i.counters + more side

theorem counter_timerFired (i : Interface) (key : TimerKey) (hkey : key.interface? = some slot)
    (t : Timers) (now : Nat) (side : Churn.Side) :
    side.counter (i.timerFired key t now).1.counters =
      side.counter i.counters + if key = side.timer slot then 1 else 0 := by
  cases key with
  | periodic slot' =>
    simp only [Interface.timerFired]
    split <;> cases side <;> simp [Churn.Side.timer]
  | currentWhile slot' => cases side <;> simp [Interface.timerFired, Churn.Side.timer]
  | waitWhile slot' => cases side <;> simp [Interface.timerFired, Churn.Side.timer]
  | actorChurn slot' =>
    obtain rfl : slot' = slot := Option.some.inj hkey
    cases side <;>
      simp [Interface.timerFired, Interface.churnDetected, Churn.Side.timer, Churn.Side.counter]
  | partnerChurn slot' =>
    obtain rfl : slot' = slot := Option.some.inj hkey
    cases side <;>
      simp [Interface.timerFired, Interface.churnDetected, Churn.Side.timer, Churn.Side.counter]
  | fallback => cases hkey

/-- A timer of another slot leaves the interface alone. -/
theorem get?_timerFired_of_ne (hkey : key.interface? ≠ some slot) :
    (e.timerFired key).1.interfaces.get? slot = e.interfaces.get? slot := by
  cases hslot : key.interface? with
  | none =>
    cases key with
    | fallback =>
      unfold Engine.timerFired
      dsimp only
      split <;> rfl
    | _ => exact absurd hslot nofun
  | some slot' =>
    obtain ⟨-, heq⟩ | ⟨i, l, -, -, heq⟩ := timerFired_cases (e := e) hslot
    · rw [heq]
    · rw [heq, get?_put, if_neg]
      rintro rfl
      exact hkey hslot

/-- A member counts a detection if the timer of a side fires. -/
theorem detected_timerFired (hi : e.interfaces.get? slot = some i) (hlag : i.lag = some l)
    (key : TimerKey) : ∃ i', (e.timerFired key).1.interfaces.get? slot = some i' ∧
      Detected i (fun side => if key = side.timer slot then 1 else 0) i' := by
  by_cases hkey : key.interface? = some slot
  · refine ⟨(i.timerFired key e.timers e.now).1, ?_, Interface.timerFired_lag,
      counter_timerFired i key hkey e.timers e.now⟩
    rw [congrArg Prod.fst (timerFired_eq hkey hi hlag)]
    exact get?_put_self hi _
  · refine ⟨i, (get?_timerFired_of_ne hkey).trans hi, rfl, fun side => ?_⟩
    have hne : key ≠ side.timer slot := by
      rintro rfl
      exact hkey ((Alarm.churn side).interface?_timer slot)
    rw [if_neg hne, Nat.add_zero]

theorem detected_foldl_collect (keys : List TimerKey) {r : Engine × List Nat}
    (hi : r.1.interfaces.get? slot = some i) (hlag : i.lag = some l) :
    ∃ i', (keys.foldl collect r).1.interfaces.get? slot = some i' ∧
      Detected i (fun side => keys.count (side.timer slot)) i' := by
  induction keys generalizing r i with
  | nil => exact ⟨i, hi, rfl, fun _ => rfl⟩
  | cons key rest ih =>
    obtain ⟨i₁, hi₁, hlag₁, hfirst⟩ := detected_timerFired hi hlag key
    obtain ⟨i₂, hi₂, hlag₂, hrest⟩ := ih (r := collect r key) hi₁ (hlag₁.trans hlag)
    refine ⟨i₂, hi₂, hlag₂.trans hlag₁, fun side => ?_⟩
    rw [hrest, hfirst, List.count_cons]
    simp only [beq_iff_eq]
    omega

theorem get?_foldl_collect_of_ne (hkeys : ∀ key ∈ keys, key.interface? ≠ some slot)
    (r : Engine × List Nat) :
    (keys.foldl collect r).1.interfaces.get? slot = r.1.interfaces.get? slot := by
  induction keys generalizing r with
  | nil => rfl
  | cons key rest ih =>
    rw [List.foldl_cons, ih fun key' hkey' => hkeys key' (List.mem_cons_of_mem _ hkey')]
    exact get?_timerFired_of_ne (hkeys key List.mem_cons_self)

theorem find?_foldl_collect (keys : List TimerKey) (r : Engine × List Nat) (name : String) :
    (keys.foldl collect r).1.interfaces.find? name = r.1.interfaces.find? name := by
  induction keys generalizing r with
  | nil => rfl
  | cons key rest ih =>
    rw [List.foldl_cons, ih]
    show (r.1.timerFired key).1.interfaces.find? name = _
    unfold Engine.timerFired
    split
    · split <;> rfl
    · split
      · rfl
      · split <;> rfl

/-- A side is flagged by the clock at this time. -/
def detects (e : Engine) (now slot : Nat) (side : Churn.Side) : Bool :=
  (e.timers.deadline? (side.timer slot)).any (· ≤ now)

section
variable (h : e.Stable)
include h

/-- When the clock is set, every side whose deadline has come counts one detection. -/
theorem Coherent.detected_timersFired (hi : e.interfaces.get? slot = some i) (now : Nat) :
    ∃ i', ((e.later now).timersFired (e.timers.expired now).1).1.interfaces.get? slot = some i' ∧
      Detected i (fun side => if e.detects now slot side then 1 else 0) i' := by
  have hmem : ∀ key, key ∈ (e.timers.expired now).1 ↔
      (e.timers.deadline? key).any (· ≤ now) = true := by
    intro key
    rw [Timers.mem_expired h.timers]
    simp [Option.any_eq_true_iff_get, Option.eq_some_iff_get_eq]
  rw [timersFired_eq]
  cases hlag : i.lag with
  | none =>
    -- No timer of the slot is set.
    have hidle : ∀ key : TimerKey, key.interface? = some slot → e.timers.deadline? key = none := by
      intro key hkey
      have hnone := h.due_outside (not_isMember_of_lag_eq_none hi hlag) hkey
      rwa [due_nil] at hnone
    have hkeys : ∀ key ∈ (e.timers.expired now).1, key.interface? ≠ some slot := by
      intro key hkey hslot
      rw [hmem, hidle key hslot] at hkey
      exact absurd hkey nofun
    refine ⟨i, (get?_foldl_collect_of_ne hkeys _).trans hi, rfl, fun side => ?_⟩
    have hnone := hidle (side.timer slot) ((Alarm.churn side).interface?_timer slot)
    rw [detects, hnone]
    rfl
  | some l =>
    obtain ⟨i', hi', hlag', hcount⟩ := detected_foldl_collect (e.timers.expired now).1
      (r := (e.later now, [])) hi hlag
    refine ⟨i', hi', hlag', fun side => ?_⟩
    rw [hcount, (Timers.nodup_expired h.timers now).count]
    exact congrArg (_ + ·) (if_congr (hmem _) rfl rfl)

/-- No side is flagged before the clock moves. -/
theorem Coherent.detects_now (slot : Nat) (side : Churn.Side) :
    e.detects e.now slot side = false := by
  unfold detects
  cases hd : e.timers.deadline? (side.timer slot) with
  | none => rfl
  | some d => simpa using h.lt_deadline hd

/-- The evaluations after timers have fired detect nothing. -/
theorem Coherent.stands_advanceTo (time : Nat) (name : String) :
    ((e.later (max e.now time)).timersFired (e.timers.expired (max e.now time)).1).1.Stands name
      (e.advanceTo time).1 := by
  have htime : e.now ≤ max e.now time := Nat.le_max_left _ _
  have hevaluations := (h.timersFired htime).1.evaluations_evaluateAll
    ((e.later (max e.now time)).timersFired (e.timers.expired (max e.now time)).1).2
  rw [advanceTo_eq]
  exact (hevaluations.mono fun _ => Kind.isStill_of_evaluation).stands name

/-- The clock moves when it is set, and never else. -/
theorem Coherent.now_act (a : Action) : (e.act a).1.now =
    match a with
    | .advanceTo time => max e.now time
    | _ => e.now := by
  split
  · next time => exact (h.stands_advanceTo time "").now.trans (now_foldl_collect _ _)
  · next hother => exact (h.stands_act hother "").1

/-- The detections on an interface in an action, if it is known before and after. -/
theorem Coherent.detections_act (a : Action) (hfind : e.interfaces.find? name = some slot)
    (hknown : (e.act a).1.interface? name ≠ none) (side : Churn.Side) :
    (e.act a).1.detections name side =
      e.detections name side + if e.detects (e.act a).1.now slot side then 1 else 0 := by
  obtain ⟨i, hi, -⟩ := h.interfaces.get?_of_find? hfind
  have hbefore : e.interface? name = some i := by simp [interface?, Arena.lookup?, hfind, hi]
  by_cases ha : ∀ time, a ≠ .advanceTo time
  · obtain ⟨hnow, hsame⟩ := h.stands_act ha name
    rw [hsame hknown, hnow, h.detects_now]
    rfl
  · simp only [not_forall, not_not] at ha
    obtain ⟨time, rfl⟩ := ha
    obtain ⟨i', hi', -, hcount⟩ := h.detected_timersFired hi (max e.now time)
    have hclock : (e.act (.advanceTo time)).1.now = max e.now time := h.now_act (.advanceTo time)
    have hfired : ((e.later (max e.now time)).timersFired
        (e.timers.expired (max e.now time)).1).1.interface? name = some i' := by
      have hfind' : ((e.later (max e.now time)).timersFired
          (e.timers.expired (max e.now time)).1).1.interfaces.find? name = some slot :=
        (find?_foldl_collect _ _ name).trans hfind
      rw [interface?, Arena.lookup?, hfind']
      exact hi'
    have hsame : (e.act (.advanceTo time)).1.detections name = _ :=
      (h.stands_advanceTo time name).detections
    rw [hsame, hclock, detections_eq hfired, detections_eq hbefore]
    exact hcount side

end

end Engine
end LinkAggregation
