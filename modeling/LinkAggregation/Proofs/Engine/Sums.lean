import LinkAggregation.Proofs.Engine.Detections
import LinkAggregation.Proofs.Engine.Pace
import LinkAggregation.Proofs.Timer.Asked

/-!
# The times that are computed

The engine adds one of a few periods to the time, or the fallback timeout of a LAG, or the length of
a transmit window to its start. No machine asks the timers for any other deadline, so no move does.
-/
namespace LinkAggregation

/-- What the machines add to the time. -/
def periods : List Nat :=
  [Receive.shortTimeout, Receive.longTimeout, Mux.aggregateWait, Periodic.fastInterval,
    Periodic.slowInterval, Churn.detectionTime]

/-! ## What the machines ask for -/

variable {P : Nat → Prop} {t₀ t : Timers} {slot now : Nat} {p : Protocol} {static enabled : Bool}

theorem Receive.timeout_mem_periods (actor : Flags) : Receive.timeout actor ∈ periods := by
  unfold Receive.timeout
  split <;> simp [periods]

theorem Periodic.interval?_mem_periods {s : PeriodicState} {interval : Nat}
    (h : Periodic.interval? s = some interval) : interval ∈ periods := by
  cases s <;> simp only [Periodic.interval?, Option.some.injEq, reduceCtorEq] at h
  all_goals
    rw [← h]
    simp [periods]

section
variable (hP : ∀ period ∈ periods, P (now + period)) (h : t₀.Asked P t)
include hP h

namespace Receive
variable {s old new : LagSettings}

theorem asked_sync : t₀.Asked P (sync slot enabled s p t now).2 := by
  unfold sync
  split
  · split
    · exact h
    · exact h.cancelInterface _
  · split
    · split
      · exact h
      · exact h.cancelInterface _
    · split
      · exact h
      · exact h.arm _ (hP shortTimeout (by simp [periods]))

theorem asked_rateChanged : t₀.Asked P (rateChanged slot p t now) := by
  unfold rateChanged
  split
  · exact h.arm _ (hP _ (timeout_mem_periods _))
  · exact h.arm _ (hP shortTimeout (by simp [periods]))
  · exact h

theorem asked_retell : t₀.Asked P (retell slot old new p t now).2 := by
  unfold retell
  dsimp only
  split
  · exact h
  · split
    · exact asked_rateChanged hP h
    · exact h

theorem asked_currentWhileExpired : t₀.Asked P (currentWhileExpired slot p t now).2.1 := by
  unfold currentWhileExpired
  split
  · exact h.arm _ (hP shortTimeout (by simp [periods]))
  · exact h
  · exact h

theorem asked_record (own : Endpoint) (pdu : Lacpdu) :
    t₀.Asked P (record slot p own pdu t now).2.1 :=
  h.arm _ (hP _ (timeout_mem_periods _))

end Receive

theorem Interface.asked_timerFired (i : Interface) (key : TimerKey) :
    t₀.Asked P (i.timerFired key t now).2 := by
  cases key with
  | periodic slot =>
    simp only [timerFired]
    split
    · next hinterval => exact h.arm _ (hP _ (Periodic.interval?_mem_periods hinterval))
    · exact h
  | currentWhile slot => exact Receive.asked_currentWhileExpired hP h
  | waitWhile slot => exact h
  | actorChurn slot => exact h
  | partnerChurn slot => exact h
  | fallback lag => exact h

theorem Mux.asked_settle (steps : Nat) : t₀.Asked P (settle slot static now steps p t).2 := by
  induction steps generalizing p t with
  | zero => exact h
  | succ steps ih =>
    simp only [settle]
    split
    · exact h
    · apply ih
      cases next p.mux (input p static) with
      | detached => exact h.cancel _
      | waiting => exact h.arm _ (hP aggregateWait (by simp [periods]))
      | attached => exact h
      | collectingDistributing => exact h

namespace Churn

theorem asked_updateSide (side : Side) : t₀.Asked P (updateSide slot now side p t).2 := by
  unfold updateSide
  split
  · exact h.cancel _
  · split
    · exact h
    · exact h.armIfIdle _ (hP detectionTime (by simp [periods]))

theorem asked_update : t₀.Asked P (update slot enabled p t now).2 := by
  unfold update
  split
  · exact asked_updateSide hP (asked_updateSide hP h _) _
  · exact (h.cancel _).cancel _

end Churn

end

namespace Evaluation
variable {ev : Evaluation} {running : Bool} {i : Interface}

theorem asked_runPeriodic (hP : ∀ period ∈ periods, P (now + period)) (h : t₀.Asked P t) :
    t₀.Asked P (runPeriodic now slot enabled running p t).2 := by
  unfold runPeriodic
  dsimp only
  split
  · exact h
  · split
    · next hinterval => exact h.arm _ (hP _ (Periodic.interval?_mem_periods hinterval))
    · exact h.cancel _

/-- A message that is held back asks for the end of the window. -/
theorem asked_transmitIfDue (hwindow : P (i.window.start + Periodic.fastInterval))
    (h : t₀.Asked P t) : t₀.Asked P (ev.transmitIfDue slot i t).2.1 := by
  obtain ⟨-, heq⟩ | ⟨-, -, -, heq⟩ := ev.transmitIfDue_cases slot i t
  · rw [heq]
    exact h
  · rw [heq]
    unfold postpone
    dsimp only
    split
    · exact h.arm _ hwindow
    · exact h

variable (hP : ∀ period ∈ periods, P (ev.now + period))
include hP

theorem asked_member (selection : Selection)
    (hwindow : P (i.window.start + Periodic.fastInterval)) (h : t₀.Asked P t) :
    t₀.Asked P (ev.member slot selection i t).2.1 := by
  rw [member_timers]
  refine asked_transmitIfDue hwindow ?_
  have hperiodic : t₀.Asked P (ev.afterPeriodic slot selection i t).2 :=
    asked_runPeriodic hP (afterMux_snd ▸ Mux.asked_settle hP h _)
  simp only [afterChurn]
  split
  · exact Churn.asked_update hP hperiodic
  · exact hperiodic

theorem asked_members {decision : Nat → Selection} {ms : List (Nat × Interface)}
    (hwindow : ∀ m ∈ ms, P (m.2.window.start + Periodic.fastInterval)) (h : t₀.Asked P t) :
    t₀.Asked P (ev.members decision ms t).2.1 := by
  induction ms generalizing t with
  | nil => exact h
  | cons m rest ih =>
    exact ih (fun n hn => hwindow n (List.mem_cons_of_mem _ hn))
      (asked_member hP _ (hwindow m List.mem_cons_self) h)

end Evaluation

/-- A silence that begins asks for its end. -/
theorem Fallback.asked_evaluate {lag : Nat} {settings : Settings} {members : List Member}
    {s : State} (hP : P (now + settings.timeout)) (h : t₀.Asked P t) :
    t₀.Asked P (evaluate lag settings members s t now).2.1 := by
  have hstart : t₀.Asked P (start lag settings s t now).2 := by
    unfold start
    split
    · exact h
    · dsimp only
      split
      · exact h
      · exact h.arm _ hP
  cases hidle : isIdle settings members
  · rw [evaluate_not_idle hidle]
    exact hstart
  · rw [evaluate_idle hidle]
    exact h.cancel _

namespace Engine
variable {e e' : Engine} {c : Kind} {s : Step} {l slot : Nat} {lag : Lag} {i : Interface}

/-! ## What a move asks for -/

/-- The sums of times that the engine may form: the time and a period, the time and the fallback
timeout of a LAG, and the start of a transmit window and its length. -/
inductive Computes (e : Engine) : Nat → Prop
  | period {period : Nat} (h : period ∈ periods) : Computes e (e.now + period)
  | fallback {l : Nat} {lag : Lag} (hl : e.lags.get? l = some lag) :
      Computes e (e.now + lag.settings.fallbackTimeoutMs)
  | window {slot : Nat} {i : Interface} (hi : e.interfaces.get? slot = some i) :
      Computes e (i.window.start + Periodic.fastInterval)

theorem asked_evaluate (e : Engine) (l : Nat) :
    e.timers.Asked e.Computes (e.evaluate l).1.timers := by
  cases hl : e.lags.get? l with
  | none =>
    rw [evaluate_of_not_live hl]
    exact .refl _ _
  | some lag =>
    rw [evaluate_timers hl]
    have hfallback : e.timers.Asked e.Computes (e.fallbackStep l lag).2.1 :=
      Fallback.asked_evaluate (.fallback hl) (.refl _ _)
    refine Evaluation.asked_members (fun _ => .period) (fun m hm => ?_) hfallback
    obtain ⟨⟨slot, i⟩, hmember, rfl⟩ := List.mem_map.mp hm
    rw [regrant_window]
    exact .window (mem_members.mp hmember).2

theorem asked_turn {settings : LagSettings} {r : Interface × Timers}
    (ht : Turn settings e.now slot i e.timers c r) : e.timers.Asked e.Computes r.2 := by
  cases ht with
  | port status => exact Receive.asked_sync (fun _ => .period) (.refl _ _)
  | settings settings => exact .refl _ _
  | record own pdu => exact Receive.asked_record (fun _ => .period) (.refl _ _) own pdu
  | timer key => exact Interface.asked_timerFired (fun _ => .period) (.refl _ _) i key

/-- Steps at some members of a LAG ask for what each of them asks for. -/
theorem asked_foldl {P : Nat → Prop} {f : Engine → Nat → Engine} {step : MemberStep} {now : Nat}
    {slots : List Nat} (hf : Performs f step l lag now) (hstep : step.Local)
    (hasks : ∀ i slot (t : Timers), t.Asked P (step i slot t).2) (hl : e.lags.get? l = some lag)
    (hnow : e.now = now) (hslots : ∀ slot ∈ slots, e.IsMember l slot) :
    e.timers.Asked P (slots.foldl f e).timers := by
  induction slots generalizing e with
  | nil => exact .refl _ _
  | cons slot rest ih =>
    obtain ⟨i, hi, hlag⟩ := hslots slot List.mem_cons_self
    have hput := hf e slot i hl hnow hi hlag
    have hw := hf.within hstep hl hnow hi hlag
    have hfirst : e.timers.Asked P (f e slot).timers := by
      rw [hput]
      exact hasks i slot e.timers
    refine hfirst.trans (ih ?_ (hw.now.trans hnow) fun slot' hslot' => ?_)
    · rw [hput]
      exact hl
    · exact (hw.isMember_iff l slot').mpr (hslots slot' (List.mem_cons_of_mem _ hslot'))

theorem Revision.asked {old new : LagSettings} {now : Nat} {f : Engine → Nat → Engine}
    {step : MemberStep} (hr : Revision old new now f step) {P : Nat → Prop}
    (hP : ∀ period ∈ periods, P (now + period)) (i : Interface) (slot : Nat) (t : Timers) :
    t.Asked P (step i slot t).2 := by
  cases hr with
  | restart => exact Receive.asked_sync hP ((Timers.Asked.refl P t).cancelInterface slot)
  | retell => exact Receive.asked_retell hP (.refl P t)
  | idle => exact .refl P t

theorem Shift.asked (hs : Shift e c e') (h : e.Linked) :
    e.timers.Asked e.Computes e'.timers := by
  cases hs with
  | requeue hsame =>
    rw [hsame]
    exact .refl _ _
  | later => exact (Timers.Asked.refl _ _).expired _
  | activate => exact .refl _ _
  | turn _ _ _ ht => exact asked_turn ht
  | count => exact .refl _ _
  | identify => exact .refl _ _
  | @revise l lag new f step hl hr _ =>
    have hmodify : Within l e (e.modifyLag l fun lag => { lag with settings := new }) :=
      within_modifyLag (fun _ => rfl) fun _ => rfl
    have hget : (e.modifyLag l fun lag => { lag with settings := new }).lags.get? l =
        some { lag with settings := new } := by
      simp [modifyLag, hl]
    exact asked_foldl (hr.performs rfl) hr.isLocal (hr.asked fun _ => Computes.period) hget rfl
      fun slot hslot => (hmodify.isMember_iff l slot).mpr ((h.members l lag hl slot).mp hslot)
  | found => exact .refl _ _
  | meet => exact .refl _ _
  | report => exact .refl _ _
  | forget => exact (Timers.Asked.refl _ _).cancelInterface _
  | join => exact Receive.asked_sync (fun _ => .period) (.refl _ _)

/-- A move asks for computed times only. -/
theorem Move.asked (hm : Move e c s) (h : e.Linked) :
    e.timers.Asked e.Computes s.1.timers := by
  cases hm with
  | shift hs => exact hs.asked h
  | answer => exact .refl _ _
  | dissolve => exact (Timers.Asked.refl _ _).cancel _
  | leave => exact (Timers.Asked.refl _ _).cancelInterface _
  | evaluate l => exact asked_evaluate e l

end Engine
end LinkAggregation
