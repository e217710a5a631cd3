import LinkAggregation.Proofs.Engine.Sums

/-!
# Sums in range are exact

How the engine adds makes no difference to a machine that forms no sum beyond the last time. At the
last clock value there is still room for every period and for the longest fallback timeout, so until
then every clock computes what the exact one computes.
-/
namespace LinkAggregation

open Fallback (longestTimeout)

/-- The longest fallback timeout takes the last clock value to the last time. -/
theorem lastClock_add : lastClock + longestTimeout = lastTime := by decide

theorem sum_le_lastTime {now period : Nat} (hnow : now ≤ lastClock)
    (h : period ≤ longestTimeout) : now + period ≤ lastTime :=
  lastClock_add ▸ Nat.add_le_add hnow h

/-- No period is as long as a fallback timeout may be. -/
theorem le_of_mem_periods {period : Nat} (h : period ∈ periods) : period ≤ longestTimeout :=
  (by decide : ∀ period ∈ periods, period ≤ longestTimeout) period h

variable [Clock] {now period slot : Nat} {p : Protocol} {t : Timers}

theorem Clock.after_eq (h : now + period ≤ lastTime) :
    Clock.after now period = @Clock.after .exact now period := Clock.after_of_le h

theorem Clock.after_period (hnow : now ≤ lastClock) (h : period ∈ periods) :
    Clock.after now period = @Clock.after .exact now period :=
  Clock.after_eq (sum_le_lastTime hnow (le_of_mem_periods h))

/-! ## Machines -/

section
variable (hnow : now ≤ lastClock)
include hnow

namespace Receive

theorem enterExpired_exact : enterExpired slot p t now = @enterExpired .exact slot p t now := by
  have hshort : shortTimeout ∈ periods := by simp [periods]
  unfold enterExpired
  rw [Clock.after_period hnow hshort]

theorem enable_exact (mode : Mode) (rate : Rate) :
    enable slot p mode rate t now = @enable .exact slot p mode rate t now :=
  enterExpired_exact hnow

theorem currentWhileExpired_exact :
    currentWhileExpired slot p t now = @currentWhileExpired .exact slot p t now := by
  unfold currentWhileExpired
  rw [enterExpired_exact hnow]

theorem record_exact (own : Endpoint) (pdu : Lacpdu) :
    record slot p own pdu t now = @record .exact slot p own pdu t now := by
  unfold record
  dsimp only
  rw [Clock.after_period hnow (timeout_mem_periods _)]

theorem rateChanged_exact : rateChanged slot p t now = @rateChanged .exact slot p t now := by
  have hshort : shortTimeout ∈ periods := by simp [periods]
  unfold rateChanged
  rw [Clock.after_period hnow (timeout_mem_periods p.actor), Clock.after_period hnow hshort]

end Receive

namespace Mux

theorem enter_exact (s : MuxState) : enter slot s p t now = @enter .exact slot s p t now := by
  have hwait : aggregateWait ∈ periods := by simp [periods]
  unfold enter
  rw [Clock.after_period hnow hwait]

theorem settle_exact (static : Bool) (steps : Nat) :
    settle slot static now steps p t = @settle .exact slot static now steps p t := by
  induction steps generalizing p t with
  | zero => rfl
  | succ steps ih => simp only [settle, enter_exact hnow, ih]

theorem run_exact (static : Bool) : run slot static p t now = @run .exact slot static p t now := by
  unfold run
  rw [settle_exact hnow]

end Mux

namespace Churn

theorem updateSide_exact (side : Side) :
    updateSide slot now side p t = @updateSide .exact slot now side p t := by
  have hdetection : detectionTime ∈ periods := by simp [periods]
  unfold updateSide
  rw [Clock.after_period hnow hdetection]

theorem update_exact (enabled : Bool) :
    update slot enabled p t now = @update .exact slot enabled p t now := by
  simp only [update, updateSide_exact hnow]

end Churn

theorem Interface.timerFired_exact (i : Interface) (key : TimerKey) :
    i.timerFired key t now = @Interface.timerFired .exact i key t now := by
  cases key with
  | periodic slot =>
    simp only [timerFired]
    split
    · next hinterval =>
      rw [Clock.after_period hnow (Periodic.interval?_mem_periods hinterval)]
    · rfl
  | currentWhile slot => simp only [timerFired, Receive.currentWhileExpired_exact hnow]
  | _ => rfl

end

/-- A silence begins with the timeout of its LAG. -/
theorem Fallback.evaluate_exact {lag : Nat} {settings : Settings} {members : List Member}
    {s : State} (hsum : now + settings.timeout ≤ lastTime) :
    evaluate lag settings members s t now = @evaluate .exact lag settings members s t now := by
  have hstart : start lag settings s t now = @start .exact lag settings s t now := by
    unfold start
    rw [Clock.after_eq hsum]
  unfold evaluate
  rw [hstart]

/-! ## Windows -/

namespace TransmitWindow
variable {w : TransmitWindow} {last interval : Nat}

/-- A window begins when a place in it is taken. -/
theorem start_take?_le (limit : Nat) (hstart : w.start ≤ last) (hnow : now ≤ last) :
    (w.take? now interval limit).2.start ≤ last := by
  unfold take?
  dsimp only
  split <;> split <;> assumption

theorem take?_exact (limit : Nat) (h : w.start ≤ lastClock) (hinterval : interval ∈ periods) :
    w.take? now interval limit = @take? .exact w now interval limit := by
  unfold take?
  rw [Clock.after_period h hinterval]

end TransmitWindow

/-! ## The evaluation of a member -/

namespace Evaluation
variable {ev : Evaluation} {i : Interface}

theorem runPeriodic_exact (hnow : now ≤ lastClock) (enabled running : Bool) :
    runPeriodic now slot enabled running p t =
      @runPeriodic .exact now slot enabled running p t := by
  unfold runPeriodic
  dsimp only
  split
  · rfl
  · split
    · next hinterval =>
      rw [Clock.after_period hnow (Periodic.interval?_mem_periods hinterval)]
    · rfl

theorem postpone_exact {w : TransmitWindow} (hw : w.start ≤ lastClock) :
    postpone slot w t = @postpone .exact slot w t := by
  have hfast : Periodic.fastInterval ∈ periods := by simp [periods]
  unfold postpone
  rw [Clock.after_period hw hfast]

variable (hnow : ev.now ≤ lastClock)
include hnow

theorem runMachines_exact (selection : Selection) :
    ev.runMachines slot selection i t = @runMachines .exact ev slot selection i t := by
  simp only [runMachines, Mux.run_exact hnow, runPeriodic_exact hnow, Churn.update_exact hnow]

theorem transmitIfDue_exact (hw : i.window.start ≤ lastClock) :
    ev.transmitIfDue slot i t = @transmitIfDue .exact ev slot i t := by
  have hfast : Periodic.fastInterval ∈ periods := by simp [periods]
  have hwindow := @TransmitWindow.start_take?_le .exact ev.now i.window lastClock
    Periodic.fastInterval transmitLimit hw hnow
  unfold transmitIfDue transmit
  rw [TransmitWindow.take?_exact transmitLimit hw hfast]
  simp only [postpone_exact hwindow]

theorem member_exact (selection : Selection) (hw : i.window.start ≤ lastClock) :
    ev.member slot selection i t = @member .exact ev slot selection i t := by
  unfold member
  rw [runMachines_exact hnow]
  exact congrArg (fun r : Interface × Timers × List Effect =>
    ((ev.publish r.1).1, r.2.1, r.2.2 ++ (ev.publish r.1).2)) (transmitIfDue_exact hnow hw)

theorem members_exact (decision : Nat → Selection) {ms : List (Nat × Interface)}
    (hw : ∀ m ∈ ms, m.2.window.start ≤ lastClock) :
    ev.members decision ms t = @members .exact ev decision ms t := by
  induction ms generalizing t with
  | nil => rfl
  | cons m rest ih =>
    have hrest : ∀ n ∈ rest, n.2.window.start ≤ lastClock :=
      fun n hn => hw n (List.mem_cons_of_mem m hn)
    simp only [members, member_exact hnow _ (hw m List.mem_cons_self), ih hrest]

end Evaluation
end LinkAggregation
