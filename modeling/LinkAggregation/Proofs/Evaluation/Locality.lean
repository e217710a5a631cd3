import LinkAggregation.Proofs.Evaluation.Lag

/-!
# What the machines read of the timers

The machines of a member look at no deadlines but those of their own slot, and fallback looks at
none. So deadlines elsewhere, and the way in which the schedule has come about, have no bearing on
what an evaluation decides, sends and arms.
-/
namespace LinkAggregation

/-- The timers of a slot have the same deadlines in both. -/
def Timers.SameAt (slot : Nat) (t t' : Timers) : Prop :=
  ∀ key : TimerKey, key.interface? = some slot → t'.deadline? key = t.deadline? key

namespace Mux
variable {slot now : Nat} {static : Bool}

theorem deadline?_settle_congr (steps : Nat) (p : Protocol) {t t' : Timers}
    (h : t'.deadline? (.waitWhile slot) = t.deadline? (.waitWhile slot)) :
    (settle slot static now steps p t').2.deadline? (.waitWhile slot) =
      (settle slot static now steps p t).2.deadline? (.waitWhile slot) := by
  induction steps generalizing p t t' with
  | zero => exact h
  | succ steps ih =>
    simp only [settle]
    split
    · exact h
    · cases next p.mux (input p static) with
      | detached =>
        refine ih _ ?_
        simp [enter]
      | waiting =>
        refine ih _ ?_
        simp [enter]
      | attached => exact ih _ h
      | collectingDistributing => exact ih _ h

end Mux

namespace Evaluation
variable {ev : Evaluation} {slot : Nat} {selection : Selection} {i : Interface} {t t' : Timers}

theorem deadline?_transmitIfDue_congr
    (h : t'.deadline? (.periodic slot) = t.deadline? (.periodic slot)) :
    (ev.transmitIfDue slot i t').2.1.deadline? (.periodic slot) =
      (ev.transmitIfDue slot i t).2.1.deadline? (.periodic slot) := by
  unfold transmitIfDue
  split
  · exact h
  · split
    · unfold transmit
      dsimp only
      split
      · split <;> exact h
      · rw [deadline?_postpone, deadline?_postpone, h]
    · exact h

/-- The periodic timer is that of the periodic machine, or that of a message that is held back. -/
theorem deadline?_member_periodic :
    (ev.member slot selection i t).2.1.deadline? (.periodic slot) =
      (ev.transmitIfDue slot { i with protocol := ev.machined selection i }
        (ev.afterPeriodic slot selection i t).2).2.1.deadline? (.periodic slot) := by
  rw [member_timers]
  refine deadline?_transmitIfDue_congr (deadline?_afterChurn_of_ne ?_)
  rintro (_ | _) <;> simp [Churn.Side.timer]

theorem deadline?_afterPeriodic_congr
    (h : t'.deadline? (.periodic slot) = t.deadline? (.periodic slot)) :
    (ev.afterPeriodic slot selection i t').2.deadline? (.periodic slot) =
      (ev.afterPeriodic slot selection i t).2.deadline? (.periodic slot) := by
  have hmux : ∀ t, (ev.afterMux slot selection i t).2.deadline? (.periodic slot) =
      t.deadline? (.periodic slot) := fun _ => deadline?_afterMux_of_ne (by simp)
  simp only [afterPeriodic, deadline?_runPeriodic, afterMux_fst, hmux, h]

theorem deadline?_afterChurn_congr (side : Churn.Side)
    (h : t'.deadline? (side.timer slot) = t.deadline? (side.timer slot)) :
    (ev.afterChurn slot selection i t').2.deadline? (side.timer slot) =
      (ev.afterChurn slot selection i t).2.deadline? (side.timer slot) := by
  have hperiodic : ∀ t, (ev.afterPeriodic slot selection i t).2.deadline? (side.timer slot) =
      t.deadline? (side.timer slot) := by
    intro t
    rw [deadline?_afterPeriodic_of_ne (by cases side <;> simp [Churn.Side.timer]),
      deadline?_afterMux_of_ne (by cases side <;> simp [Churn.Side.timer])]
  simp only [afterChurn]
  split
  · rw [Churn.deadline?_update, Churn.deadline?_update, afterPeriodic_fst, afterPeriodic_fst,
      hperiodic, hperiodic, h]
  · rw [hperiodic, hperiodic, h]

/-- The deadlines of a member after its evaluation follow from those that it had. -/
theorem sameAt_member (h : t.SameAt slot t') :
    (ev.member slot selection i t).2.1.SameAt slot (ev.member slot selection i t').2.1 := by
  intro key hkey
  cases key with
  | periodic s =>
    obtain rfl : s = slot := Option.some.inj hkey
    rw [deadline?_member_periodic, deadline?_member_periodic]
    exact deadline?_transmitIfDue_congr (deadline?_afterPeriodic_congr (h _ hkey))
  | currentWhile s =>
    obtain rfl : s = slot := Option.some.inj hkey
    rw [deadline?_member_currentWhile, deadline?_member_currentWhile]
    exact h _ hkey
  | waitWhile s =>
    obtain rfl : s = slot := Option.some.inj hkey
    rw [deadline?_member_waitWhile, deadline?_member_waitWhile, afterMux_snd, afterMux_snd]
    exact Mux.deadline?_settle_congr 4 _ (h _ hkey)
  | actorChurn s =>
    obtain rfl : s = slot := Option.some.inj hkey
    exact (deadline?_member_churn .actor).trans
      ((deadline?_afterChurn_congr .actor (h _ hkey)).trans (deadline?_member_churn .actor).symm)
  | partnerChurn s =>
    obtain rfl : s = slot := Option.some.inj hkey
    exact (deadline?_member_churn .partner).trans
      ((deadline?_afterChurn_congr .partner (h _ hkey)).trans
        (deadline?_member_churn .partner).symm)
  | fallback k => simp [TimerKey.interface?] at hkey

end Evaluation

namespace Fallback
variable {lag : Nat} {settings : Settings} {members : List Member} {s : State} {t t' : Timers}
  {now : Nat}

theorem start_fst_eq : (start lag settings s t' now).1 = (start lag settings s t now).1 := by
  unfold start
  cases s.since with
  | some since => rfl
  | none =>
    dsimp only
    split <;> rfl

theorem evaluate_fst_eq :
    (evaluate lag settings members s t' now).1 = (evaluate lag settings members s t now).1 := by
  cases hidle : isIdle settings members
  · rw [evaluate_not_idle hidle, evaluate_not_idle hidle]
    exact start_fst_eq
  · rw [evaluate_idle hidle, evaluate_idle hidle]

theorem evaluate_grants_eq :
    (evaluate lag settings members s t' now).2.2 =
      (evaluate lag settings members s t now).2.2 := by
  rw [evaluate_holders, evaluate_holders, evaluate_fst_eq]

theorem deadline?_evaluate_congr (h : t'.deadline? (.fallback lag) = t.deadline? (.fallback lag)) :
    (evaluate lag settings members s t' now).2.1.deadline? (.fallback lag) =
      (evaluate lag settings members s t now).2.1.deadline? (.fallback lag) := by
  cases hidle : isIdle settings members
  · rw [evaluate_not_idle hidle, evaluate_not_idle hidle]
    unfold start
    cases s.since with
    | some since => exact h
    | none =>
      dsimp only
      split
      · exact h
      · simp
  · rw [evaluate_idle hidle, evaluate_idle hidle]
    simp

end Fallback

end LinkAggregation
