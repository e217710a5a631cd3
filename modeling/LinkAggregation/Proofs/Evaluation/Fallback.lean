import LinkAggregation.Engine.Evaluate
import LinkAggregation.Proofs.Evaluation.Machines

/-!
# Fallback of a LAG

Fallback is settled if a LAG whose members are not all silent has forgotten the silence, and the
others remember when it began. One evaluation settles it; who holds a grant then is a matter of the
members and of the fallback state. The fallback timer runs while a silence lasts and grants are not
yet in force.
-/
namespace LinkAggregation.Fallback
variable {lag : Nat} {settings : Settings} {members : List Member} {s : State} {t : Timers}
  {now : Nat}

/-- Fallback is not called for: it is switched off, or not all enabled members are silent. -/
def isIdle (settings : Settings) (members : List Member) : Bool :=
  !settings.enabled || !allDefaulted members

/-- The slots that hold a grant. -/
def holders (settings : Settings) (members : List Member) (s : State) : List Nat :=
  if isIdle settings members then [] else if s.active then grants settings.mode members else []

/-- Nothing is left to do. -/
def Settled (settings : Settings) (members : List Member) (s : State) (due : Option Nat) : Prop :=
  if isIdle settings members = true then s = {} ∧ due = none else s.since.isSome = true

/-- How long fallback can be put off. -/
def longestTimeout : Nat := maxFallbackTimeout * 1000

/-- The fallback timer runs while a silence lasts and grants are not in force. -/
structure Timed (now : Nat) (s : State) (due : Option Nat) : Prop where
  active : s.active = true → s.since.isSome = true
  armed : due.isSome = (s.since.isSome && !s.active)
  due : ∀ d, due = some d → now < d ∧ d ≤ now + longestTimeout

theorem evaluate_idle (h : isIdle settings members = true) :
    evaluate lag settings members s t now = ({}, t.cancel (.fallback lag), []) := if_pos h

theorem evaluate_not_idle (h : isIdle settings members = false) :
    evaluate lag settings members s t now =
      ((start lag settings s t now).1, (start lag settings s t now).2,
        if (start lag settings s t now).1.active then grants settings.mode members else []) := by
  unfold isIdle at h
  simp [evaluate, h]

/-- Who gets a grant follows from the state after the evaluation. -/
theorem evaluate_holders :
    (evaluate lag settings members s t now).2.2 =
      holders settings members (evaluate lag settings members s t now).1 := by
  cases h : isIdle settings members
  · simp [evaluate_not_idle h, holders, h]
  · simp [evaluate_idle h, holders, h]

/-- An evaluation of settled fallback changes nothing. -/
theorem Settled.evaluate_eq (h : Settled settings members s (t.deadline? (.fallback lag))) :
    evaluate lag settings members s t now = (s, t, holders settings members s) := by
  cases hidle : isIdle settings members
  · simp only [Settled, hidle, Bool.false_eq_true, if_false] at h
    obtain ⟨since, hsince⟩ := Option.isSome_iff_exists.mp h
    simp [evaluate_not_idle hidle, start, hsince, holders, hidle]
  · simp only [Settled, hidle, if_true] at h
    have hcancel := Timers.cancel_of_not_armed (Timers.isArmed_eq_false_iff.mpr h.2)
    simp [evaluate_idle hidle, holders, hidle, hcancel, h.1]

theorem start_since : (start lag settings s t now).1.since.isSome = true := by
  unfold start
  cases hsince : s.since with
  | some since => simp [hsince]
  | none =>
    simp only
    split <;> rfl

/-- A silence that lasts changes nothing. -/
theorem start_of_since {since : Nat} (h : s.since = some since) :
    start lag settings s t now = (s, t) := by
  simp [start, h]

/-- A silence that begins is remembered, and its wait is timed unless there is none. -/
theorem start_of_none (h : s.since = none) :
    (start lag settings s t now).1.since = some now ∧
      (start lag settings s t now).2.deadline? (.fallback lag) =
        if settings.timeout = 0 then t.deadline? (.fallback lag)
        else some (now + settings.timeout) := by
  simp only [start, h]
  split
  · exact ⟨rfl, rfl⟩
  · simp

theorem deadline?_start_of_ne {key : TimerKey} (hkey : key ≠ .fallback lag) :
    (start lag settings s t now).2.deadline? key = t.deadline? key := by
  unfold start
  cases s.since with
  | some since => rfl
  | none =>
    simp only
    split
    · rfl
    · simp [hkey]

theorem wellFormed_start (h : t.WellFormed) : (start lag settings s t now).2.WellFormed := by
  unfold start
  cases s.since with
  | some since => exact h
  | none =>
    simp only
    split
    · exact h
    · exact h.arm _ _

/-- The timer of a silence that begins runs for the timeout. -/
theorem Timed.start (h : Timed now s (t.deadline? (.fallback lag)))
    (htimeout : settings.timeout ≤ longestTimeout) :
    Timed now (start lag settings s t now).1
      ((Fallback.start lag settings s t now).2.deadline? (.fallback lag)) := by
  unfold Fallback.start
  cases hsince : s.since with
  | some since => exact h
  | none =>
    have hnone : t.deadline? (.fallback lag) = none := by
      have harmed := h.armed
      simpa [hsince] using harmed
    have hactive : s.active = false := by
      refine Bool.eq_false_iff.mpr fun hactive => ?_
      simpa [hsince] using h.active hactive
    simp only
    split
    · exact ⟨by simp [activate], by simp [activate, hnone], by simp [hnone]⟩
    · next hpos =>
      refine ⟨by simp, by simp [hactive], ?_⟩
      intro d hd
      simp only [Timers.deadline?_arm, if_true, Clock.after_exact, Option.some.injEq] at hd
      omega

/-- One evaluation settles fallback. -/
theorem settled_evaluate :
    Settled settings members (evaluate lag settings members s t now).1
      ((evaluate lag settings members s t now).2.1.deadline? (.fallback lag)) := by
  cases hidle : isIdle settings members
  · simp only [Settled, hidle, Bool.false_eq_true, if_false, evaluate_not_idle hidle]
    exact start_since
  · simp [Settled, hidle, evaluate_idle hidle]

theorem deadline?_evaluate_of_ne {key : TimerKey} (hkey : key ≠ .fallback lag) :
    (evaluate lag settings members s t now).2.1.deadline? key = t.deadline? key := by
  cases hidle : isIdle settings members
  · rw [evaluate_not_idle hidle]
    exact deadline?_start_of_ne hkey
  · simp [evaluate_idle hidle, hkey]

theorem wellFormed_evaluate (h : t.WellFormed) :
    (evaluate lag settings members s t now).2.1.WellFormed := by
  cases hidle : isIdle settings members
  · rw [evaluate_not_idle hidle]
    exact wellFormed_start h
  · rw [evaluate_idle hidle]
    exact h.cancel _

theorem Timed.evaluate (h : Timed now s (t.deadline? (.fallback lag)))
    (htimeout : settings.timeout ≤ longestTimeout) :
    Timed now (evaluate lag settings members s t now).1
      ((Fallback.evaluate lag settings members s t now).2.1.deadline? (.fallback lag)) := by
  cases hidle : isIdle settings members
  · rw [evaluate_not_idle hidle]
    exact h.start htimeout
  · rw [evaluate_idle hidle]
    exact ⟨by simp, by simp, by simp⟩

/-- The clock moves and the timer is due at once, but it is not missed. -/
theorem Timed.later {now' : Nat} {due due' : Option Nat} (h : Timed now s due)
    (hsome : due'.isSome = due.isSome)
    (hdue : ∀ d, due' = some d → now' < d ∧ (d = now' + 1 ∨ due = some d)) (hnow : now ≤ now') :
    Timed now' s due' where
  active := h.active
  armed := by
    rw [hsome]
    exact h.armed
  due := by
    intro d hd
    obtain ⟨hlt, heq | hold⟩ := hdue d hd
    · have hpos : 1 ≤ longestTimeout := by decide
      omega
    · have hbound := (h.due d hold).2
      omega

/-- A timer that fires puts grants in force. -/
theorem Timed.activate {due : Option Nat} (h : Timed now s due) (harmed : due.isSome = true) :
    Timed now (activate s) none where
  active := by
    intro _
    rw [h.armed, Bool.and_eq_true] at harmed
    exact harmed.1
  armed := by simp [Fallback.activate]
  due := by simp

end LinkAggregation.Fallback
