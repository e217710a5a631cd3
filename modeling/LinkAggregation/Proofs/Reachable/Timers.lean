import LinkAggregation.Proofs.Engine.Request

/-!
# Timers of reachable engines

The state of an engine says which timers run and for how long at most. In every reachable engine
exactly these timers are armed, each with a deadline that is still to come and within its period.
A timer that is missing would leave a member stuck; one too many would fire into whoever takes the
slot next.
-/
namespace LinkAggregation

namespace Interface

/-- How long a side of a member is watched for churn, if it is. -/
def churnPeriod? (i : Interface) (s : LagSettings) (side : Churn.Side) : Option Nat :=
  if i.isEnabled && i.protocol.selection.isSelected && s.mode.isDynamic &&
      !side.inSync i.protocol && !side.flag i.protocol then
    some Churn.detectionTime
  else none

/-- For how long a timer of a member may run, if the state of the member calls for it. -/
def period? (i : Interface) (s : LagSettings) : TimerKey → Option Nat
  | .periodic _ => Periodic.interval? i.protocol.periodic
  | .currentWhile _ =>
    match i.protocol.receive with
    | .expired => some Receive.shortTimeout
    | .current => some (if s.rate.isFast then Receive.shortTimeout else Receive.longTimeout)
    | _ => none
  | .waitWhile _ =>
    if i.protocol.mux = .waiting ∧ i.protocol.ready = false then some Mux.aggregateWait else none
  | .actorChurn _ => i.churnPeriod? s .actor
  | .partnerChurn _ => i.churnPeriod? s .partner
  | .fallback _ => none

end Interface

namespace Engine

/-- The member in a slot, with its LAG. -/
def member? (e : Engine) (slot : Nat) : Option (Interface × Lag) := do
  let i ← e.interfaces.get? slot
  let lag ← e.lags.get? (← i.lag)
  return (i, lag)

/-- For how long a timer may run, if the state of the engine calls for it. -/
def period? (e : Engine) : TimerKey → Option Nat
  | .fallback l =>
    (e.lags.get? l).bind fun lag =>
      if lag.fallback.since.isSome && !lag.fallback.active then some Fallback.longestTimeout
      else none
  | key => (e.member? key.slot).bind fun m => m.1.period? m.2.settings key

variable {e : Engine} {l slot : Nat} {lag : Lag} {i : Interface} {key : TimerKey}

/-! ## Timers of a member -/

theorem period?_of_member (hkey : key.interface? = some slot)
    (hi : e.interfaces.get? slot = some i) (hlag : i.lag = some l)
    (hl : e.lags.get? l = some lag) : e.period? key = i.period? lag.settings key := by
  cases key
  case fallback => simp [TimerKey.interface?] at hkey
  all_goals
    obtain rfl := Option.some.inj hkey
    simp [period?, member?, TimerKey.slot, hi, hlag, hl]

theorem period?_outside (hkey : key.interface? = some slot) (hslot : ∀ l, ¬ e.IsMember l slot) :
    e.period? key = none := by
  have hmember : e.member? slot = none := by
    cases hi : e.interfaces.get? slot with
    | none => simp [member?, hi]
    | some i =>
      cases hlag : i.lag with
      | none => simp [member?, hi, hlag]
      | some l => exact absurd ⟨i, hi, hlag⟩ (hslot l)
  cases key
  case fallback => simp [TimerKey.interface?] at hkey
  all_goals
    obtain rfl := Option.some.inj hkey
    simp [period?, TimerKey.slot, hmember]

section
variable (h : e.Stable) (hi : e.interfaces.get? slot = some i) (hlag : i.lag = some l)
  (hl : e.lags.get? l = some lag)
include h hi hlag hl

/-- A side of a member is timed exactly while it is watched and not flagged. -/
theorem Coherent.isSome_deadline?_churn (side : Churn.Side) :
    (e.timers.deadline? (side.timer slot)).isSome = (i.churnPeriod? lag.settings side).isSome := by
  have hsound := h.sound_member hi hlag hl
  have hchurn := hsound.timed.churn side
  cases hdynamic : lag.settings.mode.isDynamic with
  | false =>
    have hidle : (e.timers.deadline? (side.timer slot)).isSome = false := by
      refine Bool.eq_false_iff.mpr fun harmed => ?_
      obtain ⟨d, hd⟩ := Option.isSome_iff_exists.mp harmed
      have htrue := (hchurn d hd).2.1
      simp [hdynamic] at htrue
    rw [hidle]
    simp [Interface.churnPeriod?, hdynamic]
  | true =>
    have hside := (h.settled_member hi hlag hl).churn hdynamic side
    have hrunning : i.isEnabled = true → i.protocol.receive.isRunning = true := fun henabled =>
      hsound.follows.running henabled hdynamic
    cases hsuspect : Churn.isSuspect i.isEnabled side i.protocol with
    | false =>
      rw [Churn.SideSettled, hsuspect, if_neg Bool.false_ne_true] at hside
      have hnone : e.timers.deadline? (side.timer slot) = none :=
        Timers.isArmed_eq_false_iff.mp hside.2
      have hperiod : i.churnPeriod? lag.settings side = none := by
        unfold Interface.churnPeriod?
        refine if_neg fun hcalled => ?_
        simp only [Bool.and_eq_true] at hcalled
        obtain ⟨⟨⟨⟨henabled, hselected⟩, -⟩, hsync⟩, -⟩ := hcalled
        simp [Churn.isSuspect, Churn.isWatched, henabled, hselected, hsync,
          hrunning henabled] at hsuspect
      rw [hnone, hperiod]
    | true =>
      rw [Churn.SideSettled, hsuspect, if_pos rfl] at hside
      simp only [Churn.isSuspect, Churn.isWatched, Bool.and_eq_true] at hsuspect
      obtain ⟨⟨⟨henabled, hselected⟩, -⟩, hsync⟩ := hsuspect
      cases hflag : side.flag i.protocol with
      | false =>
        have harmed : (e.timers.deadline? (side.timer slot)).isSome = true :=
          hside.resolve_left (by simp [hflag])
        simp [harmed, Interface.churnPeriod?, henabled, hselected, hdynamic, hsync, hflag]
      | true =>
        have hidle : (e.timers.deadline? (side.timer slot)).isSome = false := by
          refine Bool.eq_false_iff.mpr fun harmed => ?_
          obtain ⟨d, hd⟩ := Option.isSome_iff_exists.mp harmed
          have hfalse := (hchurn d hd).1
          simp [hflag] at hfalse
        rw [hidle]
        simp [Interface.churnPeriod?, hflag]

/-- Exactly those timers of a member are armed that its state calls for. -/
theorem Coherent.isSome_deadline?_member (hkey : key.interface? = some slot) :
    (e.timers.deadline? key).isSome = (i.period? lag.settings key).isSome := by
  have htimed := (h.sound_member hi hlag hl).timed
  cases key with
  | periodic slot' =>
    obtain rfl : slot' = slot := Option.some.inj hkey
    rw [htimed.paced.armed, Interface.period?, Evaluation.isSome_interval?]
  | currentWhile slot' =>
    obtain rfl : slot' = slot := Option.some.inj hkey
    rw [htimed.heard, Interface.period?]
    cases i.protocol.receive <;> rfl
  | waitWhile slot' =>
    obtain rfl : slot' = slot := Option.some.inj hkey
    have hmux := (h.settled_member hi hlag hl).mux
    have hiff := htimed.waits.armed_iff hmux fun hexcused => hexcused.1.elim
    rw [Interface.period?, Bool.eq_iff_iff, hiff]
    split
    · next hwaiting => simp [hwaiting]
    · next hnot => simpa using hnot
  | actorChurn slot' =>
    obtain rfl : slot' = slot := Option.some.inj hkey
    exact h.isSome_deadline?_churn hi hlag hl .actor
  | partnerChurn slot' =>
    obtain rfl : slot' = slot := Option.some.inj hkey
    exact h.isSome_deadline?_churn hi hlag hl .partner
  | fallback lag => simp [TimerKey.interface?] at hkey

/-- A timer of a member is due within its period. -/
theorem Coherent.deadline_le_member (hkey : key.interface? = some slot) {d period : Nat}
    (hd : e.timers.deadline? key = some d) (hperiod : i.period? lag.settings key = some period) :
    d ≤ e.now + period := by
  have htimed := (h.sound_member hi hlag hl).timed
  have hchurn : ∀ side : Churn.Side, e.timers.deadline? (side.timer slot) = some d →
      i.churnPeriod? lag.settings side = some period → d ≤ e.now + period := by
    intro side hd hperiod
    have hbound := (htimed.churn side d hd).2.2.2
    unfold Interface.churnPeriod? at hperiod
    split at hperiod
    · rwa [← Option.some.inj hperiod]
    · simp at hperiod
  cases key with
  | periodic slot' =>
    obtain rfl : slot' = slot := Option.some.inj hkey
    have hbound := (htimed.paced.due d hd).2
    rw [Interface.period?] at hperiod
    rwa [hperiod] at hbound
  | currentWhile slot' =>
    obtain rfl : slot' = slot := Option.some.inj hkey
    have hbound := (htimed.patience d hd).2
    cases hreceive : i.protocol.receive <;>
      simp only [Interface.period?, hreceive, Option.some.injEq, reduceCtorEq] at hperiod
    · rw [hreceive] at hbound
      rwa [← hperiod]
    · rw [hreceive] at hbound
      rwa [← hperiod]
  | waitWhile slot' =>
    obtain rfl : slot' = slot := Option.some.inj hkey
    have hbound := (htimed.waits.due d hd).2
    rw [Interface.period?] at hperiod
    split at hperiod
    · rwa [← Option.some.inj hperiod]
    · simp at hperiod
  | actorChurn slot' =>
    obtain rfl : slot' = slot := Option.some.inj hkey
    exact hchurn .actor hd hperiod
  | partnerChurn slot' =>
    obtain rfl : slot' = slot := Option.some.inj hkey
    exact hchurn .partner hd hperiod
  | fallback lag => simp [TimerKey.interface?] at hkey

end

/-! ## All timers -/

/-- The timers match the state of the engine. -/
structure Punctual (e : Engine) : Prop where
  /-- Exactly the timers that the state calls for are armed. -/
  armed : ∀ key, (e.timers.deadline? key).isSome = (e.period? key).isSome
  /-- Every deadline is still to come, and comes within the period of its timer. -/
  due : ∀ key d period, e.timers.deadline? key = some d → e.period? key = some period →
    e.now < d ∧ d ≤ e.now + period
  /-- Free slots and interfaces outside all LAGs have no timers. -/
  unowned : ∀ key, (∀ l, (e.lags.get? l).isSome = true → ¬ e.Owns l key) →
    e.timers.deadline? key = none
  /-- A clock that stands still has no effect and leaves everything as it is. -/
  still : ∀ time ≤ e.now, (e.advanceTo time).2 = [] ∧
    (e.advanceTo time).1 = { e with timers := (e.advanceTo time).1.timers } ∧
    ∀ key, (e.advanceTo time).1.timers.deadline? key = e.timers.deadline? key

section
variable (h : e.Stable)
include h

theorem Coherent.isSome_deadline? (key : TimerKey) :
    (e.timers.deadline? key).isSome = (e.period? key).isSome := by
  cases hkey : key.interface? with
  | some slot =>
    by_cases hmember : ∃ l, e.IsMember l slot
    · obtain ⟨l, i, hi, hlag⟩ := hmember
      obtain ⟨lag, hl, -⟩ := h.lag_of_member hi hlag
      rw [period?_of_member hkey hi hlag hl]
      exact h.isSome_deadline?_member hi hlag hl hkey
    · have houtside : ∀ l, ¬ e.IsMember l slot := fun l hl => hmember ⟨l, hl⟩
      have hnone := h.due_outside houtside hkey
      rw [due_nil] at hnone
      rw [hnone, period?_outside hkey houtside]
  | none =>
    cases key
    case fallback l =>
      cases hl : e.lags.get? l with
      | none =>
        have hidle : (e.timers.deadline? (.fallback l)).isSome = false := by
          refine Bool.eq_false_iff.mpr fun harmed => ?_
          obtain ⟨k, hlive, howns⟩ := h.owned (.fallback l) (by rwa [due_nil])
          have hkl : l = k := howns.unique (.inl rfl)
          simp [← hkl, hl] at hlive
        rw [hidle, period?, hl]
        rfl
      | some lag =>
        have harmed := (h.sound l lag hl).fallback.armed
        rw [due_nil] at harmed
        rw [harmed, period?, hl, Option.bind_some]
        split
        · next hcalled => exact hcalled
        · next hnot => simpa using hnot
    all_goals simp [TimerKey.interface?] at hkey

theorem Coherent.deadline_le {d period : Nat} (hd : e.timers.deadline? key = some d)
    (hperiod : e.period? key = some period) : d ≤ e.now + period := by
  obtain ⟨l, hlive, howns⟩ := h.owned key (by rw [due_nil, hd]; rfl)
  obtain ⟨lag, hl⟩ := Option.isSome_iff_exists.mp hlive
  obtain rfl | ⟨slot, hkey, i, hi, hlag⟩ := howns
  · have hbound := (h.sound l lag hl).fallback.due
    rw [due_nil] at hbound
    rw [period?, hl, Option.bind_some] at hperiod
    split at hperiod
    · rw [← Option.some.inj hperiod]
      exact (hbound d hd).2
    · simp at hperiod
  · rw [period?_of_member hkey hi hlag hl] at hperiod
    exact h.deadline_le_member hi hlag hl hkey hd hperiod

/-- Nothing is due before the clock moves. -/
theorem Coherent.expired_now : (e.timers.expired e.now).1 = [] := by
  refine List.eq_nil_iff_forall_not_mem.mpr fun key hfires => ?_
  obtain ⟨d, hd, hle⟩ := (Timers.mem_expired h.timers e.now key).mp hfires
  have hlt := h.lt_deadline hd
  omega

theorem Coherent.deadline?_expired_now (key : TimerKey) :
    (e.timers.expired e.now).2.deadline? key = e.timers.deadline? key := by
  rw [Timers.deadline?_expired h.timers]
  cases hd : e.timers.deadline? key with
  | none => rfl
  | some d =>
    have hlt := h.lt_deadline hd
    simp [Option.filter, hlt]

theorem Coherent.advanceTo_of_le {time : Nat} (htime : time ≤ e.now) :
    e.advanceTo time = ({ e with timers := (e.timers.expired e.now).2 }, []) := by
  have hnow : max e.now time = e.now := by omega
  rw [advanceTo_eq, hnow, h.expired_now]
  rfl

theorem Coherent.punctual : e.Punctual where
  armed := h.isSome_deadline?
  due := fun _ _ _ hd hperiod => ⟨h.lt_deadline hd, h.deadline_le hd hperiod⟩
  unowned := by
    intro key hunowned
    have hidle : (e.timers.deadline? key).isSome = false := by
      refine Bool.eq_false_iff.mpr fun harmed => ?_
      obtain ⟨l, hlive, howns⟩ := h.owned key (by rwa [due_nil])
      exact hunowned l hlive howns
    simpa using hidle
  still := by
    intro time htime
    rw [h.advanceTo_of_le htime]
    exact ⟨rfl, rfl, h.deadline?_expired_now⟩

end

/-- Whatever has been asked of an engine, its timers match its state. -/
theorem punctual_reached (system : SystemIdentity) (maxMembers : Nat) (connected : Bool)
    (requests : List Request) : (reached system maxMembers connected requests).Punctual :=
  (stable_reached system maxMembers connected requests).punctual

end Engine
end LinkAggregation
