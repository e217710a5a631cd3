import LinkAggregation.Proofs.Engine.Pace

/-!
# The wait of a silent LAG

A LAG is silent while it wants fallback and all its enabled members hear nothing. The wait for
grants begins in an evaluation, and the timer is armed there for the fallback timeout of that
moment. Other moves leave both alone until the LAG goes, and an evaluation does as long as the
silence lasts.
-/
namespace LinkAggregation.Engine

/-- When a LAG fell silent, and its fallback timeout at that time, in milliseconds. -/
structure Silence where
  since : Nat
  timeout : Nat
  deriving DecidableEq, Repr

/-- The LAG is dynamic and has fallback, some member is enabled, and all that are hear nothing. -/
def isSilent (e : Engine) (l : Nat) : Bool :=
  (e.lags.get? l).any fun lag => lag.isDynamic && lag.settings.fallback &&
    lag.members.any (fun slot => (e.interfaces.get? slot).any (·.isEnabled)) &&
    lag.members.all fun slot => (e.interfaces.get? slot).all fun i =>
      !i.isEnabled || i.protocol.receive == .defaulted

/-- The LAG bides a silence: it remembers when this began, and its timer runs out with the wait. -/
structure Bides (e : Engine) (l : Nat) (q : Silence) : Prop where
  since : ∃ lag, e.lags.get? l = some lag ∧ lag.fallback.since = some q.since
  armed : ∀ d, e.timers.deadline? (.fallback l) = some d → d = q.since + q.timeout
  elapsed : e.timers.deadline? (.fallback l) = none → q.since + q.timeout ≤ e.now

/-- The LAG remembers no silence and waits for no grants. -/
structure Rests (e : Engine) (l : Nat) : Prop where
  since : ∀ lag, e.lags.get? l = some lag → lag.fallback.since = none
  idle : e.timers.deadline? (.fallback l) = none

variable {e e' : Engine} {c : Kind} {s : Step} {l k slot : Nat} {lag : Lag} {i : Interface}
  {q : Silence}

/-! ## Moves that evaluate nothing -/

/-- Nothing of the silence of a LAG changes, unless the LAG comes or goes. -/
structure LeavesSilence (e : Engine) (l : Nat) (e' : Engine) : Prop where
  since : ∀ lag lag', e.lags.get? l = some lag → e'.lags.get? l = some lag' →
    lag'.fallback.since = lag.fallback.since
  came : ∀ lag', e.lags.get? l = none → e'.lags.get? l = some lag' → lag'.fallback = {}
  timer : ∀ d, e'.timers.deadline? (.fallback l) = some d →
    e.timers.deadline? (.fallback l) = some d
  elapsed : ∀ d, (e'.lags.get? l).isSome = true → e.timers.deadline? (.fallback l) = some d →
    e'.timers.deadline? (.fallback l) = none → d ≤ e'.now
  now : e.now ≤ e'.now

namespace LeavesSilence

/-- The LAG and its timer stay as they are, but for what has no bearing on fallback. -/
theorem of_map {f : Lag → Lag} (hf : ∀ lag, (f lag).fallback.since = lag.fallback.since)
    (hlags : e'.lags.get? l = e.lags.get? l ∨ e'.lags.get? l = (e.lags.get? l).map f)
    (htimer : e'.timers.deadline? (.fallback l) = e.timers.deadline? (.fallback l))
    (hnow : e'.now = e.now) : e.LeavesSilence l e' where
  since := by
    intro lag lag' hl hl'
    obtain hsame | hmap := hlags
    · rw [hsame, hl, Option.some.injEq] at hl'
      rw [hl']
    · rw [hmap, hl, Option.map_some, Option.some.injEq] at hl'
      rw [← hl', hf]
  came := by
    intro lag' hl hl'
    obtain hsame | hmap := hlags
    · simp [hsame, hl] at hl'
    · simp [hmap, hl] at hl'
  timer := fun d hd => htimer.symm.trans hd
  elapsed := by
    intro d _ hd hnone
    rw [htimer, hd] at hnone
    simp at hnone
  now := Nat.le_of_eq hnow.symm

theorem of_same (hlags : e'.lags = e.lags)
    (htimer : e'.timers.deadline? (.fallback l) = e.timers.deadline? (.fallback l))
    (hnow : e'.now = e.now) : e.LeavesSilence l e' :=
  of_map (f := id) (fun _ => rfl) (.inl (by rw [hlags])) htimer hnow

theorem of_modify {f : Lag → Lag} (hf : ∀ lag, (f lag).fallback.since = lag.fallback.since)
    (hlags : e'.lags = e.lags.modify k f)
    (htimer : e'.timers.deadline? (.fallback l) = e.timers.deadline? (.fallback l))
    (hnow : e'.now = e.now) : e.LeavesSilence l e' := by
  refine of_map hf ?_ htimer hnow
  rw [hlags, Arena.get?_modify]
  split
  · exact .inr rfl
  · exact .inl rfl

end LeavesSilence

/-- A shift leaves the silence of a LAG alone. -/
theorem Shift.leavesSilence (hs : Shift e c e') (h : e.Linked) (l : Nat) :
    e.LeavesSilence l e' := by
  have hkey : ∀ slot, (TimerKey.fallback l).interface? ≠ some slot := by simp [TimerKey.interface?]
  cases hs with
  | requeue hsame =>
    rw [hsame]
    exact .of_same rfl rfl rfl
  | @later now hnow ht =>
    have hexpired : (e.later now).timers.deadline? (.fallback l) = _ :=
      Timers.deadline?_expired ht now _
    refine ⟨fun lag lag' hl hl' => ?_, fun lag' hl hl' => ?_, fun d hd => ?_,
      fun d _ hd hnone => ?_, hnow⟩
    · rw [Option.some.inj (hl.symm.trans hl')]
    · have hnot : e.lags.get? l = some lag' := hl'
      simp [hl] at hnot
    · rw [hexpired] at hd
      exact (Option.filter_eq_some_iff.mp hd).1
    · have hlate : d ≤ now := by simpa [hexpired, hd] using hnone
      exact hlate
  | activate =>
    refine .of_modify ?_ rfl rfl rfl
    exact fun _ => rfl
  | turn hi hlag hl ht => exact .of_same rfl (ht.deadline?_of_ne (hkey _)) rfl
  | count => exact .of_same rfl rfl rfl
  | identify => exact .of_same rfl rfl rfl
  | @revise l' lag new f step hl hr hidle =>
    have hrevised := hr.revised h hl
    refine .of_modify ?_ hrevised.lags (hrevised.timers _ fun slot _ => hkey slot)
      hrevised.within.now
    exact fun _ => rfl
  | @found name key settings hkey hname =>
    have hget : ∀ k, k ≠ e.lags.freeSlot →
        (e.lags.insert name { name, key, settings }).get? k = e.lags.get? k :=
      fun k => Arena.get?_insert_of_ne _ _
    refine ⟨fun lag lag' hl hl' => ?_, fun lag' hl hl' => ?_, fun d hd => hd,
      fun d _ hd hnone => ?_, Nat.le_refl _⟩
    · have hslot : l ≠ e.lags.freeSlot := by
        rintro rfl
        rw [Arena.get?_freeSlot] at hl
        simp at hl
      have hsame : e.lags.get? l = some lag' := (hget l hslot).symm.trans hl'
      rw [Option.some.inj (hl.symm.trans hsame)]
    · by_cases hslot : l = e.lags.freeSlot
      · subst hslot
        obtain rfl := Option.some.inj ((Arena.get?_insert_freeSlot _ _ _).symm.trans hl')
        rfl
      · have hsame : e.lags.get? l = some lag' := (hget l hslot).symm.trans hl'
        simp [hl] at hsame
    · have hsame : e.timers.deadline? (.fallback l) = none := hnone
      simp [hd] at hsame
  | meet => exact .of_same rfl rfl rfl
  | report => exact .of_same rfl rfl rfl
  | forget => exact .of_same rfl (by simp [TimerKey.interface?]) rfl
  | join =>
    refine .of_modify ?_ rfl (Receive.deadline?_sync_of_ne (hkey _)) rfl
    exact fun _ => rfl

/-- So does every other move that evaluates nothing. -/
theorem Move.leavesSilence (hm : Move e c s) (h : e.Linked) (hc : c ≠ .evaluation) (l : Nat) :
    e.LeavesSilence l s.1 := by
  cases hm with
  | shift hs => exact hs.leavesSilence h l
  | answer => exact .of_same rfl rfl rfl
  | @dissolve k lag name hname hl hempty hpublished =>
    by_cases hk : k = l
    · subst hk
      refine ⟨fun lag lag' _ hl' => ?_, fun lag' _ hl' => ?_, fun d hd => ?_,
        fun d hlive => ?_, Nat.le_refl _⟩
      · simp at hl'
      · simp at hl'
      · simp at hd
      · simp at hlive
    · refine .of_map (f := id) (fun _ => rfl) (.inl ?_) ?_ rfl
      · dsimp only
        rw [Arena.get?_remove, if_neg hk]
      · simp [Ne.symm hk]
  | leave hi hlag =>
    refine .of_modify ?_ rfl ?_ rfl
    · exact fun _ => rfl
    · simp [exchange, put, freed, TimerKey.interface?]
  | evaluate => exact absurd rfl hc

/-- What is not affected is bided on, as long as the LAG lives. -/
theorem Bides.leave (hb : e.Bides l q) (hs : e.LeavesSilence l e')
    (hlive : (e'.lags.get? l).isSome = true) : e'.Bides l q where
  since := by
    obtain ⟨lag, hl, hsince⟩ := hb.since
    obtain ⟨lag', hl'⟩ := Option.isSome_iff_exists.mp hlive
    exact ⟨lag', hl', (hs.since lag lag' hl hl').trans hsince⟩
  armed := fun d hd => hb.armed d (hs.timer d hd)
  elapsed := by
    intro hnone
    cases hd : e.timers.deadline? (.fallback l) with
    | none => exact Nat.le_trans (hb.elapsed hd) hs.now
    | some d => exact hb.armed d hd ▸ hs.elapsed d hlive hd hnone

theorem Rests.leave (hr : e.Rests l) (hs : e.LeavesSilence l e') : e'.Rests l where
  since := by
    intro lag' hl'
    cases hl : e.lags.get? l with
    | none => rw [hs.came lag' hl hl']
    | some lag => rw [hs.since lag lag' hl hl', hr.since lag hl]
  idle := by
    refine Option.eq_none_iff_forall_ne_some.mpr fun d hd => ?_
    have hold := hs.timer d hd
    simp [hr.idle] at hold

/-! ## LAGs that come and go -/

/-- A move changes at most one LAG, or founds or dissolves one. -/
theorem Move.lags_cases (hm : Move e c s) (h : e.Linked) :
    (∃ l f, s.1.lags = e.lags.modify l f) ∨
      (c = .founding ∧ ∃ name lag, s.1.lags = e.lags.insert name lag) ∨
      c = .dissolution ∧ ∃ name l, s.1.lags = e.lags.remove name l := by
  have hsame : ∃ l f, e.lags = e.lags.modify l f :=
    ⟨0, id, (Arena.modify_eq_self fun _ _ => rfl).symm⟩
  cases hm with
  | shift hs =>
    cases hs with
    | requeue hsame' => exact .inl (by rw [hsame']; exact hsame)
    | activate => exact .inl ⟨_, _, rfl⟩
    | revise hl hr => exact .inl ⟨_, _, (hr.revised h hl).lags⟩
    | found => exact .inr (.inl ⟨rfl, _, _, rfl⟩)
    | join => exact .inl ⟨_, _, rfl⟩
    | _ => exact .inl hsame
  | answer => exact .inl hsame
  | dissolve => exact .inr (.inr ⟨rfl, _, _, rfl⟩)
  | leave => exact .inl ⟨_, _, rfl⟩
  | evaluate l =>
    cases hl : e.lags.get? l with
    | none => exact .inl (by rw [evaluate_of_not_live hl]; exact hsame)
    | some lag => exact .inl ⟨_, _, evaluate_lags hl⟩

theorem isSome_get?_modify (k : Nat) (f : Lag → Lag) (l : Nat) :
    ((e.lags.modify k f).get? l).isSome = (e.lags.get? l).isSome := by
  rw [Arena.get?_modify]
  split <;> simp

/-- Only founding brings a LAG to life. -/
theorem Move.live_before (hm : Move e c s) (h : e.Linked) (hc : c ≠ .founding)
    (hlive : (s.1.lags.get? l).isSome = true) : (e.lags.get? l).isSome = true := by
  obtain ⟨k, f, hlags⟩ | ⟨hfounding, -⟩ | ⟨-, name, k, hlags⟩ := hm.lags_cases h
  · rwa [hlags, isSome_get?_modify] at hlive
  · exact absurd hfounding hc
  · rw [hlags, Arena.get?_remove] at hlive
    split at hlive
    · simp at hlive
    · exact hlive

/-- Only dissolution ends the life of a LAG. -/
theorem Move.live_after (hm : Move e c s) (h : e.Linked) (hc : c ≠ .dissolution)
    (hlive : (e.lags.get? l).isSome = true) : (s.1.lags.get? l).isSome = true := by
  obtain ⟨k, f, hlags⟩ | ⟨-, name, lag, hlags⟩ | ⟨hdissolution, -⟩ := hm.lags_cases h
  · rwa [hlags, isSome_get?_modify]
  · have hslot : l ≠ e.lags.freeSlot := by
      rintro rfl
      simp [Arena.get?_freeSlot] at hlive
    rwa [hlags, Arena.get?_insert_of_ne _ _ hslot]
  · exact absurd hdissolution hc

section
variable {allowed : Kind → Prop}

theorem Course.live_before (hc : e.Course allowed s) (hfounding : ¬ allowed .founding)
    (hlive : (s.1.lags.get? l).isSome = true) : (e.lags.get? l).isSome = true := by
  induction hc with
  | refl => exact hlive
  | step h hc hm _ ih => exact hm.live_before h (fun heq => hfounding (heq ▸ hc)) (ih hlive)

/-- A course without evaluations that does not both found and dissolve LAGs leaves silences
alone. -/
theorem Course.bides (hc : e.Course allowed s) (hevaluation : ¬ allowed .evaluation)
    (hlife : ¬ allowed .founding ∨ ¬ allowed .dissolution) (hb : e.Bides l q)
    (hlive : (s.1.lags.get? l).isSome = true) : s.1.Bides l q := by
  induction hc with
  | refl => exact hb
  | step h hc hm hrest ih =>
    refine ih (hb.leave (hm.leavesSilence h (fun heq => hevaluation (heq ▸ hc)) l) ?_) hlive
    obtain hfounding | hdissolution := hlife
    · exact hrest.live_before hfounding hlive
    · obtain ⟨lag, hl, -⟩ := hb.since
      exact hm.live_after h (fun heq => hdissolution (heq ▸ hc)) (by rw [hl]; rfl)

theorem Course.rests (hc : e.Course allowed s) (hevaluation : ¬ allowed .evaluation)
    (hr : e.Rests l) : s.1.Rests l := by
  induction hc with
  | refl => exact hr
  | step h hc hm _ ih =>
    exact ih (hr.leave (hm.leavesSilence h (fun heq => hevaluation (heq ▸ hc)) l))

end

/-! ## Evaluations -/

theorem any_members (lag : Lag) (p : Interface → Bool) :
    (e.members lag).any (fun m => p m.2) =
      lag.members.any fun slot => (e.interfaces.get? slot).any p := by
  rw [members, List.any_filterMap]
  congr 1
  funext slot
  cases e.interfaces.get? slot <;> rfl

theorem all_members (lag : Lag) (p : Interface → Bool) :
    (e.members lag).all (fun m => p m.2) =
      lag.members.all fun slot => (e.interfaces.get? slot).all p := by
  rw [members, List.all_filterMap]
  congr 1
  funext slot
  cases e.interfaces.get? slot <;> rfl

/-- Fallback is called for exactly while the LAG is silent. -/
theorem isSilent_eq (hl : e.lags.get? l = some lag) :
    e.isSilent l = !Fallback.isIdle lag.settings.fallbackSettings (e.fallbackMembers lag) := by
  have hany := e.any_members lag (·.isEnabled)
  have hall := e.all_members lag fun i => !i.isEnabled || i.protocol.receive == .defaulted
  have henabled : lag.settings.fallbackSettings.enabled =
      (lag.isDynamic && lag.settings.fallback) := rfl
  simp only [isSilent, hl, Option.any_some, ← hany, ← hall, Fallback.isIdle, Fallback.allDefaulted,
    fallbackMembers, List.any_map, List.all_map, Bool.not_or, Bool.not_not, Bool.and_assoc,
    henabled]
  rfl

/-- An evaluation makes no LAG silent and ends no silence. -/
theorem Linked.isSilent_evaluate (h : e.Linked) (k l : Nat) :
    (e.evaluate k).1.isSilent l = e.isSilent l := by
  cases hk : e.lags.get? k with
  | none => rw [evaluate_of_not_live hk]
  | some lag =>
    let view (i : Interface) : Bool × ReceiveState := (i.isEnabled, i.protocol.receive)
    have hview : ∀ slot, ((e.evaluate k).1.interfaces.get? slot).map view =
        (e.interfaces.get? slot).map view := by
      intro slot
      by_cases hslot : slot ∈ lag.members
      · rw [get?_evaluate hk (h.nodup k lag hk) hslot, Option.map_map]
        refine Option.map_congr fun i _ => ?_
        simp [view, after, regrant]
      · rw [get?_evaluate_of_not_mem hk hslot]
    have hany : ∀ slot, ((e.evaluate k).1.interfaces.get? slot).any (·.isEnabled) =
        (e.interfaces.get? slot).any (·.isEnabled) := fun slot => by
      simpa only [Option.any_map] using congrArg (Option.any (·.1)) (hview slot)
    have hall : ∀ slot, ((e.evaluate k).1.interfaces.get? slot).all
        (fun i => !i.isEnabled || i.protocol.receive == .defaulted) =
        (e.interfaces.get? slot).all fun i =>
          !i.isEnabled || i.protocol.receive == .defaulted := fun slot => by
      simpa only [Option.all_map] using
        congrArg (Option.all fun v => !v.1 || v.2 == .defaulted) (hview slot)
    rw [isSilent, isSilent, evaluate_lags hk, Arena.get?_modify]
    simp only [hany, hall]
    split
    · rw [Option.any_map]
      rfl
    · rfl

/-- The silence that begins now, if one does. -/
def silenceNow (e : Engine) (l : Nat) : Silence :=
  ⟨e.now, ((e.lags.get? l).map (·.settings.fallbackTimeoutMs)).getD 0⟩

theorem silenceNow_eq (hl : e.lags.get? l = some lag) :
    e.silenceNow l = ⟨e.now, lag.settings.fallbackTimeoutMs⟩ := by
  rw [silenceNow, hl]
  rfl

theorem Linked.silenceNow_evaluate (h : e.Linked) (k l : Nat) :
    (e.evaluate k).1.silenceNow l = e.silenceNow l := by
  cases hk : e.lags.get? k with
  | none => rw [evaluate_of_not_live hk]
  | some lag =>
    rw [silenceNow, silenceNow, (h.within_evaluate k).now, evaluate_lags hk, Arena.get?_modify]
    split
    · rw [Option.map_map]
      rfl
    · rfl

/-- An evaluation of another LAG leaves the silence alone. -/
theorem leavesSilence_evaluate (h : e.Linked) (hk : k ≠ l) :
    e.LeavesSilence l (e.evaluate k).1 := by
  cases hlag : e.lags.get? k with
  | none =>
    rw [evaluate_of_not_live hlag]
    exact .of_same rfl rfl rfl
  | some lag =>
    refine .of_map (f := id) (fun _ => rfl) (.inl ?_) ?_ (h.within_evaluate k).now
    · rw [evaluate_lags hlag, Arena.get?_modify, if_neg hk]
    · refine deadline?_evaluate_of_ne hlag ?_ fun slot _ => by simp [TimerKey.interface?]
      simpa using Ne.symm hk

/-- The LAG that is evaluated has its fallback from the evaluation. -/
theorem get?_lags_evaluate_self (hl : e.lags.get? l = some lag) :
    (e.evaluate l).1.lags.get? l = some (e.lagAfter l lag) := by
  rw [evaluate_lags hl, Arena.get?_modify, if_pos rfl, hl]
  rfl

section
variable (hl : e.lags.get? l = some lag) (hsilent : e.isSilent l = true)
include hl hsilent

theorem isIdle_of_isSilent :
    Fallback.isIdle lag.settings.fallbackSettings (e.fallbackMembers lag) = false := by
  simpa [isSilent_eq hl] using hsilent

/-- Fallback goes on while the LAG is silent. -/
theorem fallbackStep_of_since {since : Nat} (hsince : lag.fallback.since = some since) :
    (e.fallbackStep l lag).1 = lag.fallback ∧ (e.fallbackStep l lag).2.1 = e.timers := by
  rw [fallbackStep, Fallback.evaluate_not_idle (isIdle_of_isSilent hl hsilent),
    Fallback.start_of_since hsince]
  exact ⟨rfl, rfl⟩

/-- Fallback starts when the LAG has fallen silent. -/
theorem fallbackStep_of_none (hsince : lag.fallback.since = none) :
    (e.fallbackStep l lag).1.since = some e.now ∧
      (e.fallbackStep l lag).2.1.deadline? (.fallback l) =
        if lag.settings.fallbackTimeoutMs = 0 then e.timers.deadline? (.fallback l)
        else some (e.now + lag.settings.fallbackTimeoutMs) := by
  rw [fallbackStep, Fallback.evaluate_not_idle (isIdle_of_isSilent hl hsilent)]
  exact Fallback.start_of_none hsince

end

/-- A silence that lasts is bided on through an evaluation. -/
theorem Bides.evaluate (hb : e.Bides l q) (h : e.Linked) (hsilent : e.isSilent l = true) (k : Nat) :
    (e.evaluate k).1.Bides l q := by
  obtain ⟨lag, hl, hsince⟩ := hb.since
  by_cases hk : k = l
  · subst hk
    obtain ⟨hsame, htimers⟩ := fallbackStep_of_since hl hsilent hsince
    have htimer := deadline?_evaluate_fallback hl
    rw [htimers] at htimer
    refine ⟨⟨_, get?_lags_evaluate_self hl, ?_⟩, fun d hd => hb.armed d (htimer ▸ hd),
      fun hnone => ?_⟩
    · rw [lagAfter, hsame]
      exact hsince
    · rw [(h.within_evaluate k).now]
      exact hb.elapsed (htimer ▸ hnone)
  · refine hb.leave (leavesSilence_evaluate h hk) ?_
    exact (Move.evaluate k).live_after h (by simp) (by rw [hl]; rfl)

/-- A LAG that is silent lives. -/
theorem live_of_isSilent (hsilent : e.isSilent l = true) : ∃ lag, e.lags.get? l = some lag := by
  cases hl : e.lags.get? l with
  | none => simp [isSilent, hl] at hsilent
  | some lag => exact ⟨lag, rfl⟩

/-- A silence begins in the evaluation of its LAG. -/
theorem Rests.evaluate (hr : e.Rests l) (h : e.Linked) (hsilent : e.isSilent l = true) (k : Nat) :
    (e.evaluate k).1.Rests l ∨ (e.evaluate k).1.Bides l (e.silenceNow l) := by
  by_cases hk : k = l
  · subst hk
    obtain ⟨lag, hl⟩ := live_of_isSilent hsilent
    obtain ⟨hsince, hstart⟩ := fallbackStep_of_none hl hsilent (hr.since lag hl)
    have htimer := deadline?_evaluate_fallback hl
    rw [hstart, hr.idle] at htimer
    rw [silenceNow_eq hl]
    refine .inr ⟨⟨_, get?_lags_evaluate_self hl, hsince⟩, fun d hd => ?_, fun hnone => ?_⟩
    · rw [htimer] at hd
      split at hd
      · simp at hd
      · exact (Option.some.inj hd).symm
    · rw [htimer] at hnone
      rw [(h.within_evaluate k).now]
      split at hnone
      · next hzero => simp [hzero]
      · simp at hnone
  · exact .inl (hr.leave (leavesSilence_evaluate h hk))

/-! ## Operations -/

theorem Turn.ne_evaluation {settings : LagSettings} {now : Nat} {t : Timers}
    {r : Interface × Timers} (ht : Turn settings now slot i t c r) : c ≠ .evaluation := by
  cases ht <;> simp

/-- Nothing but an evaluation is one. -/
theorem Move.eq_evaluate (hm : Move e c s) (hc : c = .evaluation) : ∃ k, s = e.evaluate k := by
  cases hm with
  | evaluate k => exact ⟨k, rfl⟩
  | shift hs =>
    cases hs with
    | turn hi hlag hl ht => exact absurd hc ht.ne_evaluation
    | _ => simp at hc
  | _ => simp at hc

/-- Along evaluations nobody falls silent, no silence ends, and the time does not change. -/
theorem Course.isSilent_evaluations (hc : e.Evaluations s) (l : Nat) :
    s.1.isSilent l = e.isSilent l ∧ s.1.silenceNow l = e.silenceNow l := by
  induction hc with
  | refl => exact ⟨rfl, rfl⟩
  | step h hc hm _ ih =>
    obtain ⟨k, rfl⟩ := hm.eq_evaluate hc
    rwa [h.isSilent_evaluate, h.silenceNow_evaluate] at ih

/-- A silence that lasts is bided on along evaluations. -/
theorem Course.bides_evaluations (hc : e.Evaluations s) (hb : e.Bides l q)
    (hsilent : e.isSilent l = true) : s.1.Bides l q := by
  induction hc with
  | refl => exact hb
  | step h hc hm _ ih =>
    obtain ⟨k, rfl⟩ := hm.eq_evaluate hc
    exact ih (hb.evaluate h hsilent k) ((h.isSilent_evaluate k l).trans hsilent)

/-- A silence begins along evaluations if its LAG is among them. -/
theorem Course.rests_evaluations (hc : e.Evaluations s) (hr : e.Rests l)
    (hsilent : e.isSilent l = true) : s.1.Rests l ∨ s.1.Bides l (e.silenceNow l) := by
  induction hc with
  | refl => exact .inl hr
  | step h hc hm hrest ih =>
    obtain ⟨k, rfl⟩ := hm.eq_evaluate hc
    have hsilent' := (h.isSilent_evaluate k l).trans hsilent
    obtain hrests | hbides := hr.evaluate h hsilent k
    · rw [← h.silenceNow_evaluate k l]
      exact ih hrests hsilent'
    · have hrest := bides_evaluations hrest hbides hsilent'
      exact .inr hrest

section
variable {allowed : Kind → Prop} (ho : e.Operation allowed s) (hevaluation : ¬ allowed .evaluation)
  (hsilent : s.1.isSilent l = true)
include ho hevaluation hsilent

/-- A silence that lasts is bided on through an operation. -/
theorem Operation.bides (hlife : ¬ allowed .founding ∨ ¬ allowed .dissolution)
    (hb : e.Bides l q) : s.1.Bides l q := by
  obtain ⟨s₁, s₂, hcourse, hevaluations, rfl⟩ := ho
  have hmiddle := (hevaluations.isSilent_evaluations l).1.symm.trans hsilent
  obtain ⟨lag, hl⟩ := live_of_isSilent hmiddle
  exact hevaluations.bides_evaluations (hcourse.bides hevaluation hlife hb (by rw [hl]; rfl))
    hmiddle

/-- A silence begins in an operation and is bided from there. -/
theorem Operation.rests (hr : e.Rests l) : s.1.Rests l ∨ s.1.Bides l (s.1.silenceNow l) := by
  obtain ⟨s₁, s₂, hcourse, hevaluations, rfl⟩ := ho
  obtain ⟨hsame, hnow⟩ := hevaluations.isSilent_evaluations l
  dsimp only
  rw [hnow]
  exact hevaluations.rests_evaluations (hcourse.rests hevaluation hr) (hsame.symm.trans hsilent)

end

end LinkAggregation.Engine
