import LinkAggregation.Engine.Clock
import LinkAggregation.Proofs.Engine.Configure

/-!
# The clock keeps the engine stable

The timers that are due fire one after the other before any LAG is evaluated. In between, those
that have yet to fire count as due at once, and the LAGs of all of them as changed: each firing
takes one timer off, and when the last one has fired the evaluations settle every LAG concerned.
-/
namespace LinkAggregation

/-! ## One timer of a member -/

namespace Interface
variable {i : Interface} {key : TimerKey} {t : Timers} {now slot : Nat}

/-- The firing of a timer concerns the protocol state and the counters. -/
theorem timerFired_keeps {α : Type} (f : Interface → α)
    (hf : ∀ i protocol counters, f { i with protocol, counters } = f i) :
    f (i.timerFired key t now).1 = f i := by
  cases key with
  | periodic slot =>
    simp only [timerFired]
    split
    · exact hf i _ i.counters
    · rfl
  | currentWhile slot => exact hf i _ i.counters
  | waitWhile slot => exact hf i _ i.counters
  | actorChurn slot => exact hf i _ _
  | partnerChurn slot => exact hf i _ _
  | fallback lag => rfl

theorem timerFired_name : (i.timerFired key t now).1.name = i.name :=
  timerFired_keeps name fun _ _ _ => rfl

theorem timerFired_lag : (i.timerFired key t now).1.lag = i.lag :=
  timerFired_keeps lag fun _ _ _ => rfl

/-- At most the timer that fired is armed anew. -/
theorem timerFired_timers :
    (i.timerFired key t now).2 = t ∨
      ∃ deadline, (i.timerFired key t now).2 = t.arm key deadline := by
  cases key with
  | periodic slot =>
    simp only [timerFired]
    split
    · exact .inr ⟨_, rfl⟩
    · exact .inl rfl
  | currentWhile slot =>
    simp only [timerFired, Receive.currentWhileExpired]
    split
    · exact .inr ⟨_, rfl⟩
    · exact .inl rfl
    · exact .inl rfl
  | waitWhile slot => exact .inl rfl
  | actorChurn slot => exact .inl rfl
  | partnerChurn slot => exact .inl rfl
  | fallback lag => exact .inl rfl

theorem deadline?_timerFired_of_ne {key' : TimerKey} (hkey : key' ≠ key) :
    (i.timerFired key t now).2.deadline? key' = t.deadline? key' := by
  obtain heq | ⟨deadline, heq⟩ := @timerFired_timers i key t now
  · rw [heq]
  · rw [heq, Timers.deadline?_arm, if_neg hkey]

theorem wellFormed_timerFired (h : t.WellFormed) : (i.timerFired key t now).2.WellFormed := by
  obtain heq | ⟨deadline, heq⟩ := @timerFired_timers i key t now
  · rw [heq]
    exact h
  · rw [heq]
    exact h.arm _ _

/-- A timer that fires leaves the member in line with its LAG and its other timers. -/
theorem Sound.timerFired {s : LagSettings} {changed : Prop} {due due' : TimerKey → Option Nat}
    (h : i.Sound s changed now slot due) (hkey : key.interface? = some slot)
    (hdue : (due key).isSome = true) (hidle : t.deadline? key = none)
    (hother : ∀ key', key' ≠ key → due' key' = due key')
    (hfired : due' key = (i.timerFired key t now).2.deadline? key) :
    (i.timerFired key t now).1.Sound s changed now slot due' := by
  cases key with
  | periodic slot' =>
    obtain rfl : slot' = slot := Option.some.inj hkey
    rw [h.timed.paced.armed, ← Evaluation.isSome_interval?] at hdue
    obtain ⟨interval, hinterval⟩ := Option.isSome_iff_exists.mp hdue
    simp only [Interface.timerFired, hinterval, Timers.deadline?_arm, if_true] at hfired ⊢
    refine ⟨h.follows, h.truthful.congr rfl rfl rfl rfl rfl rfl, ?_⟩
    exact (h.timed.periodicFired hinterval hother hfired).congr rfl rfl rfl rfl
      (fun side => by cases side <;> rfl) fun _ _ => rfl
  | currentWhile slot' =>
    obtain rfl : slot' = slot := Option.some.inj hkey
    have hlistening : i.protocol.receive.isListening = true := by rw [← h.timed.heard, hdue]
    have hrunning : i.protocol.receive.isRunning = true := by
      cases hr : i.protocol.receive <;> simp_all [ReceiveState.isListening, ReceiveState.isRunning]
    obtain ⟨henabled, hdynamic⟩ := h.follows.of_running hrunning
    have htruthful : Protocol.Truthful s
        (Receive.currentWhileExpired slot' i.protocol t now).1 := h.truthful.currentWhileExpired
    refine ⟨?_, htruthful.congr rfl rfl rfl rfl rfl rfl, ?_⟩
    · have hkeep : (i.timerFired (.currentWhile slot') t now).1.isEnabled = true := henabled
      rw [hkeep, Protocol.follows_iff_of_enabled hdynamic]
      simp only [Interface.timerFired, Receive.currentWhileExpired]
      split
      · rfl
      · rfl
      · exact hrunning
    · exact (h.timed.currentWhileExpired hlistening hother hidle hfired).congr rfl rfl rfl rfl
        (fun side => by cases side <;> rfl) fun _ _ => rfl
  | waitWhile slot' =>
    obtain rfl : slot' = slot := Option.some.inj hkey
    refine ⟨h.follows, h.truthful.congr rfl rfl rfl rfl rfl rfl, ?_⟩
    exact h.timed.waitWhileFired hother (hfired.trans hidle)
  | actorChurn slot' =>
    obtain rfl : slot' = slot := Option.some.inj hkey
    refine ⟨h.follows, h.truthful.congr rfl rfl rfl rfl rfl rfl, ?_⟩
    exact h.timed.churnFired .actor hother (hfired.trans hidle)
  | partnerChurn slot' =>
    obtain rfl : slot' = slot := Option.some.inj hkey
    refine ⟨h.follows, h.truthful.congr rfl rfl rfl rfl rfl rfl, ?_⟩
    exact h.timed.churnFired .partner hother (hfired.trans hidle)
  | fallback lag => simp [TimerKey.interface?] at hkey

end Interface

/-! ## One timer of the engine -/

namespace Engine
variable {e e' : Engine} {l slot : Nat} {lag : Lag} {i : Interface} {key : TimerKey}
  {rest : List TimerKey} {changed : Nat → Prop}

theorem due_cons_self : e.due (key :: rest) key = some (e.now + 1) := by simp [due]

theorem due_of_not_mem (h : key ∉ rest) : e.due rest key = e.timers.deadline? key := by
  simp [due, h]

/-- Taking a timer off the pending ones concerns this timer only. -/
theorem due_tail {key' : TimerKey} (hne : key' ≠ key) (hnow : e'.now = e.now)
    (htimers : e'.timers.deadline? key' = e.timers.deadline? key') :
    e'.due rest key' = e.due (key :: rest) key' := by
  simp [due, hne, hnow, htimers]

/-- The firing of a member's timer is a new value of the member. -/
theorem timerFired_eq (hkey : key.interface? = some slot) (hi : e.interfaces.get? slot = some i)
    (hlag : i.lag = some l) :
    e.timerFired key = (e.put slot (i.timerFired key e.timers e.now), some l) := by
  cases key
  case fallback => simp [TimerKey.interface?] at hkey
  all_goals
    obtain rfl := Option.some.inj hkey
    simp only [timerFired, TimerKey.slot, hi, hlag]
    rfl

theorem timerFired_fallback (hl : e.lags.get? l = some lag) :
    e.timerFired (.fallback l) =
      (e.modifyLag l fun lag => { lag with fallback := Fallback.activate lag.fallback },
        some l) := by
  simp [timerFired, hl]

/-- The firing of a timer stays within the LAG that owns the timer. -/
theorem within_timerFired (hlive : (e.lags.get? l).isSome = true) (howns : e.Owns l key) :
    (e.timerFired key).2 = some l ∧ Within l e (e.timerFired key).1 ∧
      ∀ key', key' ≠ key →
        (e.timerFired key).1.timers.deadline? key' = e.timers.deadline? key' := by
  obtain rfl | ⟨slot, hkey, i, hi, hlag⟩ := howns
  · obtain ⟨lag, hl⟩ := Option.isSome_iff_exists.mp hlive
    rw [timerFired_fallback hl]
    exact ⟨rfl, within_modifyLag (fun _ => rfl) fun _ => rfl, fun _ _ => rfl⟩
  · rw [timerFired_eq hkey hi hlag]
    refine ⟨rfl, ?_, fun key' hne => Interface.deadline?_timerFired_of_ne hne⟩
    refine within_put hi hlag Interface.timerFired_name Interface.timerFired_lag ?_
      Interface.wellFormed_timerFired
    intro key' hkey'
    refine Interface.deadline?_timerFired_of_ne ?_
    rintro rfl
    exact hkey' hkey

section
variable (h : e.Coherent changed (key :: rest)) (hnot : key ∉ rest)
  (hidle : e.timers.deadline? key = none)
include h hnot hidle

/-- The LAG that owns the timer stays in line with its timers. -/
theorem Coherent.sound_timerFired (hl : e.lags.get? l = some lag) (howns : e.Owns l key)
    {lag' : Lag} (hl' : (e.timerFired key).1.lags.get? l = some lag') :
    (e.timerFired key).1.Sound rest (changed l) l lag' := by
  have hsound := h.sound l lag hl
  obtain ⟨-, hw, hother⟩ := within_timerFired (by rw [hl]; rfl) howns
  have hdue : ∀ key', key' ≠ key →
      (e.timerFired key).1.due rest key' = e.due (key :: rest) key' := fun key' hne =>
    due_tail hne hw.now (hother key' hne)
  obtain rfl | ⟨slot, hkey, i, hi, hlag⟩ := howns
  · rw [timerFired_fallback hl] at hl' hdue ⊢
    simp only [modifyLag, Arena.get?_modify, if_true, hl, Option.map_some,
      Option.some.injEq] at hl'
    subst hl'
    refine ⟨hsound.timeout, ?_, ?_⟩
    · have hfired := hsound.fallback.activate (by rw [due_cons_self]; rfl)
      rw [due_of_not_mem hnot]
      simpa [modifyLag, hidle] using hfired
    · intro slot hslot i hi
      exact (hsound.member slot hslot i hi).congr fun key' hkey' =>
        hdue key' (key'.ne_fallback hkey' l)
  · rw [timerFired_eq hkey hi hlag] at hl' hdue ⊢
    obtain rfl : lag = lag' := Option.some.inj (hl.symm.trans hl')
    refine ⟨hsound.timeout, ?_, ?_⟩
    · rw [hdue _ (key.ne_fallback hkey l).symm]
      exact hsound.fallback
    · intro slot' hslot' j hj
      by_cases hslot : slot = slot'
      · subst hslot
        rw [get?_put_self hi] at hj
        obtain rfl := Option.some.inj hj
        refine (hsound.member slot hslot' i hi).timerFired hkey ?_ hidle hdue ?_
        · rw [due_cons_self]
          rfl
        · exact due_of_not_mem hnot
      · rw [get?_put, if_neg hslot] at hj
        refine (hsound.member slot' hslot' j hj).congr fun key' hkey' => hdue key' ?_
        rintro rfl
        exact hslot (Option.some.inj (hkey.symm.trans hkey'))

/-- A timer that fires is no longer pending, and its LAG is known. -/
theorem Coherent.timerFired (hchanged : ∀ l, e.Owns l key → changed l) :
    ∃ l, e.Owns l key ∧ (e.timerFired key).2 = some l ∧ Within l e (e.timerFired key).1 ∧
      (∀ key', key' ≠ key →
        (e.timerFired key).1.timers.deadline? key' = e.timers.deadline? key') ∧
      (e.timerFired key).1.Coherent changed rest := by
  obtain ⟨l, hlive, howns⟩ := h.owned key (by rw [due_cons_self]; rfl)
  obtain ⟨lag, hl⟩ := Option.isSome_iff_exists.mp hlive
  obtain ⟨hlag, hw, hother⟩ := within_timerFired hlive howns
  refine ⟨l, howns, hlag, hw, hother, ?_⟩
  refine h.within hw hl (fun _ _ => Iff.rfl) ?_
    (fun lag' hl' => h.sound_timerFired hnot hidle hl howns hl')
    fun _ _ hunchanged => absurd (hchanged l howns) hunchanged
  intro key' hkey'
  have hne : key' ≠ key := by
    rintro rfl
    exact hkey' howns
  simp [hne]

end

/-! ## All timers that are due -/

/-- A firing, with the LAGs that were concerned so far. -/
def collect [Clock] (r : Engine × List Nat) (key : TimerKey) : Engine × List Nat :=
  ((r.1.timerFired key).1,
    match (r.1.timerFired key).2 with
    | some l => Lag.insertSlot l r.2
    | none => r.2)

theorem timersFired_eq [Clock] (keys : List TimerKey) :
    e.timersFired keys = keys.foldl collect (e, []) := rfl

/-- When all pending timers have fired, exactly the LAGs that own one of them are collected. -/
theorem Coherent.foldl_collect {keys : List TimerKey} (h : e.Coherent changed keys)
    (hnodup : keys.Nodup) (hidle : ∀ key ∈ keys, e.timers.deadline? key = none)
    (hchanged : ∀ key ∈ keys, ∀ l, e.Owns l key → changed l) (lags : List Nat) :
    (keys.foldl collect (e, lags)).1.Coherent changed [] ∧
      ∀ l, l ∈ (keys.foldl collect (e, lags)).2 ↔ l ∈ lags ∨ ∃ key ∈ keys, e.Owns l key := by
  induction keys generalizing e lags with
  | nil => exact ⟨h, fun l => by simp⟩
  | cons key rest ih =>
    obtain ⟨hnot, hnodup⟩ := List.nodup_cons.mp hnodup
    obtain ⟨l, howns, hlag, hw, hother, hnext⟩ :=
      h.timerFired hnot (hidle key List.mem_cons_self) (hchanged key List.mem_cons_self)
    have hstep : collect (e, lags) key = ((e.timerFired key).1, Lag.insertSlot l lags) := by
      simp [collect, hlag]
    have hidle' : ∀ key' ∈ rest, (e.timerFired key).1.timers.deadline? key' = none := by
      intro key' hkey'
      rw [hother key' fun heq => hnot (heq ▸ hkey')]
      exact hidle key' (List.mem_cons_of_mem _ hkey')
    have hchanged' : ∀ key' ∈ rest, ∀ k, (e.timerFired key).1.Owns k key' → changed k := by
      intro key' hkey' k hk
      rw [hw.owns_iff] at hk
      exact hchanged key' (List.mem_cons_of_mem _ hkey') k hk
    obtain ⟨hcoherent, hmem⟩ := ih hnext hnodup hidle' hchanged' (Lag.insertSlot l lags)
    rw [List.foldl_cons, hstep]
    refine ⟨hcoherent, fun k => ?_⟩
    have hkey : e.Owns k key ↔ k = l := by
      constructor
      · exact fun hk => howns.unique hk
      · intro heq
        rw [heq]
        exact howns
    rw [hmem k, Lag.mem_insertSlot]
    simp only [List.exists_mem_cons_iff, hw.owns_iff, hkey]
    constructor
    · rintro ((hk | hk) | hk)
      · exact .inr (.inl hk)
      · exact .inl hk
      · exact .inr (.inr hk)
    · rintro (hk | hk | hk)
      · exact .inl (.inr hk)
      · exact .inl (.inl hk)
      · exact .inr hk

/-! ## The time moves -/

/-- The clock has moved, and what is due is taken off the schedule. -/
def later (e : Engine) (now : Nat) : Engine :=
  { e with now, timers := (e.timers.expired now).2 }

/-- Whatever was due counts as due at once, and no deadline moves otherwise. -/
theorem due_later (h : e.timers.WellFormed) (now : Nat) (key : TimerKey) :
    (e.later now).due (e.timers.expired now).1 key =
      (e.timers.deadline? key).map (max (now + 1)) := by
  have hmem := Timers.mem_expired h now key
  have hdeadline : (e.later now).timers.deadline? key = (e.timers.deadline? key).filter (now < ·) :=
    Timers.deadline?_expired h now key
  cases hd : e.timers.deadline? key with
  | none =>
    have hnot : key ∉ (e.timers.expired now).1 := by simp [hmem, hd]
    rw [due_of_not_mem hnot, hdeadline, hd]
    rfl
  | some d =>
    rw [hd] at hmem hdeadline
    by_cases hle : d ≤ now
    · have hfires : key ∈ (e.timers.expired now).1 := hmem.mpr ⟨d, rfl, hle⟩
      have hmax : max (now + 1) d = now + 1 := by omega
      simp [due, hfires, later, hmax]
    · have hnot : key ∉ (e.timers.expired now).1 := by
        intro hfires
        obtain ⟨d', hd', hle'⟩ := hmem.mp hfires
        obtain rfl := Option.some.inj hd'
        exact hle hle'
      have hmax : max (now + 1) d = d := by omega
      rw [due_of_not_mem hnot, hdeadline]
      simp only [Option.map_some, hmax, Option.filter_some, decide_eq_true_eq]
      exact if_pos (by omega)

theorem isSome_due_later (h : e.timers.WellFormed) (now : Nat) (key : TimerKey) :
    ((e.later now).due (e.timers.expired now).1 key).isSome = (e.timers.deadline? key).isSome := by
  rw [due_later h, Option.isSome_map]

theorem lt_due_later (h : e.timers.WellFormed) {now d : Nat} {key : TimerKey}
    (hd : (e.later now).due (e.timers.expired now).1 key = some d) :
    now < d ∧ (d = now + 1 ∨ e.timers.deadline? key = some d) := by
  rw [due_later h] at hd
  obtain ⟨d', hd', heq⟩ := Option.map_eq_some_iff.mp hd
  refine ⟨by omega, ?_⟩
  by_cases hle : d' ≤ now
  · exact .inl (by omega)
  · have hmax : max (now + 1) d' = d' := by omega
    rw [← heq, hmax]
    exact .inr hd'

/-- A timer that is not due keeps its deadline. -/
theorem deadline?_later (h : e.timers.WellFormed) {now : Nat} {key : TimerKey}
    (hnot : key ∉ (e.timers.expired now).1) :
    (e.later now).timers.deadline? key = e.timers.deadline? key := by
  rw [← due_of_not_mem hnot, due_later h]
  cases hd : e.timers.deadline? key with
  | none => rfl
  | some d =>
    have hlate : now < d := by
      refine Nat.lt_of_not_le fun hle => hnot ?_
      exact (Timers.mem_expired h now key).mpr ⟨d, hd, hle⟩
    have hmax : max (now + 1) d = d := by omega
    rw [Option.map_some, hmax]

/-- A LAG stays settled while none of its timers is due. -/
theorem Coherent.settled_later (h : e.Stable) (hl : e.lags.get? l = some lag) {now : Nat}
    (hquiet : ∀ key ∈ (e.timers.expired now).1, ¬ e.Owns l key) :
    (e.later now).Settled l lag := by
  have hkeep : ∀ key, e.Owns l key →
      (e.later now).timers.deadline? key = e.timers.deadline? key := by
    intro key howns
    exact deadline?_later h.timers fun hfires => hquiet key hfires howns
  have hsettled : Settled { e with now } l lag := by
    refine (h.settled l lag hl id).later fun slot hslot d hd => ?_
    have hdeadline : (e.later now).timers.deadline? (.periodic slot) =
        (e.timers.deadline? (.periodic slot)).filter (now < ·) :=
      Timers.deadline?_expired h.timers now _
    rw [hkeep _ (h.owns_of_mem hl hslot rfl), hd] at hdeadline
    have hlate := (Option.filter_eq_some_iff.mp hdeadline.symm).2
    simpa using hlate
  refine hsettled.congr rfl rfl rfl (hkeep _ (.inl rfl)) fun key slot hslot hkey => ?_
  exact hkeep key (h.owns_of_mem hl hslot hkey)

/-- After the clock has moved, the LAGs that own a timer that is due count as changed. -/
theorem Coherent.later (h : e.Stable) {now : Nat} (hnow : e.now ≤ now) :
    (e.later now).Coherent (fun l => ∃ key ∈ (e.timers.expired now).1, e.Owns l key)
      (e.timers.expired now).1 where
  interfaces := h.interfaces
  lags := h.lags
  timers := h.timers.expired now
  ascending := h.ascending
  members := h.members
  live := h.live
  owned := by
    intro key hkey
    rw [isSome_due_later h.timers] at hkey
    exact h.owned key (by rwa [due_nil])
  sound := by
    intro l lag hl
    have hsome := isSome_due_later h.timers now
    have hbound : ∀ key d, (e.later now).due (e.timers.expired now).1 key = some d →
        now < d ∧ (d = now + 1 ∨ e.timers.deadline? key = some d) := fun _ _ hd =>
      lt_due_later h.timers hd
    have hsound := h.sound l lag hl
    have hfallback := hsound.fallback
    rw [due_nil] at hfallback
    refine ⟨hsound.timeout, hfallback.later (hsome _) (hbound _) hnow, fun slot hslot i hi => ?_⟩
    have hmember := hsound.member slot hslot i hi
    rw [due_nil] at hmember
    have htimed := hmember.timed.later hnow (fun key _ => hsome key) fun key d _ => hbound key d
    exact ⟨hmember.follows, hmember.truthful, htimed.mono fun hexcused => hexcused.1.elim⟩
  settled := by
    intro l lag hl hquiet
    exact h.settled_later hl fun key hfires howns => hquiet ⟨key, hfires, howns⟩

theorem advanceTo_eq [Clock] (time : Nat) :
    e.advanceTo time =
      ((e.later (max e.now time)).timersFired (e.timers.expired (max e.now time)).1).1.evaluateAll
        ((e.later (max e.now time)).timersFired (e.timers.expired (max e.now time)).1).2 := rfl

/-- When all timers that are due have fired, the LAGs that own one of them are collected, and the
others are settled. -/
theorem Coherent.timersFired (h : e.Stable) {now : Nat} (hnow : e.now ≤ now) :
    ((e.later now).timersFired (e.timers.expired now).1).1.Coherent
        (fun l => ∃ key ∈ (e.timers.expired now).1, e.Owns l key) [] ∧
      ∀ l, l ∈ ((e.later now).timersFired (e.timers.expired now).1).2 ↔
        ∃ key ∈ (e.timers.expired now).1, e.Owns l key := by
  have hidle : ∀ key ∈ (e.timers.expired now).1,
      (e.later now).timers.deadline? key = none := by
    intro key hkey
    obtain ⟨d, hd, hle⟩ := (Timers.mem_expired h.timers _ key).mp hkey
    refine (Timers.deadline?_expired h.timers _ key).trans ?_
    simp [hd, Option.filter, Nat.not_lt.mpr hle]
  obtain ⟨hcoherent, hmem⟩ := (h.later hnow).foldl_collect (Timers.nodup_expired h.timers _) hidle
    (fun key hkey l howns => ⟨key, hkey, howns⟩) []
  rw [timersFired_eq]
  refine ⟨hcoherent, fun l => ?_⟩
  have howns : ∀ key, (e.later now).Owns l key ↔ e.Owns l key := fun _ => Iff.rfl
  rw [hmem]
  simp [howns]

/-- The clock keeps the engine stable, however many timers fire at once. -/
theorem Coherent.advanceTo (h : e.Stable) (time : Nat) : (e.advanceTo time).1.Stable := by
  have hnow : e.now ≤ max e.now time := Nat.le_max_left _ _
  obtain ⟨hcoherent, hmem⟩ := h.timersFired hnow
  rw [advanceTo_eq]
  refine (hcoherent.evaluateAll _).relabel fun l _ => ?_
  rw [hmem]
  simp

/-! ## Deadlines -/

/-- No timer of a stable engine is due. -/
theorem Coherent.lt_deadline (h : e.Stable) {d : Nat} (hd : e.timers.deadline? key = some d) :
    e.now < d := by
  have hsome : (e.due [] key).isSome = true := by
    rw [due_nil, hd]
    rfl
  obtain ⟨l, hlive, howns⟩ := h.owned key hsome
  obtain ⟨lag, hl⟩ := Option.isSome_iff_exists.mp hlive
  have hsound := h.sound l lag hl
  obtain rfl | ⟨slot, hkey, i, hi, hlag⟩ := howns
  · have hfallback := hsound.fallback
    rw [due_nil] at hfallback
    exact (hfallback.due d hd).1
  · have htimed := (h.sound_member hi hlag hl).timed
    cases key with
    | periodic slot' =>
      obtain rfl : slot' = slot := Option.some.inj hkey
      exact (htimed.paced.due d hd).1
    | currentWhile slot' =>
      obtain rfl : slot' = slot := Option.some.inj hkey
      exact (htimed.patience d hd).1
    | waitWhile slot' =>
      obtain rfl : slot' = slot := Option.some.inj hkey
      exact (htimed.waits.due d hd).1
    | actorChurn slot' =>
      obtain rfl : slot' = slot := Option.some.inj hkey
      exact (htimed.churn .actor d hd).2.2.1
    | partnerChurn slot' =>
      obtain rfl : slot' = slot := Option.some.inj hkey
      exact (htimed.churn .partner d hd).2.2.1
    | fallback lag => simp [TimerKey.interface?] at hkey

end Engine
end LinkAggregation
