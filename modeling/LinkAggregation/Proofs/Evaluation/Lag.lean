import LinkAggregation.Proofs.Arena
import LinkAggregation.Proofs.Evaluation.Fallback
import LinkAggregation.Proofs.Evaluation.Member
import Mathlib.Data.List.Basic

/-!
# Evaluation of a LAG settles it

A LAG is settled if its fallback is, every member holds a grant and a selection as decided, every
member is settled, and its bond status is published. Evaluating a settled LAG changes nothing and
has no effect. One evaluation settles a LAG, whatever state it is in, and touches nothing but the
LAG, its members and their timers.
-/
namespace LinkAggregation

namespace Evaluation
variable {ev : Evaluation} {decision : Nat → Selection} {ms : List (Nat × Interface)} {t : Timers}

/-! ## Members in order -/

theorem members_fst :
    (ev.members decision ms t).1 = ms.map fun m => (m.1, ev.result (decision m.1) m.2) := by
  induction ms generalizing t with
  | nil => rfl
  | cons m rest ih => simp only [members, member_fst, ih, List.map_cons]

theorem members_effects :
    (ev.members decision ms t).2.2 = ms.flatMap fun m => ev.effects (decision m.1) m.2 := by
  induction ms generalizing t with
  | nil => rfl
  | cons m rest ih => simp only [members, member_effects, ih, List.flatMap_cons]

theorem wellFormed_members (h : t.WellFormed) : (ev.members decision ms t).2.1.WellFormed := by
  induction ms generalizing t with
  | nil => exact h
  | cons m rest ih => exact ih (wellFormed_member h)

theorem deadline?_members_of_ne {key : TimerKey}
    (hkey : ∀ m ∈ ms, key.interface? ≠ some m.1) :
    (ev.members decision ms t).2.1.deadline? key = t.deadline? key := by
  induction ms generalizing t with
  | nil => rfl
  | cons m rest ih =>
    have hrest := ih (t := (ev.member m.1 (decision m.1) m.2 t).2.1)
      fun n hn => hkey n (List.mem_cons_of_mem _ hn)
    simp only [members]
    rw [hrest, deadline?_member_of_ne (hkey m List.mem_cons_self)]

/-- The deadlines of a member are those that its own evaluation leaves. -/
theorem deadline?_members (hnodup : (ms.map Prod.fst).Nodup) {slot : Nat} {i : Interface}
    (hm : (slot, i) ∈ ms) :
    ∃ t', (∀ key : TimerKey, key.interface? = some slot → t'.deadline? key = t.deadline? key) ∧
      ∀ key : TimerKey, key.interface? = some slot →
        (ev.members decision ms t).2.1.deadline? key =
          (ev.member slot (decision slot) i t').2.1.deadline? key := by
  induction ms generalizing t with
  | nil => simp at hm
  | cons m rest ih =>
    obtain ⟨hnot, hnodup⟩ := List.nodup_cons.mp hnodup
    obtain rfl | hm := List.mem_cons.mp hm
    · refine ⟨t, fun _ _ => rfl, fun key hkey => ?_⟩
      simp only [members]
      refine deadline?_members_of_ne fun n hn => ?_
      rw [hkey]
      intro heq
      exact hnot (List.mem_map.mpr ⟨n, hn, (Option.some.inj heq).symm⟩)
    · have hne : slot ≠ m.1 := by
        intro heq
        exact hnot (List.mem_map.mpr ⟨_, hm, heq⟩)
      obtain ⟨t', ht', hdue⟩ := ih (t := (ev.member m.1 (decision m.1) m.2 t).2.1) hnodup hm
      refine ⟨t', fun key hkey => ?_, hdue⟩
      rw [ht' key hkey, deadline?_member_of_ne]
      rw [hkey]
      exact fun heq => hne (Option.some.inj heq)

theorem members_of_settled
    (hm : ∀ m ∈ ms, ev.Settled m.1 m.2 t ∧ m.2.protocol.selection = decision m.1) :
    ev.members decision ms t = (ms, t, []) := by
  induction ms with
  | nil => rfl
  | cons m rest ih =>
    obtain ⟨hsettled, hselection⟩ := hm m List.mem_cons_self
    have hrest := ih fun n hn => hm n (List.mem_cons_of_mem _ hn)
    simp [members, ← hselection, hsettled.member_eq, hrest]

end Evaluation

namespace Engine
variable {e : Engine} {l : Nat} {lag : Lag}

/-! ## The members of a LAG -/

theorem mem_members {slot : Nat} {i : Interface} :
    (slot, i) ∈ e.members lag ↔ slot ∈ lag.members ∧ e.interfaces.get? slot = some i := by
  simp only [members, List.mem_filterMap, Option.map_eq_some_iff, Prod.mk.injEq]
  constructor
  · rintro ⟨s, hs, j, hj, rfl, rfl⟩
    exact ⟨hs, hj⟩
  · rintro ⟨hs, hi⟩
    exact ⟨slot, hs, i, hi, rfl, rfl⟩

theorem nodup_members (h : lag.members.Nodup) : ((e.members lag).map Prod.fst).Nodup := by
  refine List.pairwise_map.mpr (List.Pairwise.filterMap _ ?_ h)
  intro s s' hne m hm m' hm'
  obtain ⟨_, -, rfl⟩ := Option.map_eq_some_iff.mp hm
  obtain ⟨_, -, rfl⟩ := Option.map_eq_some_iff.mp hm'
  exact hne

/-- Members are found by slot alone. -/
theorem members_congr {e' : Engine} {lag' : Lag} (hmembers : lag'.members = lag.members)
    (hget : ∀ slot ∈ lag.members, e'.interfaces.get? slot = e.interfaces.get? slot) :
    e'.members lag' = e.members lag := by
  unfold members
  rw [hmembers]
  refine List.filterMap_congr fun slot hslot => ?_
  rw [hget slot hslot]

theorem members_map {e' : Engine} {lag' : Lag} {f : Nat → Interface → Interface}
    (hmembers : lag'.members = lag.members)
    (hget : ∀ slot ∈ lag.members,
      e'.interfaces.get? slot = (e.interfaces.get? slot).map (f slot)) :
    e'.members lag' = (e.members lag).map fun m => (m.1, f m.1 m.2) := by
  unfold members
  rw [hmembers, List.map_filterMap]
  refine List.filterMap_congr fun slot hslot => ?_
  rw [hget slot hslot]
  cases e.interfaces.get? slot <;> rfl

theorem putMembers_eq (ms : List (Nat × Interface)) :
    e.putMembers ms = { e with interfaces := (e.putMembers ms).interfaces } := by
  unfold putMembers
  induction ms generalizing e with
  | nil => rfl
  | cons m rest ih =>
    simp only [List.foldl_cons]
    rw [ih]
    rfl

theorem mem_of_mem_emit {effects : List Effect} {effect : Effect} (h : effect ∈ e.emit effects) :
    effect ∈ effects := by
  unfold emit at h
  split at h
  · exact h
  · simp at h

theorem emit_putMembers (ms : List (Nat × Interface)) (effects : List Effect) :
    (e.putMembers ms).emit effects = e.emit effects := by
  rw [putMembers_eq]
  rfl

theorem find?_putMembers (ms : List (Nat × Interface)) (name : String) :
    (e.putMembers ms).interfaces.find? name = e.interfaces.find? name := by
  unfold putMembers
  induction ms generalizing e with
  | nil => rfl
  | cons m rest ih =>
    simp only [List.foldl_cons]
    rw [ih]
    rfl

theorem get?_putMembers_of_not_mem {ms : List (Nat × Interface)} {slot : Nat}
    (h : slot ∉ ms.map Prod.fst) :
    (e.putMembers ms).interfaces.get? slot = e.interfaces.get? slot := by
  unfold putMembers
  induction ms generalizing e with
  | nil => rfl
  | cons m rest ih =>
    simp only [List.map_cons, List.mem_cons, not_or] at h
    simp only [List.foldl_cons]
    rw [ih h.2]
    simp [modifyInterface, Ne.symm h.1]

theorem get?_putMembers {ms : List (Nat × Interface)} (hnodup : (ms.map Prod.fst).Nodup)
    {slot : Nat} {i : Interface} (hm : (slot, i) ∈ ms) :
    (e.putMembers ms).interfaces.get? slot = (e.interfaces.get? slot).map fun _ => i := by
  induction ms generalizing e with
  | nil => simp at hm
  | cons m rest ih =>
    obtain ⟨hnot, hnodup⟩ := List.nodup_cons.mp hnodup
    have hstep : e.putMembers (m :: rest) =
        (e.modifyInterface m.1 fun _ => m.2).putMembers rest := rfl
    rw [hstep]
    obtain rfl | hm := List.mem_cons.mp hm
    · rw [get?_putMembers_of_not_mem hnot]
      simp [modifyInterface]
    · have hne : m.1 ≠ slot := by
        intro heq
        exact hnot (List.mem_map.mpr ⟨_, hm, heq.symm⟩)
      rw [ih hnodup hm]
      simp [modifyInterface, hne]

/-- Putting members back that are already there changes nothing. -/
theorem putMembers_eq_self {ms : List (Nat × Interface)}
    (h : ∀ m ∈ ms, e.interfaces.get? m.1 = some m.2) : e.putMembers ms = e := by
  unfold putMembers
  induction ms with
  | nil => rfl
  | cons m rest ih =>
    have hsame : e.modifyInterface m.1 (fun _ => m.2) = e := by
      unfold modifyInterface
      rw [Arena.modify_eq_self]
      intro v hv
      rw [h m List.mem_cons_self] at hv
      exact Option.some.inj hv
    simp only [List.foldl_cons, hsame]
    exact ih fun n hn => h n (List.mem_cons_of_mem _ hn)

/-! ## The stages of an evaluation -/

/-- What the members of a LAG share during an evaluation. -/
def evaluation (e : Engine) (lag : Lag) : Evaluation :=
  ⟨lag.key, e.system.resolve lag.settings, lag.isDynamic, e.now, e.connected⟩

/-- The members of a LAG as fallback sees them. -/
def fallbackMembers (e : Engine) (lag : Lag) : List Fallback.Member :=
  (e.members lag).map fun m => m.2.fallbackMember m.1

/-- Fallback after an evaluation, with the slots that hold a grant. -/
def fallbackStep (e : Engine) (l : Nat) (lag : Lag) : Fallback.State × Timers × List Nat :=
  Fallback.evaluate l lag.settings.fallbackSettings (e.fallbackMembers lag) lag.fallback e.timers
    e.now

/-- A member after grants have been given and taken. -/
def regrant (e : Engine) (l : Nat) (lag : Lag) (slot : Nat) (i : Interface) : Interface :=
  i.withGrant ((e.fallbackStep l lag).2.2.contains slot)

/-- What selection decides for these members of a LAG. -/
def choose (e : Engine) (lag : Lag) (ms : List (Nat × Interface)) : Nat → Selection :=
  (select
    { lagKey := lag.key
      dynamic := lag.isDynamic
      maxMembers := e.maxMembers
      candidates := ms.map fun m => m.2.candidate m.1 lag.key }).decision

/-- What an evaluation decides for each slot. -/
def decision (e : Engine) (l : Nat) (lag : Lag) : Nat → Selection :=
  e.choose lag ((e.members lag).map fun m => (m.1, e.regrant l lag m.1 m.2))

/-- A member after an evaluation. -/
def after (e : Engine) (l : Nat) (lag : Lag) (slot : Nat) (i : Interface) : Interface :=
  (e.evaluation lag).result (e.decision l lag slot) (e.regrant l lag slot i)

/-- The bond status of a LAG after an evaluation. -/
def statusAfter (e : Engine) (l : Nat) (lag : Lag) : BondStatus :=
  lagBond ((e.members lag).filterMap fun m => (e.after l lag m.1 m.2).protocol.bond)

/-- The LAG after an evaluation. -/
def lagAfter (e : Engine) (l : Nat) (lag : Lag) : Lag :=
  { lag with fallback := (e.fallbackStep l lag).1, published := some (e.statusAfter l lag) }

/-- The timers after an evaluation. -/
def timersAfter (e : Engine) (l : Nat) (lag : Lag) : Timers :=
  ((e.evaluation lag).members (e.decision l lag)
    ((e.members lag).map fun m => (m.1, e.regrant l lag m.1 m.2)) (e.fallbackStep l lag).2.1).2.1

theorem evaluate_of_not_live (h : e.lags.get? l = none) : e.evaluate l = (e, []) := by
  simp [evaluate, h]

theorem evaluate_eq (h : e.lags.get? l = some lag) :
    e.evaluate l =
      ({ (e.putMembers ((e.members lag).map fun m => (m.1, e.after l lag m.1 m.2))).modifyLag l
          (fun lag' => { lag' with
            fallback := (e.fallbackStep l lag).1, published := some (e.statusAfter l lag) }) with
          timers := e.timersAfter l lag },
        (e.members lag).flatMap (fun m =>
            (e.evaluation lag).effects (e.decision l lag m.1) (e.regrant l lag m.1 m.2)) ++
          if lag.published = some (e.statusAfter l lag) then []
          else e.emit [.writeLag lag.name (e.statusAfter l lag)]) := by
  let ms := (e.members lag).map fun m => (m.1, e.regrant l lag m.1 m.2)
  let r := (e.evaluation lag).members (e.decision l lag) ms (e.fallbackStep l lag).2.1
  have hraw : e.evaluate l =
      ({ (e.putMembers r.1).modifyLag l (fun lag' => { lag' with
            fallback := (e.fallbackStep l lag).1
            published := some (lagBond (r.1.filterMap fun m => m.2.protocol.bond)) }) with
          timers := r.2.1 },
        r.2.2 ++
          if lag.published = some (lagBond (r.1.filterMap fun m => m.2.protocol.bond)) then []
          else (e.putMembers r.1).emit
            [.writeLag lag.name (lagBond (r.1.filterMap fun m => m.2.protocol.bond))]) := by
    unfold evaluate
    rw [h]
    rfl
  have hmembers : r.1 = (e.members lag).map fun m => (m.1, e.after l lag m.1 m.2) := by
    simp only [r, ms]
    rw [Evaluation.members_fst, List.map_map]
    rfl
  have hstatus : lagBond (r.1.filterMap fun m => m.2.protocol.bond) = e.statusAfter l lag := by
    rw [hmembers, List.filterMap_map]
    rfl
  have heffects : r.2.2 = (e.members lag).flatMap fun m =>
      (e.evaluation lag).effects (e.decision l lag m.1) (e.regrant l lag m.1 m.2) := by
    simp only [r, ms]
    rw [Evaluation.members_effects, List.flatMap_map]
  rw [hraw, hstatus, hmembers, heffects, emit_putMembers]
  rfl

theorem map_fst_after :
    ((e.members lag).map fun m => (m.1, e.after l lag m.1 m.2)).map Prod.fst =
      (e.members lag).map Prod.fst := by
  rw [List.map_map]
  rfl

section
variable (h : e.lags.get? l = some lag)
include h

theorem evaluate_keeps : (e.evaluate l).1 = { e with
    interfaces := (e.evaluate l).1.interfaces
    lags := (e.evaluate l).1.lags
    timers := (e.evaluate l).1.timers } := by
  rw [evaluate_eq h, putMembers_eq]
  rfl

theorem evaluate_lags :
    (e.evaluate l).1.lags = e.lags.modify l fun lag' => { lag' with
      fallback := (e.fallbackStep l lag).1, published := some (e.statusAfter l lag) } := by
  rw [evaluate_eq h, putMembers_eq]
  rfl

theorem evaluate_timers : (e.evaluate l).1.timers = e.timersAfter l lag := by
  rw [evaluate_eq h]

theorem find?_evaluate (name : String) :
    (e.evaluate l).1.interfaces.find? name = e.interfaces.find? name := by
  rw [evaluate_eq h]
  exact find?_putMembers _ name

theorem get?_evaluate_of_not_mem {slot : Nat} (hslot : slot ∉ lag.members) :
    (e.evaluate l).1.interfaces.get? slot = e.interfaces.get? slot := by
  rw [evaluate_eq h]
  refine get?_putMembers_of_not_mem fun hmem => hslot ?_
  rw [map_fst_after] at hmem
  obtain ⟨⟨s, i⟩, hm, rfl⟩ := List.mem_map.mp hmem
  exact (mem_members.mp hm).1

/-- Each member is evaluated on its own. -/
theorem get?_evaluate (hnodup : lag.members.Nodup) {slot : Nat} (hslot : slot ∈ lag.members) :
    (e.evaluate l).1.interfaces.get? slot =
      (e.interfaces.get? slot).map (e.after l lag slot) := by
  cases hi : e.interfaces.get? slot with
  | none =>
    rw [evaluate_eq h]
    have hnot : slot ∉
        ((e.members lag).map fun m => (m.1, e.after l lag m.1 m.2)).map Prod.fst := by
      intro hmem
      rw [map_fst_after] at hmem
      obtain ⟨⟨s, i⟩, hm, rfl⟩ := List.mem_map.mp hmem
      simp [(mem_members.mp hm).2] at hi
    exact (get?_putMembers_of_not_mem hnot).trans hi
  | some i =>
    rw [evaluate_eq h]
    have hm : (slot, e.after l lag slot i) ∈
        (e.members lag).map fun m => (m.1, e.after l lag m.1 m.2) :=
      List.mem_map.mpr ⟨(slot, i), mem_members.mpr ⟨hslot, hi⟩, rfl⟩
    refine (get?_putMembers ?_ hm).trans (by rw [hi]; rfl)
    rw [map_fst_after]
    exact nodup_members hnodup

theorem wellFormed_evaluate (ht : e.timers.WellFormed) : (e.evaluate l).1.timers.WellFormed := by
  rw [evaluate_timers h]
  exact Evaluation.wellFormed_members (Fallback.wellFormed_evaluate ht)

/-- Only the timers of the LAG and of its members are touched. -/
theorem deadline?_evaluate_of_ne {key : TimerKey} (hlag : key ≠ .fallback l)
    (hslot : ∀ slot ∈ lag.members, key.interface? ≠ some slot) :
    (e.evaluate l).1.timers.deadline? key = e.timers.deadline? key := by
  rw [evaluate_timers h, timersAfter, Evaluation.deadline?_members_of_ne]
  · exact Fallback.deadline?_evaluate_of_ne hlag
  · intro m hm
    obtain ⟨⟨s, i⟩, hmember, rfl⟩ := List.mem_map.mp hm
    exact hslot s (mem_members.mp hmember).1

theorem deadline?_evaluate_fallback :
    (e.evaluate l).1.timers.deadline? (.fallback l) =
      (e.fallbackStep l lag).2.1.deadline? (.fallback l) := by
  rw [evaluate_timers h, timersAfter, Evaluation.deadline?_members_of_ne]
  simp [TimerKey.interface?]

/-- The deadlines of a member are those that its own evaluation leaves. -/
theorem deadline?_evaluate (hnodup : lag.members.Nodup) {slot : Nat} {i : Interface}
    (hslot : slot ∈ lag.members) (hi : e.interfaces.get? slot = some i) :
    ∃ t : Timers,
      (∀ key : TimerKey, key.interface? = some slot →
        t.deadline? key = e.timers.deadline? key) ∧
      ∀ key : TimerKey, key.interface? = some slot →
        (e.evaluate l).1.timers.deadline? key =
          ((e.evaluation lag).member slot (e.decision l lag slot) (e.regrant l lag slot i)
            t).2.1.deadline? key := by
  have hm : (slot, e.regrant l lag slot i) ∈
      (e.members lag).map fun m => (m.1, e.regrant l lag m.1 m.2) :=
    List.mem_map.mpr ⟨(slot, i), mem_members.mpr ⟨hslot, hi⟩, rfl⟩
  have hnodup' : (((e.members lag).map fun m => (m.1, e.regrant l lag m.1 m.2)).map
      Prod.fst).Nodup := by
    rw [List.map_map]
    exact nodup_members hnodup
  obtain ⟨t, ht, hdue⟩ := @Evaluation.deadline?_members (e.evaluation lag) (e.decision l lag) _
    (e.fallbackStep l lag).2.1 hnodup' slot _ hm
  refine ⟨t, fun key hkey => ?_, fun key hkey => ?_⟩
  · rw [ht key hkey]
    exact Fallback.deadline?_evaluate_of_ne (key.ne_fallback hkey l)
  · rw [evaluate_timers h]
    exact hdue key hkey

end

/-! ## Settled LAGs -/

/-- Nothing is left to do for a LAG. -/
structure Settled (e : Engine) (l : Nat) (lag : Lag) : Prop where
  fallback : Fallback.Settled lag.settings.fallbackSettings (e.fallbackMembers lag) lag.fallback
    (e.timers.deadline? (.fallback l))
  granted : ∀ m ∈ e.members lag, m.2.protocol.fallbackGranted =
    (Fallback.holders lag.settings.fallbackSettings (e.fallbackMembers lag)
      lag.fallback).contains m.1
  selection : ∀ m ∈ e.members lag, m.2.protocol.selection = e.choose lag (e.members lag) m.1
  member : ∀ m ∈ e.members lag, (e.evaluation lag).Settled m.1 m.2 e.timers
  published : lag.published =
    some (lagBond ((e.members lag).filterMap fun m => m.2.protocol.bond))

namespace Settled

theorem regrant_eq (h : e.Settled l lag) {m : Nat × Interface} (hm : m ∈ e.members lag) :
    e.regrant l lag m.1 m.2 = m.2 := by
  unfold regrant Interface.withGrant fallbackStep
  rw [h.fallback.evaluate_eq, if_pos (h.granted m hm)]

theorem map_regrant (h : e.Settled l lag) :
    ((e.members lag).map fun m => (m.1, e.regrant l lag m.1 m.2)) = e.members lag := by
  refine (List.map_congr_left fun m hm => ?_).trans (List.map_id _)
  rw [h.regrant_eq hm]
  rfl

theorem decision_eq (h : e.Settled l lag) {m : Nat × Interface} (hm : m ∈ e.members lag) :
    e.decision l lag m.1 = m.2.protocol.selection := by
  rw [decision, h.map_regrant, h.selection m hm]

theorem after_eq (h : e.Settled l lag) {m : Nat × Interface} (hm : m ∈ e.members lag) :
    e.after l lag m.1 m.2 = m.2 := by
  rw [after, h.regrant_eq hm, h.decision_eq hm, (h.member m hm).result_eq]

theorem map_after (h : e.Settled l lag) :
    ((e.members lag).map fun m => (m.1, e.after l lag m.1 m.2)) = e.members lag := by
  refine (List.map_congr_left fun m hm => ?_).trans (List.map_id _)
  rw [h.after_eq hm]
  rfl

theorem statusAfter_eq (h : e.Settled l lag) : some (e.statusAfter l lag) = lag.published := by
  rw [statusAfter, h.published]
  refine congrArg (fun bonds => some (lagBond bonds)) (List.filterMap_congr fun m hm => ?_)
  rw [h.after_eq hm]

theorem timersAfter_eq (h : e.Settled l lag) : e.timersAfter l lag = e.timers := by
  unfold timersAfter
  rw [h.map_regrant, fallbackStep, h.fallback.evaluate_eq, Evaluation.members_of_settled]
  intro m hm
  exact ⟨h.member m hm, (h.decision_eq hm).symm⟩

/-- Evaluating a settled LAG changes nothing and has no effect. -/
theorem evaluate_eq (h : e.Settled l lag) (hl : e.lags.get? l = some lag) :
    e.evaluate l = (e, []) := by
  have hmembers : e.putMembers (e.members lag) = e :=
    putMembers_eq_self fun m hm => (mem_members.mp hm).2
  have hlag : e.modifyLag l (fun lag' => { lag' with
      fallback := (e.fallbackStep l lag).1, published := some (e.statusAfter l lag) }) = e := by
    unfold modifyLag
    rw [Arena.modify_eq_self]
    intro v hv
    obtain rfl : lag = v := Option.some.inj (hl.symm.trans hv)
    rw [h.statusAfter_eq, fallbackStep, h.fallback.evaluate_eq]
  have heffects : (e.members lag).flatMap (fun m =>
      (e.evaluation lag).effects (e.decision l lag m.1) (e.regrant l lag m.1 m.2)) = [] := by
    refine List.flatMap_eq_nil_iff.mpr fun m hm => ?_
    rw [h.regrant_eq hm, h.decision_eq hm, (h.member m hm).effects_eq]
  rw [Engine.evaluate_eq hl, h.map_after, hmembers, hlag, heffects, h.timersAfter_eq,
    if_pos h.statusAfter_eq.symm]
  rfl

/-- Members, deadlines and what all members share are all that matters. -/
theorem congr {e' : Engine} (h : e.Settled l lag) (hmembers : e'.members lag = e.members lag)
    (hshared : e'.evaluation lag = e.evaluation lag) (hmax : e'.maxMembers = e.maxMembers)
    (hlag : e'.timers.deadline? (.fallback l) = e.timers.deadline? (.fallback l))
    (hdue : ∀ (key : TimerKey) slot, slot ∈ lag.members → key.interface? = some slot →
      e'.timers.deadline? key = e.timers.deadline? key) : e'.Settled l lag where
  fallback := by
    rw [fallbackMembers, hmembers, hlag]
    exact h.fallback
  granted := by
    rw [fallbackMembers, hmembers]
    exact h.granted
  selection := by
    rw [choose, hmembers, hmax]
    exact h.selection
  member := by
    rw [hmembers, hshared]
    intro m hm
    exact (h.member m hm).congr fun key hkey => hdue key m.1 (mem_members.mp hm).1 hkey
  published := by
    rw [hmembers]
    exact h.published

/-- Time alone does not unsettle a LAG as long as no message of a member is due. -/
theorem later (h : e.Settled l lag) {now : Nat}
    (hdue : ∀ slot ∈ lag.members, ∀ d,
      e.timers.deadline? (.periodic slot) = some d → now < d) :
    Settled { e with now } l lag :=
  { fallback := h.fallback
    granted := h.granted
    selection := h.selection
    member := fun m hm => (h.member m hm).later (hdue m.1 (mem_members.mp hm).1)
    published := h.published }

end Settled

/-! ## One evaluation settles a LAG -/

section
variable (h : e.lags.get? l = some lag) (hnodup : lag.members.Nodup)
include h

theorem get?_lags_evaluate : (e.evaluate l).1.lags.get? l = some (e.lagAfter l lag) := by
  rw [evaluate_lags h, Arena.get?_modify, if_pos rfl, h]
  rfl

theorem evaluation_evaluate :
    (e.evaluate l).1.evaluation (e.lagAfter l lag) = e.evaluation lag := by
  rw [evaluate_keeps h]
  rfl

include hnodup in
theorem members_evaluate :
    (e.evaluate l).1.members (e.lagAfter l lag) =
      (e.members lag).map fun m => (m.1, e.after l lag m.1 m.2) :=
  members_map rfl fun _ hslot => get?_evaluate h hnodup hslot

include hnodup in
theorem fallbackMembers_evaluate :
    (e.evaluate l).1.fallbackMembers (e.lagAfter l lag) = e.fallbackMembers lag := by
  rw [fallbackMembers, members_evaluate h hnodup, List.map_map]
  refine List.map_congr_left fun m _ => ?_
  simp [after, regrant, Interface.fallbackMember]

include hnodup in
/-- Selection would decide the same again. -/
theorem choose_evaluate :
    (e.evaluate l).1.choose (e.lagAfter l lag) ((e.evaluate l).1.members (e.lagAfter l lag)) =
      e.decision l lag := by
  have hmax : (e.evaluate l).1.maxMembers = e.maxMembers := by rw [evaluate_keeps h]
  have hcandidates : ((e.evaluate l).1.members (e.lagAfter l lag)).map
      (fun m => m.2.candidate m.1 lag.key) =
      ((e.members lag).map fun m => (m.1, e.regrant l lag m.1 m.2)).map fun m =>
        m.2.candidate m.1 lag.key := by
    rw [members_evaluate h hnodup, List.map_map, List.map_map]
    refine List.map_congr_left fun m _ => ?_
    simp [after]
  have hkey : (e.lagAfter l lag).key = lag.key := rfl
  rw [decision, choose, choose, hkey, hcandidates, hmax]
  rfl

include hnodup in
/-- After an evaluation the LAG is settled, whatever state it was in. -/
theorem settled_evaluate : (e.evaluate l).1.Settled l (e.lagAfter l lag) where
  fallback := by
    rw [deadline?_evaluate_fallback h, fallbackMembers_evaluate h hnodup]
    exact Fallback.settled_evaluate
  granted := by
    rw [members_evaluate h hnodup, fallbackMembers_evaluate h hnodup]
    intro m hm
    obtain ⟨m, -, rfl⟩ := List.mem_map.mp hm
    simp only [after, regrant, Evaluation.result_fallbackGranted,
      Interface.withGrant_fallbackGranted]
    rw [fallbackStep, Fallback.evaluate_holders]
    rfl
  selection := by
    rw [choose_evaluate h hnodup, members_evaluate h hnodup]
    intro m hm
    obtain ⟨m, -, rfl⟩ := List.mem_map.mp hm
    exact Evaluation.result_selection _ _ _
  member := by
    rw [evaluation_evaluate h, members_evaluate h hnodup]
    intro m hm
    obtain ⟨⟨slot, i⟩, hmember, rfl⟩ := List.mem_map.mp hm
    obtain ⟨hslot, hi⟩ := mem_members.mp hmember
    obtain ⟨t, -, hdue⟩ := deadline?_evaluate h hnodup hslot hi
    exact Evaluation.settled_member.congr hdue
  published := by
    rw [members_evaluate h hnodup, List.filterMap_map]
    rfl

end
end Engine
end LinkAggregation
