import LinkAggregation.Timer.Schedule
import Mathlib.Data.List.Pairwise

/-!
# Expiry of timers

In a well-formed schedule every armed deadline stands where expiry looks for it. What fires is then
exactly what is due, each key once, and the deadlines of all other keys stay. Operations on the
timers of one key leave the deadlines of the other keys alone.
-/
namespace LinkAggregation

namespace Scheduled

theorem deadline_le_of_not_before {a b : Scheduled} (h : b.before a = false) :
    a.deadline ≤ b.deadline := by
  by_contra hlt
  have : b.before a = true := by simp [before]; omega
  simp [this] at h

/-- Not coming after is transitive. -/
theorem not_before_trans {a b c : Scheduled} (hab : b.before a = false) (hbc : c.before b = false) :
    c.before a = false := by
  simp only [before, Bool.or_eq_false_iff, Bool.and_eq_false_iff, decide_eq_false_iff_not,
    beq_eq_false_iff_ne] at *
  omega

theorem not_before_of_before {a b : Scheduled} (h : a.before b = true) : b.before a = false := by
  simp only [before, Bool.or_eq_true, Bool.and_eq_true, decide_eq_true_eq, beq_iff_eq,
    Bool.or_eq_false_iff, Bool.and_eq_false_iff, decide_eq_false_iff_not,
    beq_eq_false_iff_ne] at *
  omega

end Scheduled

theorem TimerKey.ne_fallback {key : TimerKey} {slot : Nat} (hkey : key.interface? = some slot)
    (l : Nat) : key ≠ .fallback l := by
  intro hfallback
  rw [hfallback] at hkey
  simp [interface?] at hkey

namespace Timers

/-- The schedule is ascending, no generation occurs twice in it, and every armed deadline is in
it. -/
structure Covered (schedule : List Scheduled) (armed : List (TimerKey × Armed)) : Prop where
  ascending : schedule.Pairwise fun a b => b.before a = false
  distinct : schedule.Pairwise fun a b => a.generation ≠ b.generation
  scheduled : ∀ key a, Assoc.get? key armed = some a → ⟨a.deadline, key, a.generation⟩ ∈ schedule

/-- All generations were given out, and the schedule covers what is armed. -/
structure WellFormed (t : Timers) : Prop where
  covered : Covered t.schedule t.armed
  generation_le : ∀ s ∈ t.schedule, s.generation ≤ t.generation

theorem wellFormed_empty : WellFormed {} :=
  ⟨⟨List.Pairwise.nil, List.Pairwise.nil, by simp⟩, by simp⟩

/-! ## Arming and cancelling -/

@[simp] theorem mem_place {s x : Scheduled} {l : List Scheduled} :
    x ∈ place s l ↔ x = s ∨ x ∈ l := by
  induction l with
  | nil => simp [place]
  | cons t rest ih =>
    simp only [place]
    split
    · simp
    · simp only [List.mem_cons, ih]
      exact or_left_comm

theorem pairwise_place {s : Scheduled} {l : List Scheduled}
    (h : l.Pairwise fun a b => b.before a = false) :
    (place s l).Pairwise fun a b => b.before a = false := by
  induction l with
  | nil => simp [place]
  | cons t rest ih =>
    obtain ⟨ht, hrest⟩ := List.pairwise_cons.mp h
    simp only [place]
    split
    · next hs =>
      have hst := Scheduled.not_before_of_before hs
      refine List.pairwise_cons.mpr ⟨?_, h⟩
      intro x hx
      obtain rfl | hx := List.mem_cons.mp hx
      · exact hst
      · exact Scheduled.not_before_trans hst (ht x hx)
    · next hs =>
      refine List.pairwise_cons.mpr ⟨?_, ih hrest⟩
      intro x hx
      obtain rfl | hx := mem_place.mp hx
      · simpa using hs
      · exact ht x hx

theorem pairwise_generation_place {s : Scheduled} {l : List Scheduled}
    (hs : ∀ x ∈ l, x.generation ≠ s.generation)
    (h : l.Pairwise fun a b => a.generation ≠ b.generation) :
    (place s l).Pairwise fun a b => a.generation ≠ b.generation := by
  induction l with
  | nil => simp [place]
  | cons t rest ih =>
    obtain ⟨ht, hrest⟩ := List.pairwise_cons.mp h
    simp only [place]
    split
    · exact List.pairwise_cons.mpr ⟨fun x hx => (hs x hx).symm, h⟩
    · refine List.pairwise_cons.mpr ⟨?_, ih (fun x hx => hs x (by simp [hx])) hrest⟩
      intro x hx
      obtain rfl | hx := mem_place.mp hx
      · exact hs t (by simp)
      · exact ht x hx

theorem WellFormed.arm {t : Timers} (h : t.WellFormed) (key : TimerKey) (deadline : Nat) :
    (t.arm key deadline).WellFormed where
  covered := by
    refine ⟨pairwise_place h.covered.ascending, ?_, ?_⟩
    · refine pairwise_generation_place ?_ h.covered.distinct
      intro x hx
      have := h.generation_le x hx
      simp only
      omega
    · intro k a ha
      simp only [Timers.arm, Assoc.get?_put] at ha
      split at ha
      · next hk =>
        cases ha
        simp [Timers.arm, hk]
      · exact mem_place.mpr (.inr (h.covered.scheduled k a ha))
  generation_le := by
    intro s hs
    obtain rfl | hs := mem_place.mp hs
    · exact Nat.le_refl _
    · have := h.generation_le s hs
      simp only [Timers.arm]
      omega

theorem WellFormed.armIfIdle {t : Timers} (h : t.WellFormed) (key : TimerKey) (deadline : Nat) :
    (t.armIfIdle key deadline).WellFormed := by
  unfold Timers.armIfIdle
  split
  · exact h
  · exact h.arm key deadline

theorem WellFormed.cancel {t : Timers} (h : t.WellFormed) (key : TimerKey) :
    (t.cancel key).WellFormed := by
  refine ⟨⟨h.covered.ascending, h.covered.distinct, ?_⟩, h.generation_le⟩
  intro k a ha
  simp only [Timers.cancel, Assoc.get?_erase] at ha
  split at ha
  · simp at ha
  · exact h.covered.scheduled k a ha

theorem WellFormed.cancelInterface {t : Timers} (h : t.WellFormed) (slot : Nat) :
    (t.cancelInterface slot).WellFormed := by
  refine ⟨⟨h.covered.ascending, h.covered.distinct, ?_⟩, h.generation_le⟩
  intro k a ha
  simp only [Timers.cancelInterface] at ha
  by_cases hk : k.interface? = some slot
  · rw [Assoc.get?_filter_of_forall_not (by simp [hk])] at ha
    simp at ha
  · rw [Assoc.get?_filter_of_forall (by simp [hk])] at ha
    exact h.covered.scheduled k a ha

@[simp] theorem deadline?_armIfIdle (t : Timers) (key key' : TimerKey) (deadline : Nat) :
    (t.armIfIdle key' deadline).deadline? key =
      if key = key' then some ((t.deadline? key').getD deadline) else t.deadline? key := by
  unfold armIfIdle isArmed
  by_cases h : key = key'
  · subst h
    cases hd : t.deadline? key <;> simp [hd]
  · split <;> simp [h]

/-! ## Expiry -/

namespace Covered
variable {s : Scheduled} {rest schedule : List Scheduled} {armed : List (TimerKey × Armed)}

/-- A live deadline is the one that its key is armed with. -/
theorem get?_of_isLive (h : Covered schedule armed) (hs : s ∈ schedule)
    (hlive : isLive armed s = true) :
    Assoc.get? s.key armed = some ⟨s.deadline, s.generation⟩ := by
  simp only [isLive, Option.any_eq_true, beq_iff_eq] at hlive
  obtain ⟨a, ha, hgen⟩ := hlive
  have hmem := h.scheduled _ _ ha
  have heq : (⟨a.deadline, s.key, a.generation⟩ : Scheduled) = s := by
    by_contra hne
    have : Std.Symm fun a b : Scheduled => a.generation ≠ b.generation :=
      ⟨fun _ _ hab => hab.symm⟩
    exact h.distinct.forall hmem hs hne hgen
  rw [ha, ← heq]

/-- Behind a deadline that has not come, none has. -/
theorem lt_of_lt_head {now : Nat} (h : Covered (s :: rest) armed) (hnow : now < s.deadline)
    {key : TimerKey} {a : Armed} (ha : Assoc.get? key armed = some a) : now < a.deadline := by
  obtain heq | hmem := List.mem_cons.mp (h.scheduled key a ha)
  · rw [← heq] at hnow
    exact hnow
  · have hle := (List.pairwise_cons.mp h.ascending).1 _ hmem
    have := Scheduled.deadline_le_of_not_before hle
    simp only at this
    omega

/-- The first deadline may go together with its key. -/
theorem erase_head (h : Covered (s :: rest) armed) :
    Covered rest (Assoc.erase s.key armed) := by
  refine ⟨(List.pairwise_cons.mp h.ascending).2, (List.pairwise_cons.mp h.distinct).2, ?_⟩
  intro key a ha
  rw [Assoc.get?_erase] at ha
  split at ha
  · simp at ha
  · next hne =>
    obtain heq | hmem := List.mem_cons.mp (h.scheduled key a ha)
    · exact absurd (congrArg Scheduled.key heq) hne
    · exact hmem

/-- The first deadline may go if it is stale. -/
theorem drop_head (h : Covered (s :: rest) armed) (hstale : isLive armed s = false) :
    Covered rest armed := by
  refine ⟨(List.pairwise_cons.mp h.ascending).2, (List.pairwise_cons.mp h.distinct).2, ?_⟩
  intro key a ha
  obtain heq | hmem := List.mem_cons.mp (h.scheduled key a ha)
  · have : isLive armed s = true := by simp [isLive, ← heq, ha]
    simp [this] at hstale
  · exact hmem

theorem filter_isLive (h : Covered schedule armed) :
    Covered (schedule.filter (isLive armed)) armed := by
  refine ⟨h.ascending.filter _, h.distinct.filter _, ?_⟩
  intro key a ha
  exact List.mem_filter.mpr ⟨h.scheduled key a ha, by simp [isLive, ha]⟩

end Covered

/-- Firing takes away what is due, and nothing else. -/
theorem get?_fire {now : Nat} {schedule : List Scheduled} {armed : List (TimerKey × Armed)}
    (h : Covered schedule armed) (key : TimerKey) :
    Assoc.get? key (fire now schedule armed).2.2 =
      (Assoc.get? key armed).filter (now < ·.deadline) := by
  fun_induction fire now schedule armed with
  | case1 armed =>
    have hnone : Assoc.get? key armed = none := by
      cases ha : Assoc.get? key armed with
      | none => rfl
      | some a => simpa using h.scheduled key a ha
    simp [hnone]
  | case2 s rest armed hnow =>
    cases ha : Assoc.get? key armed with
    | none => rfl
    | some a => simp [Option.filter_some, h.lt_of_lt_head hnow ha]
  | case3 s rest armed hnow hlive fired rest' armed' hfire ih =>
    have hget := h.get?_of_isLive (by simp) hlive
    simp only [hfire] at ih ⊢
    rw [ih h.erase_head, Assoc.get?_erase]
    split
    · next hk => simp [hk, hget, Option.filter_some, hnow]
    · rfl
  | case4 s rest armed hnow hlive ih => exact ih (h.drop_head (by simpa using hlive))

/-- What fires is what is due. -/
theorem mem_fire {schedule : List Scheduled} {armed : List (TimerKey × Armed)}
    (h : Covered schedule armed) (now : Nat) (key : TimerKey) :
    key ∈ (fire now schedule armed).1 ↔
      ∃ a, Assoc.get? key armed = some a ∧ a.deadline ≤ now := by
  fun_induction fire now schedule armed with
  | case1 armed =>
    simp only [List.not_mem_nil, false_iff, not_exists, not_and]
    intro a ha
    simpa using h.scheduled key a ha
  | case2 s rest armed hnow =>
    simp only [List.not_mem_nil, false_iff, not_exists, not_and]
    intro a ha
    have := h.lt_of_lt_head hnow ha
    omega
  | case3 s rest armed hnow hlive fired rest' armed' hfire ih =>
    have hget := h.get?_of_isLive (by simp) hlive
    simp only [hfire, Assoc.get?_erase] at ih
    simp only [List.mem_cons, ih h.erase_head]
    by_cases hk : key = s.key
    · subst hk
      simp [hget]
      omega
    · simp [hk]
  | case4 s rest armed hnow hlive ih => exact ih (h.drop_head (by simpa using hlive))

theorem nodup_fire {now : Nat} {schedule : List Scheduled} {armed : List (TimerKey × Armed)}
    (h : Covered schedule armed) : (fire now schedule armed).1.Nodup := by
  fun_induction fire now schedule armed with
  | case1 armed => exact List.nodup_nil
  | case2 s rest armed hnow => exact List.nodup_nil
  | case3 s rest armed hnow hlive fired rest' armed' hfire ih =>
    have hmem := mem_fire h.erase_head now s.key
    simp only [hfire, Assoc.get?_erase] at ih hmem
    exact List.nodup_cons.mpr ⟨by simp [hmem], ih h.erase_head⟩
  | case4 s rest armed hnow hlive ih => exact ih (h.drop_head (by simpa using hlive))

theorem covered_fire {now : Nat} {schedule : List Scheduled} {armed : List (TimerKey × Armed)}
    (h : Covered schedule armed) :
    Covered (fire now schedule armed).2.1 (fire now schedule armed).2.2 := by
  fun_induction fire now schedule armed with
  | case1 armed => exact h
  | case2 s rest armed hnow => exact h
  | case3 s rest armed hnow hlive fired rest' armed' hfire ih =>
    simp only [hfire] at ih
    exact ih h.erase_head
  | case4 s rest armed hnow hlive ih => exact ih (h.drop_head (by simpa using hlive))

theorem fire_schedule_subset (now : Nat) (schedule : List Scheduled)
    (armed : List (TimerKey × Armed)) : (fire now schedule armed).2.1 ⊆ schedule := by
  fun_induction fire now schedule armed with
  | case1 armed => exact List.Subset.refl _
  | case2 s rest armed hnow => exact List.Subset.refl _
  | case3 s rest armed hnow hlive fired rest' armed' hfire ih =>
    simp only [hfire] at ih
    exact List.subset_cons_of_subset _ ih
  | case4 s rest armed hnow hlive ih => exact List.subset_cons_of_subset _ ih

@[simp] theorem deadline?_compact (t : Timers) (key : TimerKey) :
    t.compact.deadline? key = t.deadline? key := by
  unfold compact
  split <;> rfl

theorem WellFormed.compact {t : Timers} (h : t.WellFormed) : t.compact.WellFormed := by
  unfold Timers.compact
  split
  · exact ⟨h.covered.filter_isLive, fun s hs => h.generation_le s (List.mem_filter.mp hs).1⟩
  · exact h

/-- Exactly the deadlines that have come are taken away. -/
theorem deadline?_expired {t : Timers} (h : t.WellFormed) (now : Nat) (key : TimerKey) :
    (t.expired now).2.deadline? key = (t.deadline? key).filter (now < ·) := by
  simp only [expired, deadline?_compact]
  simp only [deadline?, get?_fire h.covered]
  cases Assoc.get? key t.armed <;> simp [Option.filter]

/-- Exactly the keys whose deadline has come fire. -/
theorem mem_expired {t : Timers} (h : t.WellFormed) (now : Nat) (key : TimerKey) :
    key ∈ (t.expired now).1 ↔ ∃ d, t.deadline? key = some d ∧ d ≤ now := by
  simp only [expired, mem_fire h.covered, deadline?, Option.map_eq_some_iff]
  constructor
  · rintro ⟨a, ha, hle⟩
    exact ⟨a.deadline, ⟨a, ha, rfl⟩, hle⟩
  · rintro ⟨d, ⟨a, ha, rfl⟩, hle⟩
    exact ⟨a, ha, hle⟩

/-- No key fires twice. -/
theorem nodup_expired {t : Timers} (h : t.WellFormed) (now : Nat) : (t.expired now).1.Nodup :=
  nodup_fire h.covered

theorem WellFormed.expired {t : Timers} (h : t.WellFormed) (now : Nat) :
    (t.expired now).2.WellFormed := by
  refine WellFormed.compact ⟨covered_fire h.covered, ?_⟩
  intro s hs
  exact h.generation_le s (fire_schedule_subset _ _ _ hs)

end Timers
end LinkAggregation
