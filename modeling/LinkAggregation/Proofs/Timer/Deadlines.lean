import LinkAggregation.Proofs.Timer.Expiry
import Mathlib.Data.Finset.Card
import Mathlib.Data.List.Perm.Subperm

/-!
# Timers are a map of deadlines

Whatever is asked of the timers, in any order and with any deadlines and times, they answer as a
plain map from keys to deadlines does. What fires comes in the order of the map's deadlines, and of
the keys among equal ones. Stale deadlines and generations are seen by nobody, and after an expiry
the schedule is not much longer than the map.
-/
namespace LinkAggregation

/-! ## The map -/

/-- The deadline of each key that has one. -/
abbrev Deadlines := TimerKey → Option Nat

/-- What may be asked of timers that changes them. -/
inductive TimerRequest where
  | arm (key : TimerKey) (deadline : Nat)
  | armIfIdle (key : TimerKey) (deadline : Nat)
  | cancel (key : TimerKey)
  | cancelInterface (slot : Nat)
  /-- The keys that are due at this time fire. -/
  | expire (now : Nat)
  deriving DecidableEq, Repr

/-- The order of the kinds, and of the slots of one kind. -/
def TimerKey.Less (a b : TimerKey) : Prop :=
  a.kind < b.kind ∨ a.kind = b.kind ∧ a.slot < b.slot

namespace Deadlines

/-- What a request makes of a plain map. -/
def perform (m : Deadlines) : TimerRequest → Deadlines
  | .arm key deadline => fun k => if k = key then some deadline else m k
  | .armIfIdle key deadline => fun k => if k = key then some ((m key).getD deadline) else m k
  | .cancel key => fun k => if k = key then none else m k
  | .cancelInterface slot => fun k => if k.interface? = some slot then none else m k
  | .expire now => fun k => (m k).filter (now < ·)

/-- The map that a sequence of requests makes of the empty one. -/
def after (requests : List TimerRequest) : Deadlines := requests.foldl perform fun _ => none

/-- The first key has the earlier deadline, or the same one and comes first itself. -/
def Before (m : Deadlines) (a b : TimerKey) : Prop :=
  ∃ d d', m a = some d ∧ m b = some d' ∧ (d < d' ∨ d = d' ∧ a.Less b)

/-- The keys that are due are exactly these, each once, by deadline and then by key. -/
structure Fires (m : Deadlines) (now : Nat) (keys : List TimerKey) : Prop where
  mem : ∀ key, key ∈ keys ↔ ∃ d, m key = some d ∧ d ≤ now
  ascending : keys.Pairwise m.Before

end Deadlines

namespace Timers

/-- What a request makes of the timers. -/
def perform (t : Timers) : TimerRequest → Timers
  | .arm key deadline => t.arm key deadline
  | .armIfIdle key deadline => t.armIfIdle key deadline
  | .cancel key => t.cancel key
  | .cancelInterface slot => t.cancelInterface slot
  | .expire now => (t.expired now).2

/-- The timers after a sequence of requests, with nothing armed at first. -/
def after (requests : List TimerRequest) : Timers := requests.foldl perform {}

/-- The timers answer every question as the map does. -/
structure Reads (t : Timers) (m : Deadlines) : Prop where
  deadline? : ∀ key, t.deadline? key = m key
  isArmed : ∀ key, t.isArmed key = (m key).isSome
  /-- The keys of the map are finitely many, and so many are pending. -/
  pendingCount : ∃ keys : Finset TimerKey,
    (∀ key, key ∈ keys ↔ (m key).isSome = true) ∧ t.pendingCount = keys.card
  expired : ∀ now, m.Fires now (t.expired now).1
  /-- The schedule is not much longer than the map once timers have fired. -/
  short : ∀ now, (t.expired now).2.schedule.length ≤ 4 * (t.expired now).2.pendingCount + 64

end Timers

/-! ## The order of what fires -/

theorem TimerKey.Less.asymm {a b : TimerKey} (h : a.Less b) : ¬ b.Less a := by
  unfold TimerKey.Less at *
  omega

/-- What does not come before another deadline has a later one, or its key does not come first. -/
theorem Scheduled.less_of_not_before {a b : Scheduled} (h : b.before a = false)
    (hkey : a.key ≠ b.key) :
    a.deadline < b.deadline ∨ a.deadline = b.deadline ∧ a.key.Less b.key := by
  have hdiffer : a.key.kind ≠ b.key.kind ∨ a.key.slot ≠ b.key.slot := by
    by_contra hsame
    simp only [not_or, not_not] at hsame
    exact hkey (TimerKey.eq_of_kind_of_slot hsame.1 hsame.2)
  simp only [before, Bool.or_eq_false_iff, Bool.and_eq_false_iff, decide_eq_false_iff_not,
    beq_eq_false_iff_ne] at h
  unfold TimerKey.Less
  omega

namespace Deadlines
variable {m : Deadlines} {a b : TimerKey} {now : Nat} {keys keys' : List TimerKey}

theorem Before.congr {m' : Deadlines} (h : m.Before a b) (ha : m' a = m a) (hb : m' b = m b) :
    m'.Before a b := by
  obtain ⟨d, d', hd, hd', hle⟩ := h
  exact ⟨d, d', ha.trans hd, hb.trans hd', hle⟩

theorem Before.asymm (h : m.Before a b) : ¬ m.Before b a := by
  rintro ⟨e, e', he, he', hback⟩
  obtain ⟨d, d', hd, hd', hle⟩ := h
  obtain rfl : d = e' := Option.some.inj (hd.symm.trans he')
  obtain rfl : d' = e := Option.some.inj (hd'.symm.trans he)
  obtain hlt | ⟨heq, hless⟩ := hle
  · omega
  · obtain hlt | ⟨-, hless'⟩ := hback
    · omega
    · exact hless.asymm hless'

theorem Before.ne (h : m.Before a b) : a ≠ b := by
  rintro rfl
  exact h.asymm h

/-- The map determines what fires, and in which order. -/
theorem Fires.unique (h : m.Fires now keys) (h' : m.Fires now keys') : keys = keys' := by
  have hperm : keys.Perm keys' := by
    refine (List.perm_ext_iff_of_nodup ?_ ?_).mpr fun key => (h.mem key).trans (h'.mem key).symm
    · exact h.ascending.imp Before.ne
    · exact h'.ascending.imp Before.ne
  exact hperm.eq_of_pairwise (fun a b _ _ hab hba => absurd hba hab.asymm) h.ascending h'.ascending

end Deadlines

namespace Timers

/-- What fires comes in the order of the deadlines that were armed. -/
theorem pairwise_fire {now : Nat} {schedule : List Scheduled} {armed : List (TimerKey × Armed)}
    (h : Covered schedule armed) :
    (fire now schedule armed).1.Pairwise
      (Deadlines.Before fun key => (Assoc.get? key armed).map Armed.deadline) := by
  fun_induction fire now schedule armed with
  | case1 armed => exact List.Pairwise.nil
  | case2 s rest armed hnow => exact List.Pairwise.nil
  | case3 s rest armed hnow hlive fired rest' armed' hfire ih =>
    have hget := h.get?_of_isLive (by simp) hlive
    have hmem := fun key => mem_fire h.erase_head now key
    simp only [hfire, Assoc.get?_erase] at ih hmem
    -- Whatever fires later has another key, so it is still armed as before.
    have hkept : ∀ key ∈ fired, key ≠ s.key ∧ ∃ a, Assoc.get? key armed = some a := by
      intro key hkey
      obtain ⟨a, ha, -⟩ := (hmem key).mp hkey
      split at ha
      · simp at ha
      · next hne => exact ⟨hne, a, ha⟩
    refine List.pairwise_cons.mpr ⟨?_, ?_⟩
    · intro key hkey
      obtain ⟨hne, a, ha⟩ := hkept key hkey
      have hscheduled : ⟨a.deadline, key, a.generation⟩ ∈ rest := by
        obtain heq | hrest := List.mem_cons.mp (h.scheduled key a ha)
        · exact absurd (congrArg Scheduled.key heq) hne
        · exact hrest
      have hbefore := (List.pairwise_cons.mp h.ascending).1 _ hscheduled
      refine ⟨s.deadline, a.deadline, by simp [hget], by simp [ha], ?_⟩
      exact Scheduled.less_of_not_before hbefore (Ne.symm hne)
    · refine (ih h.erase_head).imp_of_mem ?_
      intro x y hx hy hxy
      refine hxy.congr ?_ ?_
      · simp [(hkept x hx).1]
      · simp [(hkept y hy).1]
  | case4 s rest armed hnow hlive ih => exact ih (h.drop_head (by simpa using hlive))

end Timers

/-! ## Keys are armed once -/

namespace Assoc
variable {κ α : Type} [DecidableEq κ]

theorem isSome_get?_iff {key : κ} {m : List (κ × α)} :
    (get? key m).isSome = true ↔ key ∈ m.map Prod.fst := by
  induction m with
  | nil => simp
  | cons p rest ih =>
    obtain ⟨k, v⟩ := p
    by_cases hk : k = key
    · simp [get?, hk]
    · simp [get?, hk, Ne.symm hk, ih]

theorem nodup_erase {key : κ} {m : List (κ × α)} (h : (m.map Prod.fst).Nodup) :
    ((erase key m).map Prod.fst).Nodup :=
  h.sublist (List.filter_sublist.map Prod.fst)

theorem nodup_put {key : κ} {value : α} {m : List (κ × α)} (h : (m.map Prod.fst).Nodup) :
    ((put key value m).map Prod.fst).Nodup := by
  refine List.nodup_cons.mpr ⟨?_, nodup_erase h⟩
  rw [← isSome_get?_iff, get?_erase]
  simp

end Assoc

namespace Timers
variable {t : Timers} {m : Deadlines}

/-- No key is armed twice. -/
def Single (t : Timers) : Prop := (t.armed.map Prod.fst).Nodup

theorem armed_compact (t : Timers) : t.compact.armed = t.armed := by
  unfold compact
  split <;> rfl

theorem fire_armed_sublist (now : Nat) (schedule : List Scheduled)
    (armed : List (TimerKey × Armed)) : (fire now schedule armed).2.2.Sublist armed := by
  fun_induction fire now schedule armed with
  | case1 armed => exact List.Sublist.refl armed
  | case2 s rest armed hnow => exact List.Sublist.refl armed
  | case3 s rest armed hnow hlive fired rest' armed' hfire ih =>
    simp only [hfire] at ih
    exact ih.trans List.filter_sublist
  | case4 s rest armed hnow hlive ih => exact ih

theorem Single.perform (h : t.Single) (r : TimerRequest) : (t.perform r).Single := by
  cases r with
  | arm key deadline => exact Assoc.nodup_put h
  | armIfIdle key deadline =>
    dsimp only [Timers.perform]
    unfold armIfIdle
    split
    · exact h
    · exact Assoc.nodup_put h
  | cancel key => exact Assoc.nodup_erase h
  | cancelInterface slot => exact h.sublist (List.filter_sublist.map Prod.fst)
  | expire now =>
    dsimp only [Timers.perform, Timers.expired]
    unfold Single
    rw [armed_compact]
    exact h.sublist ((fire_armed_sublist now t.schedule t.armed).map Prod.fst)

theorem WellFormed.perform (h : t.WellFormed) (r : TimerRequest) : (t.perform r).WellFormed := by
  cases r with
  | arm key deadline => exact h.arm key deadline
  | armIfIdle key deadline => exact h.armIfIdle key deadline
  | cancel key => exact h.cancel key
  | cancelInterface slot => exact h.cancelInterface slot
  | expire now => exact h.expired now

/-! ## The schedule stays short -/

/-- Of each armed key one deadline is live. -/
theorem Covered.length_filter_isLive_le {schedule : List Scheduled}
    {armed : List (TimerKey × Armed)} (h : Covered schedule armed) :
    (schedule.filter (isLive armed)).length ≤ armed.length := by
  have hlive : ∀ s ∈ schedule.filter (isLive armed),
      Assoc.get? s.key armed = some ⟨s.deadline, s.generation⟩ := by
    intro s hs
    obtain ⟨hmem, hlive⟩ := List.mem_filter.mp hs
    exact h.get?_of_isLive hmem hlive
  have hnodup : ((schedule.filter (isLive armed)).map Scheduled.key).Nodup := by
    refine List.pairwise_map.mpr ((h.filter_isLive.distinct).imp_of_mem ?_)
    intro a b ha hb hne hkey
    have heq := (hlive a ha).symm.trans ((congrArg (Assoc.get? · armed) hkey).trans (hlive b hb))
    exact hne (congrArg Armed.generation (Option.some.inj heq))
  have hsubset : (schedule.filter (isLive armed)).map Scheduled.key ⊆ armed.map Prod.fst := by
    intro key hkey
    obtain ⟨s, hs, rfl⟩ := List.mem_map.mp hkey
    rw [← Assoc.isSome_get?_iff, hlive s hs]
    rfl
  have hle := (hnodup.subperm hsubset).length_le
  simpa using hle

/-- Whatever was stale before, little of it is left. -/
theorem length_schedule_compact_le (h : Covered t.schedule t.armed) :
    t.compact.schedule.length ≤ 4 * t.compact.pendingCount + 64 := by
  unfold pendingCount compact
  split
  · have hle := h.length_filter_isLive_le
    dsimp only
    omega
  · omega

/-! ## Every run -/

/-- The timers stand for the map. -/
structure Represents (t : Timers) (m : Deadlines) : Prop where
  wellFormed : t.WellFormed
  single : t.Single
  deadline? : ∀ key, t.deadline? key = m key

theorem represents_empty : Represents {} fun _ => none :=
  ⟨wellFormed_empty, List.nodup_nil, fun _ => rfl⟩

/-- A request makes of the timers what it makes of the map. -/
theorem Represents.perform (h : t.Represents m) (r : TimerRequest) :
    (t.perform r).Represents (m.perform r) where
  wellFormed := h.wellFormed.perform r
  single := h.single.perform r
  deadline? := by
    intro key
    cases r with
    | arm key' deadline => simp [Timers.perform, Deadlines.perform, h.deadline?]
    | armIfIdle key' deadline => simp [Timers.perform, Deadlines.perform, h.deadline?]
    | cancel key' => simp [Timers.perform, Deadlines.perform, h.deadline?]
    | cancelInterface slot => simp [Timers.perform, Deadlines.perform, h.deadline?]
    | expire now =>
      simp [Timers.perform, Deadlines.perform, deadline?_expired h.wellFormed, h.deadline?]

theorem represents_after (requests : List TimerRequest) :
    (after requests).Represents (Deadlines.after requests) := by
  have hrun : ∀ {t : Timers} {m : Deadlines}, t.Represents m →
      (requests.foldl Timers.perform t).Represents (requests.foldl Deadlines.perform m) := by
    induction requests with
    | nil => exact fun h => h
    | cons r rest ih => exact fun h => ih (h.perform r)
  exact hrun represents_empty

/-- What fires is what the map says, in its order. -/
theorem Represents.fires (h : t.Represents m) (now : Nat) : m.Fires now (t.expired now).1 where
  mem := by
    intro key
    rw [mem_expired h.wellFormed, h.deadline?]
  ascending := by
    refine (pairwise_fire h.wellFormed.covered).imp ?_
    intro a b hab
    exact hab.congr (h.deadline? a).symm (h.deadline? b).symm

theorem Represents.reads (h : t.Represents m) : t.Reads m where
  deadline? := h.deadline?
  isArmed := by
    intro key
    rw [isArmed, h.deadline?]
  pendingCount := by
    refine ⟨(t.armed.map Prod.fst).toFinset, ?_, ?_⟩
    · intro key
      rw [List.mem_toFinset, ← Assoc.isSome_get?_iff, ← h.deadline?]
      simp [Timers.deadline?]
    · rw [List.toFinset_card_of_nodup h.single, List.length_map]
      rfl
  expired := h.fires
  short := fun _ => length_schedule_compact_le (covered_fire h.wellFormed.covered)

/-- After any requests the timers answer as the map does that the same requests make. If other
requests make the same map, the timers fire alike: nothing else of the past is seen. -/
theorem reads_after (requests : List TimerRequest) :
    (after requests).Reads (Deadlines.after requests) ∧
      ∀ others, Deadlines.after others = Deadlines.after requests →
        ∀ now, ((after others).expired now).1 = ((after requests).expired now).1 := by
  have hrepresents := represents_after requests
  refine ⟨hrepresents.reads, ?_⟩
  intro others hsame now
  have hothers := (represents_after others).fires now
  rw [hsame] at hothers
  exact hothers.unique (hrepresents.fires now)

/-- A timer that is armed again fires as if it had been armed once. -/
theorem reads_rearmed :
    let once : List TimerRequest := [.arm (.periodic 0) 30]
    let again : List TimerRequest := [.arm (.periodic 0) 10, .arm (.periodic 0) 30]
    Deadlines.after again = Deadlines.after once ∧
      ((after again).expired 20).1 = ((after once).expired 20).1 ∧
        ((after once).expired 30).1 = [.periodic 0] := by
  intro once again
  have hsame : Deadlines.after again = Deadlines.after once := by
    funext key
    simp only [Deadlines.after, Deadlines.perform, again, once, List.foldl_cons, List.foldl_nil]
    split <;> rfl
  exact ⟨hsame, (reads_after once).2 again hsame 20, by decide⟩

/-- A deadline that was replaced does not fire, whichever is earlier. -/
example : ((after [.arm (.periodic 0) 10, .arm (.periodic 0) 30, .arm (.fallback 0) 30,
    .arm (.waitWhile 1) 40, .arm (.waitWhile 1) 20]).expired 35).1 =
      [.waitWhile 1, .periodic 0, .fallback 0] := by
  decide

end Timers
end LinkAggregation
