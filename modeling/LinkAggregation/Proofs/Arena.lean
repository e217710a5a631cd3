import LinkAggregation.Arena

/-!
# Arenas and their index

What look-ups answer after each change of an arena. In an indexed arena the index leads from a name
to the slot that holds the value of this name, and to no other slot; every change that keeps to the
names keeps the arena indexed.
-/
namespace LinkAggregation.Arena
variable {α : Type}

/-! ## Slots after a change -/

theorem get?_freeSlot (a : Arena α) : a.get? a.freeSlot = none := by
  simp only [get?, freeSlot]
  cases h : a.slots[a.slots.findIdx Option.isNone]? with
  | none => rfl
  | some v =>
    obtain ⟨hlt, rfl⟩ := List.getElem?_eq_some_iff.mp h
    have := List.findIdx_getElem (w := hlt)
    simpa using this

theorem get?_insert_of_ne {a : Arena α} {slot : Nat} (name : String) (value : α)
    (h : slot ≠ a.freeSlot) : (a.insert name value).get? slot = a.get? slot := by
  simp only [get?, insert]
  split
  · simp [h.symm]
  · next hlen =>
    have hfree : a.freeSlot = a.slots.length :=
      Nat.le_antisymm List.findIdx_le_length (Nat.le_of_not_lt hlen)
    rw [hfree] at h
    obtain hlt | hgt := Nat.lt_or_gt_of_ne h
    · rw [List.getElem?_append_left hlt]
    · rw [List.getElem?_eq_none (by simp; omega), List.getElem?_eq_none (by omega)]

@[simp] theorem get?_remove (a : Arena α) (name : String) (slot slot' : Nat) :
    (a.remove name slot).get? slot' = if slot = slot' then none else a.get? slot' := by
  simp only [get?, remove, List.getElem?_set]
  split
  · next h => subst h; split <;> simp
  · rfl

@[simp] theorem get?_map (a : Arena α) (f : α → α) (slot : Nat) :
    (a.map f).get? slot = (a.get? slot).map f := by
  simp only [get?, map, List.getElem?_map]
  cases a.slots[slot]? <;> simp

@[simp] theorem find?_map (a : Arena α) (f : α → α) (name : String) :
    (a.map f).find? name = a.find? name := rfl

/-- Only what happens to the value in the slot matters. -/
theorem modify_congr {a : Arena α} {slot : Nat} {f g : α → α}
    (h : ∀ v, a.get? slot = some v → f v = g v) : a.modify slot f = a.modify slot g := by
  have hslots : a.slots.modify slot (Option.map f) = a.slots.modify slot (Option.map g) := by
    refine List.ext_getElem? fun i => ?_
    rw [List.getElem?_modify, List.getElem?_modify]
    split
    · next hi =>
      subst hi
      cases hv : a.slots[slot]? with
      | none => rfl
      | some o =>
        cases o with
        | none => rfl
        | some v => simp [h v (by simp [get?, hv])]
    · rfl
  simp [modify, hslots]

/-- Two changes of a slot are one. -/
theorem modify_modify (a : Arena α) (slot : Nat) (f g : α → α) :
    (a.modify slot f).modify slot g = a.modify slot fun v => g (f v) := by
  have hcomp : Option.map g ∘ Option.map f = Option.map fun v => g (f v) := by
    funext o
    cases o <;> rfl
  simp only [modify, List.modify_modify_eq, hcomp]

/-- What a change of a value leaves alone is as before everywhere. -/
theorem map_get?_modify {β : Type} {a : Arena α} {slot : Nat} {f : α → α} {g : α → β}
    (h : ∀ v, a.get? slot = some v → g (f v) = g v) (slot' : Nat) :
    ((a.modify slot f).get? slot').map g = (a.get? slot').map g := by
  rw [get?_modify]
  split
  · next heq =>
    subst heq
    cases hv : a.get? slot with
    | none => rfl
    | some v => exact congrArg some (h v hv)
  · rfl

/-- Changing the value in a slot to itself changes nothing. -/
theorem modify_eq_self {a : Arena α} {slot : Nat} {f : α → α}
    (h : ∀ v, a.get? slot = some v → f v = v) : a.modify slot f = a := by
  rw [modify_congr (g := id) h]
  simp [modify]

theorem mem_occupied {a : Arena α} {slot : Nat} :
    slot ∈ a.occupied ↔ ∃ v, a.get? slot = some v := by
  simp only [occupied, List.mem_filter, List.mem_range, Option.isSome_iff_exists]
  constructor
  · exact fun h => h.2
  · rintro ⟨v, hv⟩
    refine ⟨?_, v, hv⟩
    refine Nat.lt_of_not_le fun hge => ?_
    simp [get?, List.getElem?_eq_none hge] at hv

/-! ## The index -/

/-- The index leads from a name exactly to the slot of the value with this name. -/
def Indexed (name : α → String) (a : Arena α) : Prop :=
  ∀ n slot, a.find? n = some slot ↔ ∃ v, a.get? slot = some v ∧ name v = n

namespace Indexed
variable {name : α → String} {a : Arena α}

theorem empty : Indexed name ({} : Arena α) := by
  intro n slot
  simp [find?, get?]

theorem find?_of_get? (h : a.Indexed name) {slot : Nat} {v : α} (hv : a.get? slot = some v) :
    a.find? (name v) = some slot :=
  (h _ _).mpr ⟨v, hv, rfl⟩

theorem get?_of_find? (h : a.Indexed name) {n : String} {slot : Nat}
    (hn : a.find? n = some slot) : ∃ v, a.get? slot = some v ∧ name v = n :=
  (h _ _).mp hn

theorem name_of_find? (h : a.Indexed name) {n : String} {slot : Nat} {v : α}
    (hn : a.find? n = some slot) (hv : a.get? slot = some v) : name v = n := by
  obtain ⟨w, hw, hname⟩ := h.get?_of_find? hn
  rwa [Option.some.inj (hv.symm.trans hw)]

/-- A name is in one slot only. -/
theorem slot_unique (h : a.Indexed name) {s t : Nat} {v w : α} (hv : a.get? s = some v)
    (hw : a.get? t = some w) (hn : name v = name w) : s = t := by
  have hs := h.find?_of_get? hv
  rw [hn, h.find?_of_get? hw] at hs
  exact (Option.some.inj hs).symm

/-- A change of a value that keeps its name. -/
theorem modify (h : a.Indexed name) {slot : Nat} {f : α → α}
    (hf : ∀ v, a.get? slot = some v → name (f v) = name v) :
    (a.modify slot f).Indexed name := by
  intro n s
  rw [find?_modify, get?_modify, h n s]
  split
  · next hs =>
    subst hs
    constructor
    · rintro ⟨v, hv, rfl⟩
      exact ⟨f v, by simp [hv], hf v hv⟩
    · rintro ⟨w, hw, rfl⟩
      obtain ⟨v, hv, rfl⟩ := Option.map_eq_some_iff.mp hw
      exact ⟨v, hv, (hf v hv).symm⟩
  · rfl

theorem map (h : a.Indexed name) {f : α → α} (hf : ∀ v, name (f v) = name v) :
    (a.map f).Indexed name := by
  intro n s
  rw [find?_map, get?_map, h n s]
  constructor
  · rintro ⟨v, hv, rfl⟩
    exact ⟨f v, by simp [hv], hf v⟩
  · rintro ⟨w, hw, rfl⟩
    obtain ⟨v, hv, rfl⟩ := Option.map_eq_some_iff.mp hw
    exact ⟨v, hv, (hf v).symm⟩

/-- A new name takes a free slot. -/
theorem insert (h : a.Indexed name) {value : α} (hnew : a.find? (name value) = none) :
    (a.insert (name value) value).Indexed name := by
  intro n s
  rw [find?_insert]
  by_cases hs : s = a.freeSlot
  · subst hs
    rw [get?_insert_freeSlot]
    split
    · next hn => simp [hn]
    · next hn =>
      rw [h n a.freeSlot, get?_freeSlot]
      simp [Ne.symm hn]
  · rw [get?_insert_of_ne _ _ hs]
    split
    · next hn =>
      subst hn
      have hnone : ¬ ∃ v, a.get? s = some v ∧ name v = name value := by
        rw [← h (name value) s, hnew]
        simp
      simp [hnone, Ne.symm hs]
    · exact h n s

/-- A name goes with its slot. -/
theorem remove (h : a.Indexed name) {n : String} {slot : Nat} (hn : a.find? n = some slot) :
    (a.remove n slot).Indexed name := by
  intro m s
  rw [find?_remove, get?_remove]
  by_cases hs : slot = s
  · subst hs
    obtain ⟨v, hv, rfl⟩ := h.get?_of_find? hn
    simp only [if_pos, reduceCtorEq, false_and, exists_false, iff_false]
    split
    · simp
    · next hm =>
      rw [h m slot, hv]
      rintro ⟨w, hw, rfl⟩
      exact hm (by rw [Option.some.inj hw])
  · rw [if_neg hs]
    split
    · next hm =>
      subst hm
      rw [← h m s, hn]
      simp [hs]
    · exact h m s

end Indexed
end LinkAggregation.Arena
