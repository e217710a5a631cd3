/-!
# Association lists

A finite map as a list of pairs with different keys. `get?` looks up; `put` and `erase` are
described by what `get?` answers after them.
-/
namespace LinkAggregation.Assoc
variable {κ α : Type} [DecidableEq κ]

/-- The value of the first pair with this key. -/
def get? (key : κ) : List (κ × α) → Option α
  | [] => none
  | (k, v) :: rest => if k = key then some v else get? key rest

/-- Removes every pair with this key. -/
def erase (key : κ) (m : List (κ × α)) : List (κ × α) := m.filter fun p => p.1 ≠ key

/-- Gives the key this value. -/
def put (key : κ) (value : α) (m : List (κ × α)) : List (κ × α) := (key, value) :: erase key m

@[simp] theorem get?_nil (key : κ) : get? key ([] : List (κ × α)) = none := rfl

@[simp] theorem get?_filter_of_forall {p : κ × α → Bool} {key : κ} {m : List (κ × α)}
    (h : ∀ v, p (key, v) = true) : get? key (m.filter p) = get? key m := by
  induction m with
  | nil => rfl
  | cons q rest ih =>
    obtain ⟨k, v⟩ := q
    by_cases hk : k = key
    · subst hk; simp [h, get?]
    · cases hp : p (k, v) <;> simp [hp, get?, hk, ih]

theorem get?_filter_of_forall_not {p : κ × α → Bool} {key : κ} {m : List (κ × α)}
    (h : ∀ v, p (key, v) = false) : get? key (m.filter p) = none := by
  induction m with
  | nil => rfl
  | cons q rest ih =>
    obtain ⟨k, v⟩ := q
    by_cases hk : k = key
    · subst hk; simp [h, ih]
    · cases hp : p (k, v) <;> simp [hp, get?, hk, ih]

@[simp] theorem get?_erase (key key' : κ) (m : List (κ × α)) :
    get? key (erase key' m) = if key = key' then none else get? key m := by
  split
  · next h => exact get?_filter_of_forall_not (by simp [h])
  · next h => exact get?_filter_of_forall (by simp [h])

@[simp] theorem get?_put (key key' : κ) (value : α) (m : List (κ × α)) :
    get? key (put key' value m) = if key = key' then some value else get? key m := by
  by_cases h : key = key'
  · subst h; simp [put, get?]
  · simp [put, get?, Ne.symm h, h]

end LinkAggregation.Assoc
