import LinkAggregation.Selection.Decide

/-!
# What selection guarantees

The candidates that pass all tests are enabled and go together: one key, one partner or none, one
speed as far as speeds are known. A slot that is selected or stands by is that of such a candidate,
and no more slots are selected than the limit allows.
-/
namespace LinkAggregation

namespace Assoc
variable {κ α : Type} [DecidableEq κ]

theorem mem_of_get? {key : κ} {value : α} {m : List (κ × α)} (h : get? key m = some value) :
    (key, value) ∈ m := by
  induction m with
  | nil => simp at h
  | cons p rest ih =>
    obtain ⟨k, v⟩ := p
    simp only [get?] at h
    split at h
    · next hk =>
      cases h
      simp [hk]
    · exact List.mem_cons_of_mem _ (ih h)

end Assoc

namespace Ballot
variable {b : Ballot} {c c' : Candidate} {arrange : Arrangement}

/-! ## The tests -/

@[simp] theorem mem_reject_pool {reason? : Candidate → Option Exclusion} :
    c ∈ (b.reject reason?).pool ↔ c ∈ b.pool ∧ reason? c = none := by
  simp [reject]

theorem mem_start_pool {candidates : List Candidate} :
    c ∈ (start candidates).pool ↔ c ∈ candidates ∧ c.enabled = true := by
  simp [start, List.mem_mergeSort]

theorem mem_byKey_pool {lagKey : UInt16} :
    c ∈ (b.byKey lagKey).pool ↔ c ∈ b.pool ∧ c.key = winningKey lagKey b.pool := by
  simp [byKey]

/-- The groups come in some order, none left out and none twice. -/
def Arrangement.Permutes (arrange : Arrangement) : Prop := ∀ groups, (arrange groups).Perm groups

theorem Arrangement.Permutes.refl : Arrangement.Permutes id := fun groups => .refl groups

theorem bestGroup_eq_none {groups : List (PartnerId × Nat)} (h : bestGroup groups = none) :
    groups = [] := by
  cases groups with
  | nil => rfl
  | cons g rest => simp [bestGroup] at h

/-- Nobody wins only if no candidate has a partner. -/
theorem partner_eq_none_of_no_winner (harrange : arrange.Permutes)
    (h : winningPartner arrange b.pool = none) (hc : c ∈ b.pool) : c.partner = none := by
  have hgroups : partnerGroups b.pool = [] := by
    have hnil := bestGroup_eq_none (Option.map_eq_none_iff.mp h)
    exact List.perm_nil.mp (hnil ▸ (harrange (partnerGroups b.pool)).symm)
  cases hp : c.partner with
  | none => rfl
  | some p =>
    have hmem : p ∈ (b.pool.filterMap (·.partner)).eraseDups := by
      simpa [List.mem_eraseDups] using ⟨c, hc, hp⟩
    simp only [partnerGroups, List.map_eq_nil_iff] at hgroups
    simp [hgroups] at hmem

theorem of_mem_byPartner_pool (harrange : arrange.Permutes)
    (hc : c ∈ (b.byPartner arrange).pool) :
    c ∈ b.pool ∧ c.partner = winningPartner arrange b.pool := by
  unfold byPartner at hc
  cases hw : winningPartner arrange b.pool with
  | none =>
    simp only [hw] at hc
    exact ⟨hc, partner_eq_none_of_no_winner harrange hw hc⟩
  | some winner =>
    simp only [hw, mem_reject_pool] at hc
    obtain ⟨hc, hobjection⟩ := hc
    refine ⟨hc, ?_⟩
    unfold partnerObjection at hobjection
    cases hp : c.partner with
    | none => simp [hp] at hobjection
    | some p =>
      by_cases hpw : p = winner
      · rw [hpw]
      · simp [hp, hpw] at hobjection

theorem of_mem_bySpeed_pool (hc : c ∈ b.bySpeed.pool) :
    c ∈ b.pool ∧ ∀ s, c.speed = some s → referenceSpeed b.pool = some s := by
  unfold bySpeed at hc
  cases hr : referenceSpeed b.pool with
  | none =>
    simp only [hr] at hc
    refine ⟨hc, fun s hs => ?_⟩
    have hnone := List.findSome?_eq_none_iff.mp hr c hc
    simp [hs] at hnone
  | some reference =>
    simp only [hr, mem_reject_pool] at hc
    obtain ⟨hc, hobjection⟩ := hc
    refine ⟨hc, fun s hs => ?_⟩
    unfold speedObjection at hobjection
    simp only [hs, ite_eq_left_iff, reduceCtorEq, imp_false, Decidable.not_not] at hobjection
    rw [hobjection]

/-! ## All tests -/

variable {input : SelectionInput}

theorem byKey_of_mem_run_pool (harrange : arrange.Permutes) (hc : c ∈ (run arrange input).pool) :
    c ∈ ((start input.candidates).byKey input.lagKey).pool := by
  obtain ⟨hc, -⟩ := of_mem_bySpeed_pool hc
  split at hc
  · exact (of_mem_byPartner_pool harrange hc).1
  · exact hc

theorem of_mem_run_pool (harrange : arrange.Permutes) (hc : c ∈ (run arrange input).pool) :
    c ∈ input.candidates ∧ c.enabled = true :=
  mem_start_pool.mp (mem_byKey_pool.mp (byKey_of_mem_run_pool harrange hc)).1

theorem key_eq_of_mem_run_pool (harrange : arrange.Permutes) (hc : c ∈ (run arrange input).pool)
    (hc' : c' ∈ (run arrange input).pool) : c.key = c'.key := by
  have hkey : ∀ x ∈ (run arrange input).pool,
      x.key = winningKey input.lagKey (start input.candidates).pool := by
    intro x hx
    exact (mem_byKey_pool.mp (byKey_of_mem_run_pool harrange hx)).2
  rw [hkey c hc, hkey c' hc']

theorem partner_eq_of_mem_run_pool (harrange : arrange.Permutes) (hdynamic : input.dynamic = true)
    (hc : c ∈ (run arrange input).pool) (hc' : c' ∈ (run arrange input).pool) :
    c.partner = c'.partner := by
  have hpartner : ∀ x ∈ (run arrange input).pool,
      x.partner = winningPartner arrange ((start input.candidates).byKey input.lagKey).pool := by
    intro x hx
    obtain ⟨hx, -⟩ := of_mem_bySpeed_pool hx
    rw [if_pos hdynamic] at hx
    exact (of_mem_byPartner_pool harrange hx).2
  rw [hpartner c hc, hpartner c' hc']

theorem speed_eq_of_mem_run_pool (hc : c ∈ (run arrange input).pool)
    (hc' : c' ∈ (run arrange input).pool) {s s' : Nat} (hs : c.speed = some s)
    (hs' : c'.speed = some s') : s = s' := by
  have href := (of_mem_bySpeed_pool hc).2 s hs
  have href' := (of_mem_bySpeed_pool hc').2 s' hs'
  exact Option.some.inj (href.symm.trans href')

/-- A ballot only ever decides against candidates. -/
def OnlyRejects (b : Ballot) : Prop := ∀ d ∈ b.decided, ∃ reason, d.2 = Selection.unselected reason

theorem OnlyRejects.reject (h : b.OnlyRejects) (reason? : Candidate → Option Exclusion) :
    (b.reject reason?).OnlyRejects := by
  intro d hd
  simp only [Ballot.reject, List.mem_append, List.mem_reverse, List.mem_filterMap,
    Option.map_eq_some_iff] at hd
  obtain ⟨c, -, reason, -, rfl⟩ | hd := hd
  · exact ⟨reason, rfl⟩
  · exact h d hd

theorem onlyRejects_run (arrange : Arrangement) (input : SelectionInput) :
    (run arrange input).OnlyRejects := by
  have hstart : (start input.candidates).OnlyRejects := by
    intro d hd
    simp only [start, List.mem_reverse, List.mem_map] at hd
    obtain ⟨c, -, rfl⟩ := hd
    exact ⟨.disabled, rfl⟩
  have hkey : ((start input.candidates).byKey input.lagKey).OnlyRejects := hstart.reject _
  have hpartner : (if input.dynamic then
      ((start input.candidates).byKey input.lagKey).byPartner arrange
      else (start input.candidates).byKey input.lagKey).OnlyRejects := by
    split
    · unfold byPartner
      split
      · exact hkey
      · exact hkey.reject _
    · exact hkey
  unfold run bySpeed
  simp only
  split
  · exact hpartner
  · exact hpartner.reject _

end Ballot

/-! ## The outcome -/

section
variable {input : SelectionInput} {slot : Nat}

theorem mem_active_of_selected (h : (select input).decision slot = .selected) :
    slot ∈ (select input).active := by
  unfold SelectionOutput.decision at h
  cases hget : Assoc.get? slot (select input).decided with
  | none => simp [hget, Selection.initial] at h
  | some v =>
    simp only [hget, Option.getD_some] at h
    subst h
    have hmem := Assoc.mem_of_get? hget
    simp only [select, selectIn, List.mem_append, List.mem_reverse, List.mem_map] at hmem ⊢
    obtain (⟨_, -, heq⟩ | ⟨s, hs, heq⟩) | hmem := hmem
    · simp at heq
    · cases heq
      exact hs
    · obtain ⟨reason, hreason⟩ := Ballot.onlyRejects_run id input _ hmem
      simp at hreason

/-- No more slots are selected than the limit allows. -/
theorem length_active_le : (select input).active.length ≤ input.maxMembers := by
  simp only [select, selectIn, List.length_map, List.length_take]
  omega

theorem pool_of_mem_active (h : slot ∈ (select input).active) :
    ∃ c ∈ (Ballot.run id input).pool, c.slot = slot := by
  obtain ⟨c, hc, rfl⟩ := List.mem_map.mp h
  exact ⟨c, List.mem_of_mem_take hc, rfl⟩

/-- Whoever is selected or stands by has passed all tests. -/
theorem pool_of_eligible (h : ((select input).decision slot).isEligible = true) :
    ∃ c ∈ (Ballot.run id input).pool, c.slot = slot := by
  unfold SelectionOutput.decision at h
  cases hget : Assoc.get? slot (select input).decided with
  | none => simp [hget, Selection.initial, Selection.isEligible] at h
  | some v =>
    simp only [hget, Option.getD_some] at h
    have hmem := Assoc.mem_of_get? hget
    simp only [select, selectIn, List.mem_append, List.mem_reverse, List.mem_map] at hmem
    obtain (⟨_, ⟨c, hc, rfl⟩, heq⟩ | ⟨_, ⟨c, hc, rfl⟩, heq⟩) | hmem := hmem
    · cases heq
      exact ⟨c, List.mem_of_mem_drop hc, rfl⟩
    · cases heq
      exact ⟨c, List.mem_of_mem_take hc, rfl⟩
    · obtain ⟨reason, hreason⟩ := Ballot.onlyRejects_run id input _ hmem
      simp only at hreason
      simp [hreason, Selection.isEligible] at h

end
end LinkAggregation
