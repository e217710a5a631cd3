import LinkAggregation.Proofs.Engine.Members

/-!
# Interfaces outside all LAGs

An interface may be added, changed or removed without any LAG taking notice, as long as it is in no
LAG before and after. The queues of pending work matter to no LAG either.
-/
namespace LinkAggregation.Engine
variable {e e' : Engine} {slot : Nat} {i : Interface} {changed : Nat → Prop}

/-- What keeps to interfaces outside all LAGs keeps the engine coherent. -/
theorem Coherent.outside (h : e.Coherent changed [])
    (hkeeps : e' = { e with interfaces := e'.interfaces, timers := e'.timers })
    (hindexed : e'.interfaces.Indexed Interface.name) (hwf : e'.timers.WellFormed)
    (hget : ∀ l slot, e.IsMember l slot → e'.interfaces.get? slot = e.interfaces.get? slot)
    (hnew : ∀ l slot, e'.IsMember l slot → e.IsMember l slot)
    (htimers : ∀ l key, e.Owns l key → e'.timers.deadline? key = e.timers.deadline? key)
    (hgone : ∀ key, (e'.timers.deadline? key).isSome = true →
      (e.timers.deadline? key).isSome = true) : e'.Coherent changed [] := by
  have hlags : e'.lags = e.lags := by rw [hkeeps]
  have hnow : e'.now = e.now := by rw [hkeeps]
  have hmember : ∀ l slot, e'.IsMember l slot ↔ e.IsMember l slot := by
    intro l slot
    refine ⟨hnew l slot, fun hmember => ?_⟩
    obtain ⟨i, hi, hlag⟩ := hmember
    exact ⟨i, (hget l slot ⟨i, hi, hlag⟩).trans hi, hlag⟩
  have howns : ∀ l key, e'.Owns l key ↔ e.Owns l key := by
    intro l key
    simp only [Owns, hmember]
  have hmembers : ∀ l lag, e.lags.get? l = some lag → ∀ slot ∈ lag.members,
      e'.interfaces.get? slot = e.interfaces.get? slot := fun l lag hl slot hslot =>
    hget l slot ((h.members l lag hl slot).mp hslot)
  have hdue : ∀ l lag, e.lags.get? l = some lag → ∀ (key : TimerKey) slot, slot ∈ lag.members →
      key.interface? = some slot → e'.timers.deadline? key = e.timers.deadline? key := by
    intro l lag hl key slot hslot hkey
    exact htimers l key (h.owns_of_mem hl hslot hkey)
  refine
    { interfaces := hindexed
      lags := by rw [hlags]; exact h.lags
      timers := hwf
      ascending := by rw [hlags]; exact h.ascending
      members := ?_
      live := ?_
      owned := ?_
      sound := ?_
      settled := ?_ }
  · intro l lag hl slot
    rw [hlags] at hl
    rw [hmember]
    exact h.members l lag hl slot
  · intro l slot hslot
    rw [hmember] at hslot
    rw [hlags]
    exact h.live l slot hslot
  · intro key hkey
    rw [due_nil] at hkey
    obtain ⟨l, hl, hown⟩ := h.owned key (by rw [due_nil]; exact hgone key hkey)
    exact ⟨l, by rw [hlags]; exact hl, (howns l key).mpr hown⟩
  · intro l lag hl
    rw [hlags] at hl
    refine (h.sound l lag hl).congr hnow (hmembers l lag hl) ?_ ?_ id
    · rw [due_nil, due_nil]
      exact htimers l _ (.inl rfl)
    · rw [due_nil, due_nil]
      exact hdue l lag hl
  · intro l lag hl hnot
    rw [hlags] at hl
    refine (h.settled l lag hl hnot).congr (members_congr rfl (hmembers l lag hl)) ?_ ?_
      (htimers l _ (.inl rfl)) (hdue l lag hl)
    · rw [hkeeps]
      rfl
    · rw [hkeeps]

/-- The queues hold work that is yet to be done. -/
theorem Coherent.of_queues (h : e.Coherent changed [])
    (hkeeps : e = { e' with
      systemQueue := e.systemQueue
      lagQueue := e.lagQueue
      memberQueue := e.memberQueue
      portQueue := e.portQueue
      eventQueue := e.eventQueue }) : e'.Coherent changed [] := by
  rw [hkeeps] at h
  exact
    { interfaces := h.interfaces
      lags := h.lags
      timers := h.timers
      ascending := h.ascending
      members := h.members
      live := h.live
      owned := h.owned
      sound := fun l lag hl =>
        have hsound := h.sound l lag hl
        ⟨hsound.timeout, hsound.fallback, hsound.member⟩
      settled := fun l lag hl hnot =>
        have hsettled := h.settled l lag hl hnot
        ⟨hsettled.fallback, hsettled.granted, hsettled.selection, hsettled.member,
          hsettled.published⟩ }

/-! ## Interfaces that come, change and go -/

theorem not_isMember_of_lag_eq_none (hi : e.interfaces.get? slot = some i) (hlag : i.lag = none)
    (l : Nat) : ¬ e.IsMember l slot := by
  rintro ⟨j, hj, hl⟩
  obtain rfl : i = j := Option.some.inj (hi.symm.trans hj)
  simp [hlag] at hl

section
variable (h : e.Coherent changed [])
include h

/-- A new interface takes a free slot. -/
theorem Coherent.ensureInterface (name : String) :
    (e.ensureInterface name).1.Coherent changed [] := by
  unfold Engine.ensureInterface
  cases hfind : e.interfaces.find? name with
  | some slot => exact h
  | none =>
    have hne : ∀ l slot, e.IsMember l slot → slot ≠ e.interfaces.freeSlot := by
      rintro l slot ⟨i, hi, -⟩ rfl
      simp [Arena.get?_freeSlot] at hi
    refine h.outside rfl ?_ h.timers ?_ ?_ (fun _ _ _ => rfl) fun _ hkey => hkey
    · have hnew : e.interfaces.find? (Interface.new name e.interfaces.freeSlot).name = none := hfind
      exact h.interfaces.insert hnew
    · intro l slot hslot
      exact Arena.get?_insert_of_ne _ _ (hne l slot hslot)
    · rintro l slot ⟨i, hi, hlag⟩
      by_cases hslot : slot = e.interfaces.freeSlot
      · subst hslot
        simp only [Arena.get?_insert_freeSlot, Option.some.injEq] at hi
        subst hi
        simp [Interface.new] at hlag
      · simp only [Arena.get?_insert_of_ne _ _ hslot] at hi
        exact ⟨i, hi, hlag⟩

variable (hi : e.interfaces.get? slot = some i) (hlag : i.lag = none)
include hi hlag

/-- A change of an interface that stays outside. -/
theorem Coherent.modify_outside {f : Interface → Interface} (hname : (f i).name = i.name)
    (hstay : (f i).lag = none) : (e.modifyInterface slot f).Coherent changed [] := by
  have hne : ∀ l slot', e.IsMember l slot' → slot ≠ slot' := by
    rintro l slot' hmember rfl
    exact not_isMember_of_lag_eq_none hi hlag l hmember
  refine h.outside rfl ?_ h.timers ?_ ?_ (fun _ _ _ => rfl) fun _ hkey => hkey
  · refine h.interfaces.modify fun j hj => ?_
    obtain rfl : i = j := Option.some.inj (hi.symm.trans hj)
    exact hname
  · intro l slot' hmember
    simp [modifyInterface, hne l slot' hmember]
  · rintro l slot' ⟨j, hj, hl⟩
    by_cases hslot : slot = slot'
    · subst hslot
      simp only [modifyInterface, Arena.get?_modify, if_pos, hi, Option.map_some,
        Option.some.injEq] at hj
      subst hj
      simp [hstay] at hl
    · simp only [modifyInterface, Arena.get?_modify, if_neg hslot] at hj
      exact ⟨j, hj, hl⟩

/-- An interface outside all LAGs is forgotten. -/
theorem Coherent.remove_outside {name : String} (hfind : e.interfaces.find? name = some slot) :
    { e with
      timers := e.timers.cancelInterface slot
      interfaces := e.interfaces.remove name slot }.Coherent changed [] := by
  have hne : ∀ l slot', e.IsMember l slot' → slot ≠ slot' := by
    rintro l slot' hmember rfl
    exact not_isMember_of_lag_eq_none hi hlag l hmember
  refine h.outside rfl (h.interfaces.remove hfind) (h.timers.cancelInterface slot) ?_ ?_ ?_ ?_
  · intro l slot' hmember
    simp [hne l slot' hmember]
  · rintro l slot' ⟨j, hj, hl⟩
    by_cases hslot : slot = slot'
    · simp [hslot] at hj
    · simp only [Arena.get?_remove, if_neg hslot] at hj
      exact ⟨j, hj, hl⟩
  · intro l key howns
    rw [Timers.deadline?_cancelInterface, if_neg]
    intro hkey
    exact not_isMember_of_lag_eq_none hi hlag l ((owns_of_interface hkey).mp howns)
  · intro key hkey
    rw [Timers.deadline?_cancelInterface] at hkey
    split at hkey
    · simp at hkey
    · exact hkey

end
end LinkAggregation.Engine
