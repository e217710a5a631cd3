import LinkAggregation.Proofs.Evaluation.Lag

/-!
# Changes within one LAG

Most of what the engine does concerns one LAG: it changes the LAG's record, its members and their
timers, and leaves everything else alone. Such changes follow one another, and an evaluation is one
of them.
-/
namespace LinkAggregation.Engine

/-- The interface in the slot is a member of the LAG. -/
def IsMember (e : Engine) (l slot : Nat) : Prop :=
  ∃ i, e.interfaces.get? slot = some i ∧ i.lag = some l

/-- The timer is that of the LAG or of one of its members. -/
def Owns (e : Engine) (l : Nat) (key : TimerKey) : Prop :=
  key = .fallback l ∨ ∃ slot, key.interface? = some slot ∧ e.IsMember l slot

variable {e e' e'' : Engine} {l : Nat}

theorem IsMember.unique {k slot : Nat} (h : e.IsMember l slot) (h' : e.IsMember k slot) :
    k = l := by
  obtain ⟨i, hi, hl⟩ := h
  obtain ⟨j, hj, hk⟩ := h'
  obtain rfl : i = j := Option.some.inj (hi.symm.trans hj)
  exact Option.some.inj (hk.symm.trans hl)

theorem Owns.unique {k : Nat} {key : TimerKey} (h : e.Owns l key) (h' : e.Owns k key) : k = l := by
  obtain rfl | ⟨slot, hslot, hmember⟩ := h
  · obtain heq | ⟨slot, hslot, -⟩ := h'
    · exact (TimerKey.fallback.inj heq).symm
    · simp [TimerKey.interface?] at hslot
  · obtain rfl | ⟨slot', hslot', hmember'⟩ := h'
    · simp [TimerKey.interface?] at hslot
    · obtain rfl : slot = slot' := Option.some.inj (hslot.symm.trans hslot')
      exact hmember.unique hmember'

theorem owns_of_interface {key : TimerKey} {slot : Nat} (hkey : key.interface? = some slot) :
    e.Owns l key ↔ e.IsMember l slot := by
  constructor
  · rintro (rfl | ⟨slot', hslot', hmember⟩)
    · simp [TimerKey.interface?] at hkey
    · obtain rfl : slot = slot' := Option.some.inj (hkey.symm.trans hslot')
      exact hmember
  · exact fun hmember => .inr ⟨slot, hkey, hmember⟩

/-- The engines differ at most within the LAG: in its settings and its state, in its members apart
from their names, and in their timers. -/
structure Within (l : Nat) (e e' : Engine) : Prop where
  system : e'.system = e.system
  maxMembers : e'.maxMembers = e.maxMembers
  connected : e'.connected = e.connected
  now : e'.now = e.now
  findInterface : ∀ name, e'.interfaces.find? name = e.interfaces.find? name
  findLag : ∀ name, e'.lags.find? name = e.lags.find? name
  outside : ∀ slot, ¬ e.IsMember l slot → e'.interfaces.get? slot = e.interfaces.get? slot
  inside : ∀ slot, (e'.interfaces.get? slot).map (fun i => (i.name, i.lag)) =
    (e.interfaces.get? slot).map fun i => (i.name, i.lag)
  others : ∀ k, k ≠ l → e'.lags.get? k = e.lags.get? k
  lag : (e'.lags.get? l).map (fun lag => (lag.name, lag.members)) =
    (e.lags.get? l).map fun lag => (lag.name, lag.members)
  timers : ∀ key, ¬ e.Owns l key → e'.timers.deadline? key = e.timers.deadline? key
  wellFormed : e.timers.WellFormed → e'.timers.WellFormed

namespace Within

theorem refl (l : Nat) (e : Engine) : Within l e e where
  system := rfl
  maxMembers := rfl
  connected := rfl
  now := rfl
  findInterface := fun _ => rfl
  findLag := fun _ => rfl
  outside := fun _ _ => rfl
  inside := fun _ => rfl
  others := fun _ _ => rfl
  lag := rfl
  timers := fun _ _ => rfl
  wellFormed := id

/-- An interface stays under its name in its LAG. -/
theorem interface (h : Within l e e') {slot : Nat} {i' : Interface}
    (hi : e'.interfaces.get? slot = some i') :
    ∃ i, e.interfaces.get? slot = some i ∧ i.name = i'.name ∧ i.lag = i'.lag := by
  have hinside := h.inside slot
  rw [hi] at hinside
  obtain ⟨i, hi, heq⟩ := Option.map_eq_some_iff.mp hinside.symm
  exact ⟨i, hi, congrArg Prod.fst heq, congrArg Prod.snd heq⟩

theorem interface' (h : Within l e e') {slot : Nat} {i : Interface}
    (hi : e.interfaces.get? slot = some i) :
    ∃ i', e'.interfaces.get? slot = some i' ∧ i'.name = i.name ∧ i'.lag = i.lag := by
  have hinside := h.inside slot
  rw [hi] at hinside
  obtain ⟨i', hi', heq⟩ := Option.map_eq_some_iff.mp hinside
  exact ⟨i', hi', congrArg Prod.fst heq, congrArg Prod.snd heq⟩

theorem isMember_iff (h : Within l e e') (k slot : Nat) :
    e'.IsMember k slot ↔ e.IsMember k slot := by
  constructor
  · rintro ⟨i', hi', hlag⟩
    obtain ⟨i, hi, -, heq⟩ := h.interface hi'
    exact ⟨i, hi, heq.trans hlag⟩
  · rintro ⟨i, hi, hlag⟩
    obtain ⟨i', hi', -, heq⟩ := h.interface' hi
    exact ⟨i', hi', heq.trans hlag⟩

theorem owns_iff (h : Within l e e') (k : Nat) (key : TimerKey) :
    e'.Owns k key ↔ e.Owns k key := by
  simp only [Owns, h.isMember_iff]

theorem lag_of_get? (h : Within l e e') {lag' : Lag} (hl : e'.lags.get? l = some lag') :
    ∃ lag, e.lags.get? l = some lag ∧ lag'.name = lag.name ∧ lag'.members = lag.members := by
  have hlag := h.lag
  rw [hl] at hlag
  obtain ⟨lag, hl, heq⟩ := Option.map_eq_some_iff.mp hlag.symm
  exact ⟨lag, hl, (congrArg Prod.fst heq).symm, (congrArg Prod.snd heq).symm⟩

theorem get?_lag (h : Within l e e') {lag : Lag} (hl : e.lags.get? l = some lag) :
    ∃ lag', e'.lags.get? l = some lag' ∧ lag'.name = lag.name ∧ lag'.members = lag.members := by
  have hlag := h.lag
  rw [hl] at hlag
  obtain ⟨lag', hl', heq⟩ := Option.map_eq_some_iff.mp hlag
  exact ⟨lag', hl', congrArg Prod.fst heq, congrArg Prod.snd heq⟩

theorem trans (h : Within l e e') (h' : Within l e' e'') : Within l e e'' where
  system := h'.system.trans h.system
  maxMembers := h'.maxMembers.trans h.maxMembers
  connected := h'.connected.trans h.connected
  now := h'.now.trans h.now
  findInterface := fun name => (h'.findInterface name).trans (h.findInterface name)
  findLag := fun name => (h'.findLag name).trans (h.findLag name)
  outside := fun slot hslot =>
    (h'.outside slot (by rwa [h.isMember_iff])).trans (h.outside slot hslot)
  inside := fun slot => (h'.inside slot).trans (h.inside slot)
  others := fun k hk => (h'.others k hk).trans (h.others k hk)
  lag := h'.lag.trans h.lag
  timers := fun key hkey => (h'.timers key (by rwa [h.owns_iff])).trans (h.timers key hkey)
  wellFormed := h'.wellFormed ∘ h.wellFormed

/-- Names stay with their slots. -/
theorem interfacesIndexed (h : Within l e e') (he : e.interfaces.Indexed Interface.name) :
    e'.interfaces.Indexed Interface.name := by
  intro n slot
  rw [h.findInterface, he n slot]
  constructor
  · rintro ⟨i, hi, rfl⟩
    obtain ⟨i', hi', hname, -⟩ := h.interface' hi
    exact ⟨i', hi', hname⟩
  · rintro ⟨i', hi', rfl⟩
    obtain ⟨i, hi, hname, -⟩ := h.interface hi'
    exact ⟨i, hi, hname⟩

theorem lagsIndexed (h : Within l e e') (he : e.lags.Indexed Lag.name) :
    e'.lags.Indexed Lag.name := by
  intro n k
  rw [h.findLag, he n k]
  by_cases hk : k = l
  · subst hk
    constructor
    · rintro ⟨lag, hl, rfl⟩
      obtain ⟨lag', hl', hname, -⟩ := h.get?_lag hl
      exact ⟨lag', hl', hname⟩
    · rintro ⟨lag', hl', rfl⟩
      obtain ⟨lag, hl, hname, -⟩ := h.lag_of_get? hl'
      exact ⟨lag, hl, hname.symm⟩
  · rw [h.others k hk]

end Within

/-! ## Elementary changes -/

/-- Gives an interface a new value, and the timers new deadlines. -/
def put (e : Engine) (slot : Nat) (r : Interface × Timers) : Engine :=
  { e.modifyInterface slot (fun _ => r.1) with timers := r.2 }

theorem get?_put {slot slot' : Nat} {r : Interface × Timers} :
    (e.put slot r).interfaces.get? slot' =
      if slot = slot' then (e.interfaces.get? slot').map fun _ => r.1
      else e.interfaces.get? slot' := by
  simp [put, modifyInterface]

/-- A change of an interface is a new value. -/
theorem modifyInterface_eq_put {slot : Nat} {i : Interface} (hi : e.interfaces.get? slot = some i)
    (f : Interface → Interface) (t : Timers) :
    { e.modifyInterface slot f with timers := t } = e.put slot (f i, t) := by
  unfold put modifyInterface
  rw [Arena.modify_congr (g := fun _ => f i)]
  intro j hj
  rw [Option.some.inj (hi.symm.trans hj)]

theorem within_put {slot : Nat} {i : Interface} {r : Interface × Timers}
    (hi : e.interfaces.get? slot = some i) (hlag : i.lag = some l) (hname : r.1.name = i.name)
    (hkeep : r.1.lag = i.lag)
    (htimers : ∀ key : TimerKey, key.interface? ≠ some slot →
      r.2.deadline? key = e.timers.deadline? key)
    (hwf : e.timers.WellFormed → r.2.WellFormed) : Within l e (e.put slot r) where
  system := rfl
  maxMembers := rfl
  connected := rfl
  now := rfl
  findInterface := fun _ => rfl
  findLag := fun _ => rfl
  outside := by
    intro slot' hslot'
    rw [get?_put, if_neg]
    rintro rfl
    exact hslot' ⟨i, hi, hlag⟩
  inside := by
    intro slot'
    rw [get?_put]
    split
    · next heq => simp [← heq, hi, hname, hkeep]
    · rfl
  others := fun _ _ => rfl
  lag := rfl
  timers := by
    intro key hkey
    refine htimers key fun hslot => hkey ?_
    exact (owns_of_interface hslot).mpr ⟨i, hi, hlag⟩
  wellFormed := hwf

/-- A change of a LAG that keeps its name and its members. -/
theorem within_modifyLag {f : Lag → Lag} (hname : ∀ lag, (f lag).name = lag.name)
    (hmembers : ∀ lag, (f lag).members = lag.members) : Within l e (e.modifyLag l f) where
  system := rfl
  maxMembers := rfl
  connected := rfl
  now := rfl
  findInterface := fun _ => rfl
  findLag := fun _ => rfl
  outside := fun _ _ => rfl
  inside := fun _ => rfl
  others := by
    intro k hk
    simp [modifyLag, Ne.symm hk]
  lag := by
    simp only [modifyLag, Arena.get?_modify, if_pos, Option.map_map]
    cases e.lags.get? l with
    | none => rfl
    | some lag => simp [hname, hmembers]
  timers := fun _ _ => rfl
  wellFormed := id

/-- An evaluation stays within its LAG. -/
theorem within_evaluate (hnodup : ∀ lag, e.lags.get? l = some lag → lag.members.Nodup)
    (hmembers : ∀ lag, e.lags.get? l = some lag → ∀ slot, slot ∈ lag.members ↔ e.IsMember l slot) :
    Within l e (e.evaluate l).1 := by
  cases h : e.lags.get? l with
  | none =>
    rw [evaluate_of_not_live h]
    exact Within.refl l e
  | some lag =>
    have hkeeps := evaluate_keeps h
    refine ⟨by rw [hkeeps], by rw [hkeeps], by rw [hkeeps], by rw [hkeeps], find?_evaluate h, ?_,
      ?_, ?_, ?_, ?_, ?_, wellFormed_evaluate h⟩
    · intro name
      rw [evaluate_lags h]
      rfl
    · intro slot hslot
      exact get?_evaluate_of_not_mem h (by rwa [hmembers lag h])
    · intro slot
      by_cases hslot : slot ∈ lag.members
      · rw [get?_evaluate h (hnodup lag h) hslot]
        cases e.interfaces.get? slot with
        | none => rfl
        | some i => simp [after, regrant]
      · rw [get?_evaluate_of_not_mem h hslot]
    · intro k hk
      rw [evaluate_lags h, Arena.get?_modify, if_neg (Ne.symm hk)]
    · rw [get?_lags_evaluate h, h]
      rfl
    · intro key hkey
      refine deadline?_evaluate_of_ne h (fun heq => hkey (.inl heq)) fun slot hslot heq => ?_
      exact hkey ((owns_of_interface heq).mpr ((hmembers lag h slot).mp hslot))

end LinkAggregation.Engine
