import LinkAggregation.Proofs.Engine.Outside

/-!
# Joining and leaving a LAG

An interface joins a LAG with a fresh protocol state that is in line with the LAG, and leaves it
without timers. A LAG begins without members, and is forgotten once it has none. All this keeps the
engine coherent, with the LAG marked as changed.
-/
namespace LinkAggregation

namespace Lag
variable {slot s : Nat} {slots : List Nat}

theorem pairwise_insertSlot (h : slots.Pairwise (· < ·)) :
    (insertSlot slot slots).Pairwise (· < ·) := by
  induction slots with
  | nil => simp [insertSlot]
  | cons r rest ih =>
    obtain ⟨hr, hrest⟩ := List.pairwise_cons.mp h
    simp only [insertSlot]
    split
    · next hlt =>
      refine List.pairwise_cons.mpr ⟨fun x hx => ?_, h⟩
      obtain rfl | hx := List.mem_cons.mp hx
      · exact hlt
      · exact Nat.lt_trans hlt (hr x hx)
    · split
      · exact h
      · next hge hne =>
        refine List.pairwise_cons.mpr ⟨fun x hx => ?_, ih hrest⟩
        obtain rfl | hx := mem_insertSlot.mp hx
        · omega
        · exact hr x hx

end Lag

namespace Engine
variable {e : Engine} {l slot : Nat} {lag : Lag} {i : Interface}

/-- More LAGs may be marked. -/
theorem Coherent.mark {changed changed' : Nat → Prop} {pending : List TimerKey}
    (h : e.Coherent changed pending) (hchanged : ∀ k, changed k → changed' k) :
    e.Coherent changed' pending :=
  { h with
    sound := fun k lag hk =>
      (h.sound k lag hk).congr rfl (fun _ _ => rfl) rfl (fun _ _ _ _ => rfl) (hchanged k)
    settled := fun k lag hk hnot => h.settled k lag hk (mt (hchanged k) hnot) }

/-! ## One interface joins or leaves -/

/-- One interface and one LAG change together. -/
def exchange (e : Engine) (l slot : Nat) (f : Lag → Lag) (r : Interface × Timers) : Engine :=
  (e.modifyLag l f).put slot r

/-- The interface in one slot becomes a member of the LAG, or is one no longer. Its timers change
with it. -/
structure Rejoins (e : Engine) (l slot : Nat) (lag : Lag) (f : Lag → Lag)
    (r : Interface × Timers) : Prop where
  known : ∃ i, e.interfaces.get? slot = some i ∧ r.1.name = i.name
  other : ∀ k, e.IsMember k slot → k = l
  live : e.lags.get? l = some lag
  named : ∀ lag, (f lag).name = lag.name
  settings : (f lag).settings = lag.settings
  fallback : (f lag).fallback = lag.fallback
  ascending : (f lag).members.Pairwise (· < ·)
  members : ∀ s, s ∈ (f lag).members ↔ s ≠ slot ∧ s ∈ lag.members ∨ s = slot ∧ r.1.lag = some l
  joined : ∀ k, r.1.lag = some k → k = l
  wellFormed : r.2.WellFormed
  timers : ∀ key : TimerKey, key.interface? ≠ some slot →
    r.2.deadline? key = e.timers.deadline? key
  outside : r.1.lag = none → ∀ key : TimerKey, key.interface? = some slot →
    r.2.deadline? key = none
  inside : r.1.lag = some l → r.1.Sound lag.settings True e.now slot r.2.deadline?

section
variable {f : Lag → Lag} {r : Interface × Timers} {k s : Nat} {lag' : Lag}
  (h : e.Coherent (fun k => k = l) []) (hr : e.Rejoins l slot lag f r)

theorem get?_lags_exchange :
    (e.exchange l slot f r).lags.get? k =
      if l = k then (e.lags.get? k).map f else e.lags.get? k :=
  Arena.get?_modify _ _ _ _

theorem get?_lags_exchange_of_ne (hk : k ≠ l) :
    (e.exchange l slot f r).lags.get? k = e.lags.get? k := by
  rw [get?_lags_exchange, if_neg (Ne.symm hk)]

theorem isSome_lags_exchange (hlive : (e.lags.get? k).isSome = true) :
    ((e.exchange l slot f r).lags.get? k).isSome = true := by
  rw [get?_lags_exchange]
  split
  · simpa using hlive
  · exact hlive

include hr

theorem Rejoins.get?_lags : (e.exchange l slot f r).lags.get? l = some (f lag) := by
  rw [get?_lags_exchange, if_pos rfl, hr.live]
  rfl

theorem Rejoins.get? :
    (e.exchange l slot f r).interfaces.get? s =
      if slot = s then some r.1 else e.interfaces.get? s := by
  unfold exchange
  rw [get?_put]
  split
  · next hs =>
    obtain ⟨i, hi, -⟩ := hr.known
    subst hs
    exact congrArg (Option.map fun _ => r.1) hi
  · rfl

theorem Rejoins.isMember_iff :
    (e.exchange l slot f r).IsMember k s ↔
      s ≠ slot ∧ e.IsMember k s ∨ s = slot ∧ r.1.lag = some k := by
  simp only [IsMember, hr.get?]
  by_cases hs : slot = s
  · simp [hs]
  · simp [hs, Ne.symm hs]

theorem Rejoins.deadline?_of_ne {key : TimerKey} (hs : s ≠ slot) (hkey : key.interface? = some s) :
    r.2.deadline? key = e.timers.deadline? key := by
  refine hr.timers key ?_
  rw [hkey]
  exact fun heq => hs (Option.some.inj heq)

theorem Rejoins.deadline?_fallback :
    r.2.deadline? (.fallback k) = e.timers.deadline? (.fallback k) :=
  hr.timers _ (by simp [TimerKey.interface?])

include h

/-- The slot is no member of any other LAG. -/
theorem Rejoins.ne_of_mem (hk : k ≠ l) (hl : e.lags.get? k = some lag') (hs : s ∈ lag'.members) :
    s ≠ slot := by
  intro heq
  rw [heq] at hs
  exact hk (hr.other k ((h.members k lag' hl slot).mp hs))

theorem Rejoins.get?_of_mem (hk : k ≠ l) (hl : e.lags.get? k = some lag')
    (hs : s ∈ lag'.members) :
    (e.exchange l slot f r).interfaces.get? s = e.interfaces.get? s := by
  rw [hr.get?, if_neg (hr.ne_of_mem h hk hl hs).symm]

theorem Rejoins.mem_iff (hl : (e.exchange l slot f r).lags.get? k = some lag') :
    s ∈ lag'.members ↔ (e.exchange l slot f r).IsMember k s := by
  rw [hr.isMember_iff]
  by_cases hk : k = l
  · subst hk
    rw [hr.get?_lags] at hl
    obtain rfl : f lag = lag' := Option.some.inj hl
    rw [hr.members, h.members k lag hr.live]
  · rw [get?_lags_exchange_of_ne hk] at hl
    rw [h.members k lag' hl]
    constructor
    · intro hs
      refine .inl ⟨fun heq => ?_, hs⟩
      rw [heq] at hs
      exact hk (hr.other k hs)
    · rintro (⟨-, hs⟩ | ⟨-, hjoined⟩)
      · exact hs
      · exact absurd (hr.joined k hjoined) hk

theorem Rejoins.isSome_lag (hs : (e.exchange l slot f r).IsMember k s) :
    ((e.exchange l slot f r).lags.get? k).isSome = true := by
  refine isSome_lags_exchange ?_
  rw [hr.isMember_iff] at hs
  obtain ⟨-, hs⟩ | ⟨-, hk⟩ := hs
  · exact h.live k s hs
  · rw [hr.joined k hk, hr.live]
    rfl

theorem Rejoins.owned {key : TimerKey} (hkey : (r.2.deadline? key).isSome = true) :
    ∃ k, ((e.exchange l slot f r).lags.get? k).isSome = true ∧
      (e.exchange l slot f r).Owns k key := by
  by_cases hslot : key.interface? = some slot
  · cases hlag : r.1.lag with
    | none =>
      have hnone := hr.outside hlag key hslot
      simp [hnone] at hkey
    | some k =>
      have hmember : (e.exchange l slot f r).IsMember k slot :=
        hr.isMember_iff.mpr (.inr ⟨rfl, hlag⟩)
      exact ⟨k, hr.isSome_lag h hmember, (owns_of_interface hslot).mpr hmember⟩
  · rw [hr.timers key hslot] at hkey
    obtain ⟨k, hk, howns⟩ := h.owned key (by rw [due_nil]; exact hkey)
    refine ⟨k, isSome_lags_exchange hk, ?_⟩
    obtain hfallback | ⟨s, hs, hmember⟩ := howns
    · exact .inl hfallback
    · refine .inr ⟨s, hs, hr.isMember_iff.mpr (.inl ⟨fun heq => ?_, hmember⟩)⟩
      rw [heq] at hs
      exact hslot hs

/-- The LAG stays sound: its other members are as before, and the interface has to be so. -/
theorem Rejoins.sound_lag : (e.exchange l slot f r).Sound [] True l (f lag) := by
  have hold := h.sound l lag hr.live
  refine ⟨by rw [hr.settings]; exact hold.timeout, ?_, fun s hs j hj => ?_⟩
  · have hfallback := hold.fallback
    rw [due_nil] at hfallback ⊢
    rw [hr.fallback]
    rwa [← hr.deadline?_fallback] at hfallback
  · rw [due_nil, hr.settings]
    rw [hr.get?] at hj
    obtain ⟨hne, hs⟩ | ⟨rfl, hjoined⟩ := (hr.members s).mp hs
    · rw [if_neg hne.symm] at hj
      have hmember := hold.member s hs j hj
      rw [due_nil] at hmember
      exact (hmember.congr fun key hkey => hr.deadline?_of_ne hne hkey).mono fun _ => trivial
    · rw [if_pos rfl] at hj
      obtain rfl : r.1 = j := Option.some.inj hj
      exact hr.inside hjoined

/-- An exchange keeps the engine coherent, with the LAG marked. -/
theorem Coherent.rejoin : (e.exchange l slot f r).Coherent (fun k => k = l) [] where
  interfaces := by
    obtain ⟨i, hi, hname⟩ := hr.known
    refine h.interfaces.modify fun j hj => ?_
    obtain rfl : i = j := Option.some.inj (hi.symm.trans hj)
    exact hname
  lags := h.lags.modify fun lag' _ => hr.named lag'
  timers := hr.wellFormed
  ascending := by
    intro k lag' hk
    by_cases hkl : k = l
    · rw [hkl, hr.get?_lags] at hk
      obtain rfl : f lag = lag' := Option.some.inj hk
      exact hr.ascending
    · rw [get?_lags_exchange_of_ne hkl] at hk
      exact h.ascending k lag' hk
  members := fun k lag' hk s => hr.mem_iff h hk
  live := fun k s hs => hr.isSome_lag h hs
  owned := by
    intro key hkey
    rw [due_nil] at hkey
    exact hr.owned h hkey
  sound := by
    intro k lag' hk
    by_cases hkl : k = l
    · rw [hkl, hr.get?_lags] at hk
      obtain rfl : f lag = lag' := Option.some.inj hk
      rw [hkl, eq_self]
      exact hr.sound_lag h
    · rw [get?_lags_exchange_of_ne hkl] at hk
      refine (h.sound k lag' hk).congr rfl (fun s hs => hr.get?_of_mem h hkl hk hs) ?_ ?_ id
      · rw [due_nil, due_nil]
        exact hr.deadline?_fallback
      · rw [due_nil, due_nil]
        exact fun key s hs hkey => hr.deadline?_of_ne (hr.ne_of_mem h hkl hk hs) hkey
  settled := by
    intro k lag' hk hkl
    rw [get?_lags_exchange_of_ne hkl] at hk
    have hmembers : (e.exchange l slot f r).members lag' = e.members lag' :=
      members_congr rfl fun s hs => hr.get?_of_mem h hkl hk hs
    refine (h.settled k lag' hk hkl).congr hmembers rfl rfl hr.deadline?_fallback ?_
    exact fun key s hs hkey => hr.deadline?_of_ne (hr.ne_of_mem h hkl hk hs) hkey

end

/-- The interface as a new member that is in line with the LAG, and its timers. -/
def joined (e : Engine) (l slot : Nat) (lag : Lag) (i : Interface) (settings : MemberSettings) :
    Interface × Timers :=
  let r := Receive.sync slot i.isEnabled lag.settings {} e.timers e.now
  ({ i.reset with settings, lag := some l, protocol := r.1 }, r.2)

/-- The interface after it has left its LAG, and its timers. -/
def freed (e : Engine) (slot : Nat) (i : Interface) : Interface × Timers :=
  ({ i.reset with lag := none, settings := {}, published := none }, e.timers.cancelInterface slot)

/-- Joining changes the interface and the LAG together. -/
theorem attach_eq (hi : e.interfaces.get? slot = some i) (hl : e.lags.get? l = some lag)
    (settings : MemberSettings) :
    ((e.modifyInterface slot fun i => { i.reset with settings, lag := some l }).modifyLag l
      (·.addMember slot)).syncReceive slot =
      e.exchange l slot (·.addMember slot) (e.joined l slot lag i settings) := by
  let fresh : Interface := { i.reset with settings, lag := some l }
  have hget : ((e.modifyLag l (·.addMember slot)).put slot
      (fresh, e.timers)).lags.get? l = some (lag.addMember slot) := by
    show (e.lags.modify l (·.addMember slot)).get? l = some (lag.addMember slot)
    rw [Arena.get?_modify, if_pos rfl, hl]
    rfl
  have hput : (e.modifyInterface slot fun i =>
      { i.reset with settings, lag := some l }).modifyLag l (·.addMember slot) =
      (e.modifyLag l (·.addMember slot)).put slot (fresh, e.timers) :=
    modifyInterface_eq_put (e := e.modifyLag l (·.addMember slot)) hi _ _
  rw [hput, syncReceive_eq (get?_put_self (e := e.modifyLag l (·.addMember slot)) hi _) rfl hget,
    put_put]
  rfl

/-- Leaving changes the interface and the LAG together, and withdraws the record. -/
theorem detachMember_eq (hi : e.interfaces.get? slot = some i) :
    e.detachMember l slot = (e.exchange l slot (·.removeMember slot) (e.freed slot i),
      if i.published.isSome then e.emit [.removeRecord i.name] else []) := by
  have hget : ({ e.modifyLag l (·.removeMember slot) with
      timers := e.timers.cancelInterface slot } : Engine).interfaces.get? slot = some i := hi
  have hput := modifyInterface_eq_put (e := { e.modifyLag l (·.removeMember slot) with
    timers := e.timers.cancelInterface slot }) hi
    (fun i => { i.reset with lag := none, settings := {}, published := none })
    (e.timers.cancelInterface slot)
  unfold detachMember
  simp only [hget]
  exact congrArg (·, if i.published.isSome then e.emit [.removeRecord i.name] else []) hput

/-- An interface outside all LAGs joins one. -/
theorem Coherent.attach (h : e.Stable) (hi : e.interfaces.get? slot = some i)
    (hlag : i.lag = none) (hl : e.lags.get? l = some lag) (settings : MemberSettings) :
    (((e.modifyInterface slot fun i => { i.reset with settings, lag := some l }).modifyLag l
      (·.addMember slot)).syncReceive slot).Coherent (fun k => k = l) [] := by
  have hidle : ∀ key : TimerKey, key.interface? = some slot → e.timers.deadline? key = none := by
    intro key hkey
    have hnone := h.due_outside (not_isMember_of_lag_eq_none hi hlag) hkey
    rwa [due_nil] at hnone
  have hnot : ∀ k, ¬ e.IsMember k slot := not_isMember_of_lag_eq_none hi hlag
  have hrejoins : e.Rejoins l slot lag (·.addMember slot) (e.joined l slot lag i settings) :=
    { known := ⟨i, hi, rfl⟩
      other := fun k hk => absurd hk (hnot k)
      live := hl
      named := fun _ => rfl
      settings := rfl
      fallback := rfl
      ascending := Lag.pairwise_insertSlot (h.ascending l lag hl)
      members := by
        intro s
        simp only [Lag.addMember, Lag.mem_insertSlot, joined, and_true]
        by_cases hs : s = slot
        · simp [hs]
        · simp [hs]
      joined := fun k hk => (Option.some.inj hk).symm
      wellFormed := Receive.wellFormed_sync h.timers
      timers := fun key hkey => Receive.deadline?_sync_of_ne hkey
      outside := fun hnone => by simp [joined] at hnone
      inside := by
        intro _
        refine ⟨Receive.follows_sync, Receive.truthful_sync Protocol.truthful_fresh, ?_⟩
        exact Receive.timed_sync (Protocol.timed_fresh hidle) fun hoff => ⟨trivial, hoff⟩ }
  rw [attach_eq hi hl]
  exact (h.mark fun _ => False.elim).rejoin hrejoins

/-- A member leaves its LAG. -/
theorem Coherent.detach (h : e.Coherent (fun k => k = l) [])
    (hi : e.interfaces.get? slot = some i) (hlag : i.lag = some l)
    (hl : e.lags.get? l = some lag) :
    (e.detachMember l slot).1.Coherent (fun k => k = l) [] := by
  have hmember : e.IsMember l slot := ⟨i, hi, hlag⟩
  have hrejoins : e.Rejoins l slot lag (·.removeMember slot) (e.freed slot i) :=
    { known := ⟨i, hi, rfl⟩
      other := fun k hk => hmember.unique hk
      live := hl
      named := fun _ => rfl
      settings := rfl
      fallback := rfl
      ascending := (h.ascending l lag hl).erase slot
      members := by
        intro s
        simp only [Lag.removeMember, (h.nodup hl).mem_erase_iff, freed, reduceCtorEq, and_false,
          or_false]
      joined := fun k hk => by simp [freed] at hk
      wellFormed := h.timers.cancelInterface slot
      timers := fun key hkey => by simp [freed, hkey]
      outside := fun _ key hkey => by simp [freed, hkey]
      inside := fun hk => by simp [freed] at hk }
  rw [detachMember_eq hi]
  exact h.rejoin hrejoins

/-! ## LAGs come and go -/

/-- A new LAG has no members yet. -/
theorem Coherent.insertLag (h : e.Stable) {new : Lag} (hfind : e.lags.find? new.name = none)
    (hmembers : new.members = []) (hfallback : new.fallback = {})
    (htimeout : new.settings.fallbackTimeout ≤ maxFallbackTimeout) :
    { e with lags := e.lags.insert new.name new }.Coherent
      (fun k => k = e.lags.freeSlot) [] := by
  have hget : ∀ k lag', ({ e with lags := e.lags.insert new.name new } : Engine).lags.get? k =
      some lag' → k = e.lags.freeSlot ∧ lag' = new ∨
        k ≠ e.lags.freeSlot ∧ e.lags.get? k = some lag' := by
    intro k lag' hk
    by_cases hfree : k = e.lags.freeSlot
    · subst hfree
      simp only [Arena.get?_insert_freeSlot, Option.some.injEq] at hk
      exact .inl ⟨rfl, hk.symm⟩
    · simp only [Arena.get?_insert_of_ne _ _ hfree] at hk
      exact .inr ⟨hfree, hk⟩
  have hlive : ∀ k, (e.lags.get? k).isSome = true →
      k ≠ e.lags.freeSlot ∧ ((e.lags.insert new.name new).get? k).isSome = true := by
    intro k hk
    have hne : k ≠ e.lags.freeSlot := by
      rintro rfl
      simp [Arena.get?_freeSlot] at hk
    exact ⟨hne, by rwa [Arena.get?_insert_of_ne _ _ hne]⟩
  have hnone : e.timers.deadline? (.fallback e.lags.freeSlot) = none := by
    refine Option.not_isSome_iff_eq_none.mp fun hsome => ?_
    obtain ⟨k, hk, hk' | ⟨_, hslot, -⟩⟩ := h.owned (.fallback e.lags.freeSlot)
      (by simpa using hsome)
    · exact (hlive k hk).1 (TimerKey.fallback.inj hk').symm
    · simp [TimerKey.interface?] at hslot
  refine
    { interfaces := h.interfaces
      lags := h.lags.insert hfind
      timers := h.timers
      ascending := ?_
      members := ?_
      live := fun k slot hslot => (hlive k (h.live k slot hslot)).2
      owned := ?_
      sound := ?_
      settled := ?_ }
  · intro k lag' hk
    obtain ⟨-, rfl⟩ | ⟨-, hk⟩ := hget k lag' hk
    · rw [hmembers]
      exact List.Pairwise.nil
    · exact h.ascending k lag' hk
  · intro k lag' hk slot
    obtain ⟨rfl, rfl⟩ | ⟨-, hk⟩ := hget k lag' hk
    · rw [hmembers]
      refine ⟨fun hs => by simp at hs, fun hs => ?_⟩
      exact absurd rfl (hlive _ (h.live _ slot hs)).1
    · exact h.members k lag' hk slot
  · intro key hkey
    obtain ⟨k, hk, howns⟩ := h.owned key hkey
    exact ⟨k, (hlive k hk).2, howns⟩
  · intro k lag' hk
    obtain ⟨rfl, rfl⟩ | ⟨-, hk⟩ := hget k lag' hk
    · refine ⟨htimeout, ?_, by rw [hmembers]; simp⟩
      rw [due_nil, hfallback]
      exact ⟨by simp, by simp [hnone], by simp [hnone]⟩
    · exact (h.sound k lag' hk).congr rfl (fun _ _ => rfl) rfl (fun _ _ _ _ => rfl) False.elim
  · intro k lag' hk hnot
    obtain ⟨rfl, -⟩ | ⟨-, hk⟩ := hget k lag' hk
    · exact absurd rfl hnot
    · exact (h.settled k lag' hk id).congr rfl rfl rfl rfl fun _ _ _ _ => rfl

/-- A LAG without members is forgotten. -/
theorem Coherent.removeLag (h : e.Coherent (fun k => k = l) []) {name : String}
    (hfind : e.lags.find? name = some l)
    (hempty : ∀ slot, ¬ e.IsMember l slot) :
    { e with
      timers := e.timers.cancel (.fallback l)
      lags := e.lags.remove name l }.Stable := by
  have hget : ∀ k lag', (e.lags.remove name l).get? k = some lag' →
      k ≠ l ∧ e.lags.get? k = some lag' := by
    intro k lag' hk
    rw [Arena.get?_remove] at hk
    split at hk
    · simp at hk
    · next hne => exact ⟨Ne.symm hne, hk⟩
  have hlive : ∀ k, k ≠ l → (e.lags.get? k).isSome = true →
      ((e.lags.remove name l).get? k).isSome = true := by
    intro k hne hk
    rwa [Arena.get?_remove, if_neg (Ne.symm hne)]
  have hdue : ∀ key : TimerKey, key ≠ .fallback l →
      (e.timers.cancel (.fallback l)).deadline? key = e.timers.deadline? key := by
    intro key hkey
    rw [Timers.deadline?_cancel, if_neg hkey]
  have hmemberDue : ∀ (key : TimerKey) slot, key.interface? = some slot →
      (e.timers.cancel (.fallback l)).deadline? key = e.timers.deadline? key := by
    intro key slot hkey
    exact hdue key (key.ne_fallback hkey l)
  refine
    { interfaces := h.interfaces
      lags := h.lags.remove hfind
      timers := h.timers.cancel _
      ascending := fun k lag' hk => h.ascending k lag' (hget k lag' hk).2
      members := fun k lag' hk => h.members k lag' (hget k lag' hk).2
      live := ?_
      owned := ?_
      sound := ?_
      settled := ?_ }
  · intro k slot hslot
    have hne : k ≠ l := by
      rintro rfl
      exact hempty slot hslot
    exact hlive k hne (h.live k slot hslot)
  · intro key hkey
    rw [due_nil] at hkey
    have hne : key ≠ .fallback l := by
      rintro rfl
      simp at hkey
    rw [hdue key hne] at hkey
    obtain ⟨k, hk, howns⟩ := h.owned key (by rwa [due_nil])
    refine ⟨k, hlive k ?_ hk, howns⟩
    rintro rfl
    obtain rfl | ⟨slot, -, hslot⟩ := howns
    · exact hne rfl
    · exact hempty slot hslot
  · intro k lag' hk
    obtain ⟨hne, hk⟩ := hget k lag' hk
    refine (h.sound k lag' hk).congr rfl (fun _ _ => rfl) ?_ ?_ hne
    · rw [due_nil, due_nil]
      exact hdue _ fun heq => hne (TimerKey.fallback.inj heq)
    · rw [due_nil, due_nil]
      exact fun key slot _ hkey => hmemberDue key slot hkey
  · intro k lag' hk _
    obtain ⟨hne, hk⟩ := hget k lag' hk
    refine (h.settled k lag' hk hne).congr rfl rfl rfl ?_ fun key slot _ hkey =>
      hmemberDue key slot hkey
    exact hdue _ fun heq => hne (TimerKey.fallback.inj heq)

end Engine
end LinkAggregation
