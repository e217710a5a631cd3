import LinkAggregation.Proofs.Engine.Frame
import LinkAggregation.Proofs.Protocol.Timing
import LinkAggregation.Proofs.Selection

/-!
# Coherence of the engine

A coherent engine has its interfaces and LAGs under their names, its members in their LAGs, and
timers only for members and live LAGs; every member and every LAG is in line with its settings and
its timers, and every LAG is settled unless it is marked as changed. A change within one LAG keeps
the engine coherent if the LAG is marked, and an evaluation takes the mark away.
-/
namespace LinkAggregation

/-- A member is in line with its port, its LAG and its timers. The wait of a disabled member that
is yet to be evaluated has no timer. -/
structure Interface.Sound (s : LagSettings) (changed : Prop) (now slot : Nat) (i : Interface)
    (due : TimerKey → Option Nat) : Prop where
  follows : i.protocol.Follows s i.isEnabled
  truthful : i.protocol.Truthful s
  timed : i.protocol.Timed s (changed ∧ i.isEnabled = false) now slot due

namespace Engine

/-- The deadline of a timer. One that has fired and is yet to be handled counts as due at once. -/
def due (e : Engine) (pending : List TimerKey) (key : TimerKey) : Option Nat :=
  if key ∈ pending then some (e.now + 1) else e.timers.deadline? key

/-- The members of a LAG and its fallback are in line with its settings and their timers. -/
structure Sound (e : Engine) (pending : List TimerKey) (changed : Prop) (l : Nat) (lag : Lag) :
    Prop where
  timeout : lag.settings.fallbackTimeout ≤ maxFallbackTimeout
  fallback : Fallback.Timed e.now lag.fallback (e.due pending (.fallback l))
  member : ∀ slot ∈ lag.members, ∀ i, e.interfaces.get? slot = some i →
    i.Sound lag.settings changed e.now slot (e.due pending)

/-- The engine is coherent, and of the live LAGs only the changed ones may be unsettled. -/
structure Coherent (changed : Nat → Prop) (pending : List TimerKey) (e : Engine) : Prop where
  interfaces : e.interfaces.Indexed Interface.name
  lags : e.lags.Indexed Lag.name
  timers : e.timers.WellFormed
  ascending : ∀ l lag, e.lags.get? l = some lag → lag.members.Pairwise (· < ·)
  members : ∀ l lag, e.lags.get? l = some lag → ∀ slot, slot ∈ lag.members ↔ e.IsMember l slot
  live : ∀ l slot, e.IsMember l slot → (e.lags.get? l).isSome = true
  owned : ∀ key, (e.due pending key).isSome = true →
    ∃ l, (e.lags.get? l).isSome = true ∧ e.Owns l key
  sound : ∀ l lag, e.lags.get? l = some lag → e.Sound pending (changed l) l lag
  settled : ∀ l lag, e.lags.get? l = some lag → ¬ changed l → e.Settled l lag

/-- The engine is coherent and all its LAGs are settled. -/
abbrev Stable (e : Engine) : Prop := e.Coherent (fun _ => False) []

variable {e e' : Engine} {l : Nat} {lag : Lag} {changed changed' : Nat → Prop}
  {pending pending' : List TimerKey}

@[simp] theorem due_nil : e.due [] = e.timers.deadline? := by
  funext key
  simp [due]

end Engine

namespace Interface.Sound
variable {s : LagSettings} {changed changed' : Prop} {now slot : Nat} {i : Interface}
  {due due' : TimerKey → Option Nat}

theorem congr (h : i.Sound s changed now slot due)
    (hdue : ∀ key : TimerKey, key.interface? = some slot → due' key = due key) :
    i.Sound s changed now slot due' :=
  { h with timed := h.timed.congr rfl rfl rfl rfl (fun _ => rfl) hdue }

theorem mono (h : i.Sound s changed now slot due) (hchanged : changed → changed') :
    i.Sound s changed' now slot due :=
  { h with timed := h.timed.mono fun hboth => ⟨hchanged hboth.1, hboth.2⟩ }

end Interface.Sound

namespace Engine
variable {e e' : Engine} {l : Nat} {lag : Lag} {changed changed' : Nat → Prop}
  {pending pending' : List TimerKey}

/-- What is the same for a LAG keeps it sound. -/
theorem Sound.congr {c c' : Prop} (h : e.Sound pending c l lag) (hnow : e'.now = e.now)
    (hget : ∀ slot ∈ lag.members, e'.interfaces.get? slot = e.interfaces.get? slot)
    (hlag : e'.due pending' (.fallback l) = e.due pending (.fallback l))
    (hdue : ∀ (key : TimerKey) slot, slot ∈ lag.members → key.interface? = some slot →
      e'.due pending' key = e.due pending key)
    (hchanged : c → c') : e'.Sound pending' c' l lag where
  timeout := h.timeout
  fallback := by
    rw [hnow, hlag]
    exact h.fallback
  member := by
    intro slot hslot i hi
    rw [hget slot hslot] at hi
    rw [hnow]
    exact ((h.member slot hslot i hi).congr fun key hkey => hdue key slot hslot hkey).mono hchanged

/-- Selection leaves disabled members out. -/
theorem not_eligible_of_disabled {slot : Nat} {i : Interface} (hi : e.interfaces.get? slot = some i)
    (hdisabled : i.isEnabled = false) : (e.decision l lag slot).isEligible = false := by
  refine Bool.eq_false_iff.mpr fun heligible => ?_
  obtain ⟨c, hc, hslot⟩ := pool_of_eligible heligible
  obtain ⟨hmem, henabled⟩ := Ballot.of_mem_run_pool .refl hc
  simp only [List.mem_map] at hmem
  obtain ⟨m, ⟨⟨s, j⟩, hm, rfl⟩, rfl⟩ := hmem
  obtain ⟨-, hj⟩ := mem_members.mp hm
  obtain rfl : s = slot := hslot
  obtain rfl : i = j := Option.some.inj (hi.symm.trans hj)
  have henabled : i.isEnabled = true := by
    simpa [Interface.candidate, regrant] using henabled
  simp [hdisabled] at henabled

namespace Coherent

theorem nodup (h : e.Coherent changed pending) (hl : e.lags.get? l = some lag) :
    lag.members.Nodup :=
  (h.ascending l lag hl).imp fun hlt => Nat.ne_of_lt hlt

theorem get?_of_mem (h : e.Coherent changed pending) (hl : e.lags.get? l = some lag) {slot : Nat}
    (hslot : slot ∈ lag.members) : ∃ i, e.interfaces.get? slot = some i ∧ i.lag = some l :=
  (h.members l lag hl slot).mp hslot

/-- A LAG owns the timers of its members. -/
theorem owns_of_mem (h : e.Coherent changed pending) (hl : e.lags.get? l = some lag) {slot : Nat}
    (hslot : slot ∈ lag.members) {key : TimerKey} (hkey : key.interface? = some slot) :
    e.Owns l key :=
  (owns_of_interface hkey).mpr ((h.members l lag hl slot).mp hslot)

/-- The members of one LAG are in no other. -/
theorem not_isMember_of_mem (h : e.Coherent changed pending) {k : Nat}
    (hl : e.lags.get? l = some lag) {slot : Nat} (hslot : slot ∈ lag.members) (hk : l ≠ k) :
    ¬ e.IsMember k slot := by
  intro hmember
  exact hk (hmember.unique ((h.members l lag hl slot).mp hslot))

/-- A member has a live LAG that counts it among its members. -/
theorem lag_of_member (h : e.Coherent changed pending) {slot : Nat} {i : Interface}
    (hi : e.interfaces.get? slot = some i) (hlag : i.lag = some l) :
    ∃ lag, e.lags.get? l = some lag ∧ slot ∈ lag.members := by
  obtain ⟨lag, hl⟩ := Option.isSome_iff_exists.mp (h.live l slot ⟨i, hi, hlag⟩)
  exact ⟨lag, hl, (h.members l lag hl slot).mpr ⟨i, hi, hlag⟩⟩

/-- An interface outside all LAGs has no timers. -/
theorem due_outside (h : e.Coherent changed pending) {slot : Nat}
    (hslot : ∀ l, ¬ e.IsMember l slot) {key : TimerKey} (hkey : key.interface? = some slot) :
    e.due pending key = none := by
  have hnone : (e.due pending key).isSome = false := by
    refine Bool.eq_false_iff.mpr fun hsome => ?_
    obtain ⟨l, -, howns⟩ := h.owned key hsome
    exact hslot l ((owns_of_interface hkey).mp howns)
  simpa using hnone

/-- A change within one LAG leaves the others in line with their timers. -/
theorem sound_elsewhere (h : e.Coherent changed pending) (hw : Within l e e') {k : Nat}
    (hk : e.lags.get? k = some lag) (hkl : k ≠ l) (hchanged : changed k → changed' k)
    (hpending : ∀ key, ¬ e.Owns l key → (key ∈ pending' ↔ key ∈ pending)) :
    e'.Sound pending' (changed' k) k lag := by
  have hnot : ∀ slot ∈ lag.members, ¬ e.IsMember l slot := fun slot hslot =>
    h.not_isMember_of_mem hk hslot hkl
  have hdue : ∀ key, e.Owns k key → e'.due pending' key = e.due pending key := by
    intro key howns
    have hnotl : ¬ e.Owns l key := fun hl => hkl (hl.unique howns)
    simp only [due, hpending key hnotl, hw.timers key hnotl, hw.now]
  refine (h.sound k lag hk).congr hw.now (fun slot hslot => hw.outside slot (hnot slot hslot))
    (hdue _ (.inl rfl)) ?_ hchanged
  intro key slot hslot hkey
  exact hdue key (h.owns_of_mem hk hslot hkey)

/-- A change within one LAG leaves the others settled. -/
theorem settled_elsewhere (h : e.Coherent changed pending) (hw : Within l e e') {k : Nat}
    (hk : e.lags.get? k = some lag) (hkl : k ≠ l) (hnot : ¬ changed k) : e'.Settled k lag := by
  have houtside : ∀ slot ∈ lag.members, ¬ e.IsMember l slot := fun slot hslot =>
    h.not_isMember_of_mem hk hslot hkl
  have htimers : ∀ key, e.Owns k key → e'.timers.deadline? key = e.timers.deadline? key :=
    fun key howns => hw.timers key fun hl => hkl (hl.unique howns)
  have hshared : e'.evaluation lag = e.evaluation lag := by
    simp only [evaluation, hw.system, hw.now, hw.connected]
  refine (h.settled k lag hk hnot).congr ?_ hshared hw.maxMembers (htimers _ (.inl rfl)) ?_
  · exact members_congr rfl fun slot hslot => hw.outside slot (houtside slot hslot)
  · intro key slot hslot hkey
    exact htimers key (h.owns_of_mem hk hslot hkey)

/-- A change within one LAG leaves the others as they are. -/
theorem within (h : e.Coherent changed pending) (hw : Within l e e')
    (hl : e.lags.get? l = some lag) (hchanged : ∀ k, k ≠ l → (changed' k ↔ changed k))
    (hpending : ∀ key, ¬ e.Owns l key → (key ∈ pending' ↔ key ∈ pending))
    (hsound : ∀ lag', e'.lags.get? l = some lag' → e'.Sound pending' (changed' l) l lag')
    (hsettled : ∀ lag', e'.lags.get? l = some lag' → ¬ changed' l → e'.Settled l lag') :
    e'.Coherent changed' pending' where
  interfaces := hw.interfacesIndexed h.interfaces
  lags := hw.lagsIndexed h.lags
  timers := hw.wellFormed h.timers
  ascending := by
    intro k lag' hk
    by_cases hkl : k = l
    · subst hkl
      obtain ⟨lag, hl, -, hmembers⟩ := hw.lag_of_get? hk
      rw [hmembers]
      exact h.ascending k lag hl
    · rw [hw.others k hkl] at hk
      exact h.ascending k lag' hk
  members := by
    intro k lag' hk slot
    rw [hw.isMember_iff]
    by_cases hkl : k = l
    · subst hkl
      obtain ⟨lag, hl, -, hmembers⟩ := hw.lag_of_get? hk
      rw [hmembers]
      exact h.members k lag hl slot
    · rw [hw.others k hkl] at hk
      exact h.members k lag' hk slot
  live := by
    intro k slot hmember
    rw [hw.isMember_iff] at hmember
    by_cases hkl : k = l
    · subst hkl
      obtain ⟨lag', hl', -⟩ := hw.get?_lag hl
      rw [hl']
      rfl
    · rw [hw.others k hkl]
      exact h.live k slot hmember
  owned := by
    intro key hkey
    obtain ⟨lag', hl', -⟩ := hw.get?_lag hl
    by_cases howns : e.Owns l key
    · exact ⟨l, by rw [hl']; rfl, (hw.owns_iff l key).mpr howns⟩
    · have hdue : e'.due pending' key = e.due pending key := by
        simp only [due, hpending key howns, hw.timers key howns, hw.now]
      rw [hdue] at hkey
      obtain ⟨k, hk, hown⟩ := h.owned key hkey
      have hkl : k ≠ l := by
        rintro rfl
        exact howns hown
      exact ⟨k, by rw [hw.others k hkl]; exact hk, (hw.owns_iff k key).mpr hown⟩
  sound := by
    intro k lag' hk
    by_cases hkl : k = l
    · subst hkl
      exact hsound lag' hk
    · rw [hw.others k hkl] at hk
      exact h.sound_elsewhere hw hk hkl (hchanged k hkl).mpr hpending
  settled := by
    intro k lag' hk hnot
    by_cases hkl : k = l
    · subst hkl
      exact hsettled lag' hk hnot
    · rw [hw.others k hkl] at hk
      exact h.settled_elsewhere hw hk hkl (mt (hchanged k hkl).mpr hnot)

/-- Marks on LAGs that do not exist do not matter. -/
theorem relabel (h : e.Coherent changed pending)
    (hchanged : ∀ k, (e.lags.get? k).isSome = true → (changed' k ↔ changed k)) :
    e.Coherent changed' pending :=
  { h with
    sound := by
      intro k lag hk
      have heq := hchanged k (by rw [hk]; rfl)
      exact (h.sound k lag hk).congr rfl (fun _ _ => rfl) rfl (fun _ _ _ _ => rfl) heq.mpr
    settled := by
      intro k lag hk hnot
      have heq := hchanged k (by rw [hk]; rfl)
      exact h.settled k lag hk (mt heq.mpr hnot) }

/-! ## Evaluation -/

/-- Evaluation keeps a member in line, and no disabled member waits any longer. -/
theorem sound_after (h : e.Coherent changed []) (hl : e.lags.get? l = some lag) {slot : Nat}
    {i : Interface} (hslot : slot ∈ lag.members) (hi : e.interfaces.get? slot = some i) :
    (e.after l lag slot i).Sound lag.settings False e.now slot
      (e.evaluate l).1.timers.deadline? := by
  have hsound := (h.sound l lag hl).member slot hslot i hi
  rw [due_nil] at hsound
  obtain ⟨t, ht, hdue⟩ := deadline?_evaluate hl (h.nodup hl) hslot hi
  have hregrant : (e.regrant l lag slot i).Sound lag.settings (changed l) e.now slot
      t.deadline? := by
    refine ⟨?_, hsound.truthful.withGrant _, ?_⟩
    · simp only [regrant, Interface.withGrant_isEnabled]
      exact hsound.follows.withGrant _
    · simp only [regrant, Interface.withGrant_isEnabled]
      refine hsound.timed.congr ?_ ?_ ?_ ?_ ?_ ht
      · exact Interface.withGrant_receive _ _
      · exact Interface.withGrant_keeps (·.protocol.mux) (fun _ _ _ => rfl) _ _
      · exact Interface.withGrant_keeps (·.protocol.ready) (fun _ _ _ => rfl) _ _
      · exact Interface.withGrant_keeps (·.protocol.periodic) (fun _ _ _ => rfl) _ _
      · intro side
        exact Interface.withGrant_keeps (fun i => side.flag i.protocol)
          (fun _ _ _ => by cases side <;> rfl) _ _
  have hdisabled : (e.regrant l lag slot i).isEnabled = false →
      (e.decision l lag slot).isEligible = false := by
    intro hoff
    refine not_eligible_of_disabled hi ?_
    simpa [regrant] using hoff
  have hfollows : Protocol.Follows lag.settings (e.after l lag slot i).isEnabled
      (e.after l lag slot i).protocol := by
    simp only [after, Evaluation.result_isEnabled]
    exact hregrant.follows.result
  have htruthful : Protocol.Truthful lag.settings (e.after l lag slot i).protocol :=
    hregrant.truthful.result hregrant.follows rfl hdisabled
  have htimed : Protocol.Timed lag.settings False e.now slot (e.after l lag slot i).protocol
      ((e.evaluation lag).member slot (e.decision l lag slot) (e.regrant l lag slot i)
        t).2.1.deadline? := by
    have hdynamic : (e.evaluation lag).dynamic = lag.settings.mode.isDynamic := rfl
    refine Protocol.Timed.member hregrant.timed hdynamic ?_
    rintro ⟨-, hoff⟩
    exact hdisabled hoff
  have htimed' := htimed.congr rfl rfl rfl rfl (fun _ => rfl) hdue
  exact ⟨hfollows, htruthful, htimed'.mono False.elim⟩

/-- An evaluation settles its LAG and keeps the engine coherent. -/
theorem evaluate (h : e.Coherent changed []) (l : Nat) :
    (e.evaluate l).1.Coherent (fun k => changed k ∧ k ≠ l) [] := by
  cases hl : e.lags.get? l with
  | none =>
    rw [evaluate_of_not_live hl]
    refine h.relabel fun k hk => ?_
    have hkl : k ≠ l := by
      rintro rfl
      simp [hl] at hk
    simp [hkl]
  | some lag =>
    have hw : Within l e (e.evaluate l).1 := by
      refine within_evaluate (fun lag' hl' => h.nodup hl') fun lag' hl' => h.members l lag' hl'
    have hget := get?_lags_evaluate hl
    refine h.within hw hl (fun k hk => by simp [hk]) (fun _ _ => Iff.rfl) ?_ ?_
    · intro lag' hl'
      obtain rfl : e.lagAfter l lag = lag' := Option.some.inj (hget.symm.trans hl')
      have hsound := h.sound l lag hl
      refine ⟨hsound.timeout, ?_, ?_⟩
      · rw [due_nil, deadline?_evaluate_fallback hl, hw.now]
        have hfallback := hsound.fallback
        rw [due_nil] at hfallback
        refine hfallback.evaluate ?_
        exact Nat.mul_le_mul_right 1000 hsound.timeout
      · intro slot hslot i' hi'
        rw [due_nil, hw.now]
        rw [get?_evaluate hl (h.nodup hl) hslot] at hi'
        obtain ⟨i, hi, rfl⟩ := Option.map_eq_some_iff.mp hi'
        exact (h.sound_after hl hslot hi).mono False.elim
    · intro lag' hl' _
      obtain rfl : e.lagAfter l lag = lag' := Option.some.inj (hget.symm.trans hl')
      exact settled_evaluate hl (h.nodup hl)

end Coherent
end Engine
end LinkAggregation
