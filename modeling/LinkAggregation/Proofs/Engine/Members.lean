import LinkAggregation.Engine.Configure
import LinkAggregation.Proofs.Engine.Coherent
import LinkAggregation.Proofs.Protocol.Sync

/-!
# Changes of one member

Bringing a member in line, restarting it and telling it of new settings are new values of one
interface with new deadlines of its own timers. Such a change keeps the engine coherent if the new
value is in line with the LAG, and leaves the LAG marked as changed.
-/
namespace LinkAggregation.Engine
variable {e e' : Engine} {l slot : Nat} {lag : Lag} {i : Interface} {changed : Nat → Prop}

/-! ## New values -/

theorem put_self (hi : e.interfaces.get? slot = some i) : e.put slot (i, e.timers) = e := by
  unfold put modifyInterface
  rw [Arena.modify_eq_self]
  intro j hj
  exact Option.some.inj (hi.symm.trans hj)

theorem put_put (r r' : Interface × Timers) : (e.put slot r).put slot r' = e.put slot r' := by
  simp only [put, modifyInterface, Arena.modify_modify]

section
variable (hi : e.interfaces.get? slot = some i)
include hi

theorem get?_put_self (r : Interface × Timers) :
    (e.put slot r).interfaces.get? slot = some r.1 := by
  rw [get?_put, if_pos rfl, hi]
  rfl

/-- Bringing a member in line is a step of its receive machine. -/
theorem syncReceive_eq (hlag : i.lag = some l) (hl : e.lags.get? l = some lag) :
    e.syncReceive slot = e.put slot
      ({ i with
          protocol := (Receive.sync slot i.isEnabled lag.settings i.protocol e.timers e.now).1 },
        (Receive.sync slot i.isEnabled lag.settings i.protocol e.timers e.now).2) := by
  let g : Protocol × Timers → Engine := fun r =>
    { e.modifyInterface slot (fun i => { i with protocol := r.1 }) with timers := r.2 }
  have hg : ∀ r, g r = e.put slot ({ i with protocol := r.1 }, r.2) := fun r =>
    modifyInterface_eq_put hi _ _
  have hself : g (i.protocol, e.timers) = e := (hg _).trans (put_self hi)
  have hbind : i.lag.bind e.lags.get? = some lag := by
    rw [hlag]
    exact hl
  have hsync : e.syncReceive slot =
      g (Receive.sync slot i.isEnabled lag.settings i.protocol e.timers e.now) := by
    simp only [syncReceive, hi, hbind, Receive.sync, apply_ite g, hself, Bool.not_eq_true',
      Lag.isDynamic]
    rfl
  rw [hsync, hg]

/-- Telling a member of new settings is a step of its receive machine. -/
theorem updateMember_eq (old new : LagSettings) :
    e.updateMember old new slot = e.put slot
      ({ i with protocol := (Receive.retell slot old new i.protocol e.timers e.now).1 },
        (Receive.retell slot old new i.protocol e.timers e.now).2) := by
  let g : Protocol × Timers → Engine := fun r =>
    { e.modifyInterface slot (fun i => { i with protocol := r.1 }) with timers := r.2 }
  have hg : ∀ r, g r = e.put slot ({ i with protocol := r.1 }, r.2) := fun r =>
    modifyInterface_eq_put hi _ _
  have hself : g (i.protocol, e.timers) = e := (hg _).trans (put_self hi)
  have hupdate : e.updateMember old new slot =
      g (Receive.retell slot old new i.protocol e.timers e.now) := by
    simp only [updateMember, hi, Receive.retell, apply_ite g, hself, Bool.not_eq_true']
    rfl
  rw [hupdate, hg]

/-- A restarted member begins with a fresh protocol state. -/
theorem restartMember_eq (hlag : i.lag = some l) (hl : e.lags.get? l = some lag) :
    e.restartMember slot = e.put slot
      ({ i with protocol := (Receive.sync slot i.isEnabled lag.settings {}
          (e.timers.cancelInterface slot) e.now).1 },
        (Receive.sync slot i.isEnabled lag.settings {} (e.timers.cancelInterface slot)
          e.now).2) := by
  have hreset : e.restartMember slot =
      (e.put slot (i.reset, e.timers.cancelInterface slot)).syncReceive slot :=
    congrArg (fun e' : Engine => e'.syncReceive slot) (modifyInterface_eq_put hi _ _)
  rw [hreset, syncReceive_eq (get?_put_self hi _) hlag hl, put_put]
  rfl

end

/-! ## Coherence -/

/-- Coherence after a new value of one member. -/
theorem Coherent.put (h : e.Stable) (hi : e.interfaces.get? slot = some i) (hlag : i.lag = some l)
    (hl : e.lags.get? l = some lag) {r : Interface × Timers} (hname : r.1.name = i.name)
    (hkeep : r.1.lag = i.lag)
    (htimers : ∀ key : TimerKey, key.interface? ≠ some slot →
      r.2.deadline? key = e.timers.deadline? key)
    (hwf : r.2.WellFormed) (hsound : r.1.Sound lag.settings True e.now slot r.2.deadline?) :
    (e.put slot r).Coherent (fun k => k = l) [] := by
  have hw := within_put hi hlag hname hkeep htimers fun _ => hwf
  refine h.within hw hl (fun k hk => by simp [hk]) (fun _ _ => Iff.rfl) ?_
    fun _ _ hnot => absurd rfl hnot
  intro lag' hl'
  obtain rfl : lag = lag' := Option.some.inj (hl.symm.trans hl')
  have hold := h.sound l lag hl
  refine ⟨hold.timeout, ?_, fun slot' hslot' j hj => ?_⟩
  · have hfallback := hold.fallback
    rw [due_nil] at hfallback ⊢
    rwa [← htimers (.fallback l) (by simp [TimerKey.interface?])] at hfallback
  · rw [due_nil]
    rw [get?_put] at hj
    by_cases hslot : slot = slot'
    · subst hslot
      rw [if_pos rfl, hi] at hj
      obtain rfl : r.1 = j := Option.some.inj hj
      exact hsound.mono fun _ => rfl
    · rw [if_neg hslot] at hj
      have hmember := hold.member slot' hslot' j hj
      rw [due_nil] at hmember
      refine (hmember.congr fun key hkey => ?_).mono False.elim
      refine htimers key ?_
      rw [hkey]
      exact fun heq => hslot (Option.some.inj heq).symm

/-- An evaluation of the only LAG that has changed settles the engine. -/
theorem Coherent.evaluate_stable (h : e.Coherent (fun k => k = l) []) : (e.evaluate l).1.Stable :=
  (h.evaluate l).relabel fun _ _ => by simp

/-- A member that fits its LAG, seen on its own. -/
theorem Coherent.sound_member (h : e.Stable) (hi : e.interfaces.get? slot = some i)
    (hlag : i.lag = some l) (hl : e.lags.get? l = some lag) :
    i.Sound lag.settings False e.now slot e.timers.deadline? := by
  have hmember := (h.sound l lag hl).member slot
    ((h.members l lag hl slot).mpr ⟨i, hi, hlag⟩) i hi
  rwa [due_nil] at hmember

theorem Coherent.settled_member (h : e.Stable) (hi : e.interfaces.get? slot = some i)
    (hlag : i.lag = some l) (hl : e.lags.get? l = some lag) :
    (e.evaluation lag).Settled slot i e.timers := by
  have hslot : slot ∈ lag.members := (h.members l lag hl slot).mpr ⟨i, hi, hlag⟩
  exact (h.settled l lag hl id).member (slot, i) (mem_members.mpr ⟨hslot, hi⟩)

end LinkAggregation.Engine
