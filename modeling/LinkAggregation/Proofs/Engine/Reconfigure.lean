import LinkAggregation.Proofs.Config
import LinkAggregation.Proofs.Engine.Membership

/-!
# New settings of a LAG

New settings reach the members of a LAG one after the other: each is restarted if the LAG has
become static or dynamic, and told of the settings if it is and stays dynamic. Steps at different
slots do not get in each other's way, so at the end every member is in line with the new settings.
-/
namespace LinkAggregation

/-- A new value of an interface, and new deadlines of its timers. -/
abbrev MemberStep := Interface → Nat → Timers → Interface × Timers

/-- The step keeps name and LAG and touches no timer of another slot. -/
structure MemberStep.Local (step : MemberStep) : Prop where
  name : ∀ i slot t, (step i slot t).1.name = i.name
  lag : ∀ i slot t, (step i slot t).1.lag = i.lag
  timers : ∀ i slot t (key : TimerKey), key.interface? ≠ some slot →
    (step i slot t).2.deadline? key = t.deadline? key
  wellFormed : ∀ i slot t, t.WellFormed → (step i slot t).2.WellFormed

namespace Engine
variable {e e' : Engine} {l slot : Nat} {lag : Lag} {i : Interface} {step : MemberStep}
  {f : Engine → Nat → Engine} {now : Nat} {slots : List Nat}

/-- The function takes the step at every member of the LAG. -/
def Performs (f : Engine → Nat → Engine) (step : MemberStep) (l : Nat) (lag : Lag) (now : Nat) :
    Prop :=
  ∀ (e : Engine) slot i, e.lags.get? l = some lag → e.now = now →
    e.interfaces.get? slot = some i → i.lag = some l → f e slot = e.put slot (step i slot e.timers)

/-- A step at a member stays within its LAG. -/
theorem Performs.within (hf : Performs f step l lag now) (hstep : step.Local)
    (hl : e.lags.get? l = some lag) (hnow : e.now = now) (hi : e.interfaces.get? slot = some i)
    (hlag : i.lag = some l) : Within l e (f e slot) := by
  rw [hf e slot i hl hnow hi hlag]
  exact within_put hi hlag (hstep.name i slot _) (hstep.lag i slot _) (hstep.timers i slot _)
    (hstep.wellFormed i slot _)

/-- Steps at some members of a LAG stay within it, and elsewhere leave everything as it is. -/
theorem foldl_within (hf : Performs f step l lag now) (hstep : step.Local)
    (hl : e.lags.get? l = some lag) (hnow : e.now = now) (hslots : ∀ s ∈ slots, e.IsMember l s) :
    Within l e (slots.foldl f e) ∧ (slots.foldl f e).lags = e.lags ∧
      (∀ key : TimerKey, (∀ s ∈ slots, key.interface? ≠ some s) →
        (slots.foldl f e).timers.deadline? key = e.timers.deadline? key) ∧
      ∀ s, s ∉ slots → (slots.foldl f e).interfaces.get? s = e.interfaces.get? s := by
  induction slots generalizing e with
  | nil => exact ⟨Within.refl l e, rfl, fun _ _ => rfl, fun _ _ => rfl⟩
  | cons s rest ih =>
    obtain ⟨i, hi, hlag⟩ := hslots s List.mem_cons_self
    have hput := hf e s i hl hnow hi hlag
    have hw := hf.within hstep hl hnow hi hlag
    have hlags : (f e s).lags = e.lags := by
      rw [hput]
      rfl
    obtain ⟨hwithin, hsame, htimers, hget⟩ := ih (e := f e s) (by rw [hlags]; exact hl)
      (hw.now.trans hnow) fun s' hs' =>
        (hw.isMember_iff l s').mpr (hslots s' (List.mem_cons_of_mem _ hs'))
    refine ⟨hw.trans hwithin, hsame.trans hlags, fun key hkey => ?_, fun s' hs' => ?_⟩
    · refine (htimers key fun s' hs' => hkey s' (List.mem_cons_of_mem _ hs')).trans ?_
      rw [hput]
      exact hstep.timers i s _ key (hkey s List.mem_cons_self)
    · simp only [List.mem_cons, not_or] at hs'
      refine (hget s' hs'.2).trans ?_
      rw [hput, get?_put, if_neg (Ne.symm hs'.1)]

/-- Every member has taken its step. -/
theorem foldl_step (hf : Performs f step l lag now) (hstep : step.Local)
    (hl : e.lags.get? l = some lag) (hnow : e.now = now) (hslots : ∀ s ∈ slots, e.IsMember l s)
    (hnodup : slots.Nodup) (hslot : slot ∈ slots) (hi : e.interfaces.get? slot = some i) :
    ∃ t : Timers,
      (∀ key : TimerKey, key.interface? = some slot → t.deadline? key = e.timers.deadline? key) ∧
      (slots.foldl f e).interfaces.get? slot = some (step i slot t).1 ∧
      ∀ key : TimerKey, key.interface? = some slot →
        (slots.foldl f e).timers.deadline? key = (step i slot t).2.deadline? key := by
  induction slots generalizing e with
  | nil => simp at hslot
  | cons s rest ih =>
    obtain ⟨hnot, hnodup⟩ := List.nodup_cons.mp hnodup
    obtain ⟨j, hj, hlag⟩ := hslots s List.mem_cons_self
    have hput := hf e s j hl hnow hj hlag
    have hw := hf.within hstep hl hnow hj hlag
    have hl' : (f e s).lags.get? l = some lag := by
      rw [hput]
      exact hl
    have hrest : ∀ s' ∈ rest, (f e s).IsMember l s' := fun s' hs' =>
      (hw.isMember_iff l s').mpr (hslots s' (List.mem_cons_of_mem _ hs'))
    obtain rfl | hmem := List.mem_cons.mp hslot
    · obtain rfl : i = j := Option.some.inj (hi.symm.trans hj)
      obtain ⟨-, -, htimers, hget⟩ := foldl_within hf hstep hl' (hw.now.trans hnow) hrest
      refine ⟨e.timers, fun _ _ => rfl, ?_, fun key hkey => ?_⟩
      · refine (hget slot hnot).trans ?_
        rw [hput, get?_put_self hi]
      · refine (htimers key fun s' hs' => ?_).trans (by rw [hput]; rfl)
        rw [hkey]
        exact fun heq => hnot (Option.some.inj heq ▸ hs')
    · have hne : s ≠ slot := fun heq => hnot (heq ▸ hmem)
      have hi' : (f e s).interfaces.get? slot = some i := by
        rw [hput, get?_put, if_neg hne]
        exact hi
      obtain ⟨t, ht, hvalue, hdue⟩ := ih hl' (hw.now.trans hnow) hrest hnodup hmem hi'
      refine ⟨t, fun key hkey => (ht key hkey).trans ?_, hvalue, hdue⟩
      rw [hput]
      refine hstep.timers j s _ key ?_
      rw [hkey]
      exact fun heq => hne (Option.some.inj heq).symm

/-- If every step takes a member from the old settings to the new ones, the engine stays coherent
with the LAG marked as changed. -/
theorem Coherent.reconfigure (h : e.Stable) (hl : e.lags.get? l = some lag) {new : LagSettings}
    (htimeout : new.fallbackTimeout ≤ maxFallbackTimeout)
    (hf : Performs f step l { lag with settings := new } e.now) (hstep : step.Local)
    (hsound : ∀ i slot (t : Timers), i.Sound lag.settings False e.now slot t.deadline? →
      (step i slot t).1.Sound new True e.now slot (step i slot t).2.deadline?) :
    (lag.members.foldl f (e.modifyLag l fun lag => { lag with settings := new })).Coherent
      (fun k => k = l) [] := by
  have hmodify : Within l e (e.modifyLag l fun lag => { lag with settings := new }) :=
    within_modifyLag (fun _ => rfl) fun _ => rfl
  have hget : (e.modifyLag l fun lag => { lag with settings := new }).lags.get? l =
      some { lag with settings := new } := by
    simp [modifyLag, hl]
  have hslots : ∀ s ∈ lag.members,
      (e.modifyLag l fun lag => { lag with settings := new }).IsMember l s := fun s hs =>
    (hmodify.isMember_iff l s).mpr ((h.members l lag hl s).mp hs)
  obtain ⟨hwithin, hlags, htimers, -⟩ := foldl_within hf hstep hget rfl hslots
  refine h.within (hmodify.trans hwithin) hl (fun k hk => by simp [hk]) (fun _ _ => Iff.rfl) ?_
    fun _ _ hnot => absurd rfl hnot
  intro lag' hl'
  rw [hlags, hget] at hl'
  obtain rfl := Option.some.inj hl'
  refine ⟨htimeout, ?_, fun slot hslot i' hi' => ?_⟩
  · have hfallback := (h.sound l lag hl).fallback
    rw [due_nil] at hfallback ⊢
    rw [htimers _ (by simp [TimerKey.interface?]), hwithin.now]
    exact hfallback
  · obtain ⟨i, hi, hlag⟩ := h.get?_of_mem hl hslot
    obtain ⟨t, ht, hvalue, hdue⟩ := foldl_step hf hstep hget rfl hslots (h.nodup hl) hslot hi
    obtain rfl := Option.some.inj (hvalue.symm.trans hi')
    rw [due_nil, hwithin.now]
    have hold := (h.sound_member hi hlag hl).congr ht
    exact ((hsound i slot t hold).congr hdue).mono fun _ => rfl

/-! ## The steps -/

/-- The member begins anew. -/
def restartStep (new : LagSettings) (now : Nat) : MemberStep := fun i slot t =>
  ({ i with
      protocol := (Receive.sync slot i.isEnabled new {} (t.cancelInterface slot) now).1 },
    (Receive.sync slot i.isEnabled new {} (t.cancelInterface slot) now).2)

theorem local_restartStep (new : LagSettings) (now : Nat) : (restartStep new now).Local where
  name := fun _ _ _ => rfl
  lag := fun _ _ _ => rfl
  timers := by
    intro i slot t key hkey
    exact (Receive.deadline?_sync_of_ne hkey).trans (by simp [hkey])
  wellFormed := fun _ slot _ ht => Receive.wellFormed_sync (ht.cancelInterface slot)

theorem performs_restartStep :
    Performs restartMember (restartStep lag.settings now) l lag now := by
  intro e slot i hl hnow hi hlag
  rw [restartMember_eq hi hlag hl, hnow]
  rfl

theorem sound_restartStep {new : LagSettings} {t : Timers} :
    (restartStep new now i slot t).1.Sound new True now slot
      (restartStep new now i slot t).2.deadline? := by
  refine ⟨Receive.follows_sync, Receive.truthful_sync Protocol.truthful_fresh, ?_⟩
  refine Receive.timed_sync (Protocol.timed_fresh fun key hkey => ?_) fun hoff => ⟨trivial, hoff⟩
  simp [hkey]

/-- The member is told of the settings if it is running. -/
def retellStep (old new : LagSettings) (now : Nat) : MemberStep := fun i slot t =>
  ({ i with protocol := (Receive.retell slot old new i.protocol t now).1 },
    (Receive.retell slot old new i.protocol t now).2)

theorem local_retellStep (old new : LagSettings) (now : Nat) : (retellStep old new now).Local where
  name := fun _ _ _ => rfl
  lag := fun _ _ _ => rfl
  timers := fun _ _ _ _ hkey => Receive.deadline?_retell_of_ne hkey
  wellFormed := fun _ _ _ ht => Receive.wellFormed_retell ht

theorem performs_retellStep (old new : LagSettings) :
    Performs (updateMember old new) (retellStep old new now) l lag now := by
  intro e slot i hl hnow hi hlag
  rw [updateMember_eq hi, hnow]
  rfl

/-- Nothing happens to the member. -/
def idleStep : MemberStep := fun i _ t => (i, t)

theorem local_idleStep : idleStep.Local where
  name := fun _ _ _ => rfl
  lag := fun _ _ _ => rfl
  timers := fun _ _ _ _ _ => rfl
  wellFormed := fun _ _ _ ht => ht

theorem performs_idleStep : Performs (fun e _ => e) idleStep l lag now := by
  intro e slot i _ _ hi _
  exact (put_self hi).symm

/-- A silent member takes new settings without a step. -/
theorem sound_of_silent {old new : LagSettings} {due : TimerKey → Option Nat}
    (h : i.Sound old False now slot due) (hdynamic : new.mode.isDynamic = old.mode.isDynamic)
    (hsilent : i.protocol.receive.isRunning = false) : i.Sound new True now slot due where
  follows := by
    have hfollows := h.follows
    unfold Protocol.Follows at *
    rw [hdynamic]
    exact hfollows
  truthful := { h.truthful with settings := fun hrunning => by simp [hsilent] at hrunning }
  timed := by
    have hlistening : i.protocol.receive.isListening = false := by
      cases hr : i.protocol.receive <;> simp_all [ReceiveState.isRunning,
        ReceiveState.isListening]
    refine (h.timed.listen hdynamic rfl rfl rfl (fun _ => rfl) (fun _ _ => rfl) ?_).mono
      fun hexcused => ⟨trivial, hexcused.2⟩
    have hheard := h.timed.heard
    rw [hlistening] at hheard
    simpa [hlistening] using hheard

theorem sound_retellStep {old new : LagSettings} {t : Timers}
    (h : i.Sound old False now slot t.deadline?)
    (hdynamic : new.mode.isDynamic = old.mode.isDynamic) :
    (retellStep old new now i slot t).1.Sound new True now slot
      (retellStep old new now i slot t).2.deadline? := by
  cases hrunning : i.protocol.receive.isRunning with
  | false =>
    have hkeep : retellStep old new now i slot t = (i, t) := by
      simp [retellStep, Receive.retell_of_not_running hrunning]
    rw [hkeep]
    exact sound_of_silent h hdynamic hrunning
  | true =>
    obtain ⟨henabled, hold⟩ := h.follows.of_running hrunning
    refine ⟨?_, Receive.truthful_retell h.truthful hrunning, ?_⟩
    · have hkeep : (retellStep old new now i slot t).1.isEnabled = true := henabled
      rw [hkeep, Protocol.follows_iff_of_enabled (hdynamic.trans hold)]
      exact (congrArg ReceiveState.isRunning Receive.receive_retell).trans hrunning
    · exact (Receive.timed_retell hdynamic h.timed hrunning).mono fun hexcused =>
        ⟨trivial, hexcused.2⟩

/-- New settings of a LAG leave the engine settled. -/
theorem Coherent.changeLag (h : e.Stable) (hl : e.lags.get? l = some lag) {new : LagSettings}
    (htimeout : new.fallbackTimeout ≤ maxFallbackTimeout) :
    (e.changeLag l lag new).1.Stable := by
  unfold Engine.changeLag
  refine Coherent.evaluate_stable ?_
  by_cases hdynamic : lag.settings.mode.isDynamic = new.mode.isDynamic
  · rw [if_neg (not_not.mpr hdynamic)]
    by_cases hnew : new.mode.isDynamic = true
    · rw [if_pos hnew]
      exact h.reconfigure hl htimeout (performs_retellStep _ _) (local_retellStep _ _ _)
        fun i slot t hold => sound_retellStep hold hdynamic.symm
    · rw [if_neg hnew]
      have hidle := h.reconfigure hl htimeout performs_idleStep local_idleStep
        fun i slot t hold => sound_of_silent hold hdynamic.symm (Bool.eq_false_iff.mpr
          fun hrunning => hnew (hdynamic ▸ (hold.follows.of_running hrunning).2))
      rwa [List.foldl_fixed'] at hidle
      exact fun _ => rfl
  · rw [if_pos hdynamic]
    exact h.reconfigure hl htimeout performs_restartStep (local_restartStep _ _)
      fun i slot t _ => sound_restartStep

end Engine
end LinkAggregation
