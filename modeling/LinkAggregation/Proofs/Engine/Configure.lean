import LinkAggregation.Engine.Pending
import LinkAggregation.Proofs.Engine.Reconfigure

/-!
# Configuration keeps the engine stable

Every operation that applies a table entry leaves a stable engine stable, whether it succeeds or
fails.
-/
namespace LinkAggregation.Engine
variable {e : Engine} {l slot : Nat} {lag : Lag} {i : Interface}

/-! ## The system identity -/

theorem next_fst (s : Step) (f : Engine → Step) : (s.next f).1 = (f s.1).1 := rfl

theorem foldl_next_fst {α : Type} (f : Engine → α → Step) (xs : List α) (s : Step) :
    (xs.foldl (fun s x => s.next (f · x)) s).1 = xs.foldl (fun e x => (f e x).1) s.1 := by
  induction xs generalizing s with
  | nil => rfl
  | cons x rest ih => exact ih _

theorem evaluateAll_fst (slots : List Nat) :
    (e.evaluateAll slots).1 = slots.foldl (fun e l => (e.evaluate l).1) e :=
  foldl_next_fst evaluate slots _

/-- Evaluating several LAGs takes the marks off all of them. -/
theorem Coherent.evaluateAll {changed : Nat → Prop} (h : e.Coherent changed []) (slots : List Nat) :
    (e.evaluateAll slots).1.Coherent (fun k => changed k ∧ k ∉ slots) [] := by
  rw [evaluateAll_fst]
  induction slots generalizing e changed with
  | nil => exact h.relabel fun _ _ => by simp
  | cons l rest ih =>
    exact (ih (h.evaluate l)).relabel fun k _ => by simp [and_assoc]

/-- The interface has something to tell its partner if it is a member. -/
def tell (i : Interface) : Interface :=
  if i.lag.isSome then { i with protocol := { i.protocol with needToTransmit := true } } else i

/-- The engine has a new identity, and every member has to tell its partner. -/
def told (e : Engine) (system : SystemIdentity) : Engine :=
  { e with system, interfaces := e.interfaces.map tell }

theorem setSystem_eq (system : SystemIdentity) :
    e.setSystem system = (e.told system).evaluateAll (e.told system).lags.occupied := rfl

/-- Only the need to transmit is touched. -/
theorem tell_keeps {α : Type} (f : Interface → α)
    (hf : ∀ i ntt, f { i with protocol := { i.protocol with needToTransmit := ntt } } = f i)
    (i : Interface) : f (tell i) = f i := by
  unfold tell
  split
  · exact hf i true
  · rfl

theorem Interface.Sound.tell {s : LagSettings} {c : Prop} {now : Nat}
    {due : TimerKey → Option Nat} (h : i.Sound s c now slot due) :
    (Engine.tell i).Sound s c now slot due := by
  unfold Engine.tell
  split
  · refine ⟨h.follows, h.truthful.congr rfl rfl rfl rfl rfl rfl, ?_⟩
    exact h.timed.congr rfl rfl rfl rfl (fun side => by cases side <;> rfl) fun _ _ => rfl
  · exact h

/-- A new identity leaves every LAG to be evaluated. -/
theorem Coherent.told (h : e.Stable) (system : SystemIdentity) :
    (e.told system).Coherent (fun _ => True) [] := by
  have hget : ∀ slot, (e.told system).interfaces.get? slot = (e.interfaces.get? slot).map tell :=
    fun slot => Arena.get?_map _ _ _
  have hmember : ∀ l slot, (e.told system).IsMember l slot ↔ e.IsMember l slot := by
    intro l slot
    simp only [IsMember, hget, Option.map_eq_some_iff]
    constructor
    · rintro ⟨_, ⟨i, hi, rfl⟩, hl⟩
      exact ⟨i, hi, (tell_keeps Interface.lag (fun _ _ => rfl) i).symm.trans hl⟩
    · rintro ⟨i, hi, hl⟩
      exact ⟨tell i, ⟨i, hi, rfl⟩, (tell_keeps Interface.lag (fun _ _ => rfl) i).trans hl⟩
  refine
    { interfaces := h.interfaces.map fun i => tell_keeps Interface.name (fun _ _ => rfl) i
      lags := h.lags
      timers := h.timers
      ascending := h.ascending
      members := fun l lag hl slot => (h.members l lag hl slot).trans (hmember l slot).symm
      live := fun l slot hslot => h.live l slot ((hmember l slot).mp hslot)
      owned := ?_
      sound := ?_
      settled := fun _ _ _ hnot => absurd trivial hnot }
  · intro key hkey
    obtain ⟨l, hl, howns⟩ := h.owned key hkey
    refine ⟨l, hl, ?_⟩
    obtain rfl | ⟨slot, hslot, hm⟩ := howns
    · exact .inl rfl
    · exact .inr ⟨slot, hslot, (hmember l slot).mpr hm⟩
  · intro l lag hl
    have hold := h.sound l lag hl
    refine ⟨hold.timeout, hold.fallback, fun slot hslot i hi => ?_⟩
    rw [hget] at hi
    obtain ⟨j, hj, rfl⟩ := Option.map_eq_some_iff.mp hi
    exact (Interface.Sound.tell (hold.member slot hslot j hj)).mono fun _ => trivial

theorem Coherent.setSystem (h : e.Stable) (system : SystemIdentity) :
    (e.setSystem system).1.Stable := by
  have hmarked : (e.told system).Coherent (fun k => k ∈ (e.told system).lags.occupied) [] := by
    refine (h.told system).relabel fun k hk => ?_
    simpa [Arena.mem_occupied] using Option.isSome_iff_exists.mp hk
  rw [setSystem_eq]
  exact (hmarked.evaluateAll _).relabel fun k _ => by simp

theorem Coherent.changeSystem (h : e.Stable) (system : SystemIdentity) :
    (e.changeSystem system).engine.Stable := by
  unfold Engine.changeSystem
  split
  · exact h
  · exact h.setSystem system

theorem Coherent.systemSet (h : e.Stable) (key : String) (fields : List Field) :
    (e.systemSet key fields).engine.Stable := by
  unfold Engine.systemSet
  split
  · exact h
  · split
    · exact h
    · exact h.changeSystem _

theorem Coherent.systemDel (h : e.Stable) (key : String) : (e.systemDel key).engine.Stable := by
  unfold Engine.systemDel
  split
  · exact h
  · exact h.changeSystem _

/-! ## LAGs -/

theorem Coherent.createLag (h : e.Stable) {name : String} (key : UInt16) {settings : LagSettings}
    (hfind : e.lags.find? name = none)
    (htimeout : settings.fallbackTimeout ≤ maxFallbackTimeout) :
    (e.createLag name key settings).1.Stable := by
  have hnew : e.lags.find? ({ name, key, settings } : Lag).name = none := hfind
  exact (h.insertLag hnew rfl rfl htimeout).evaluate_stable

theorem Coherent.lagSet (h : e.Stable) (name : String) (fields : List Field) :
    (e.lagSet name fields).engine.Stable := by
  unfold Engine.lagSet
  split
  · exact h
  · split
    · next hfind =>
      split
      · exact h
      · next settings hfields =>
        refine h.createLag _ hfind ?_
        exact LagSettings.timeout_le_of_withFields (by decide) hfields
    · split
      · exact h
      · next hl =>
        split
        · exact h
        · next settings hfields =>
          split
          · exact h
          · refine h.changeLag hl ?_
            exact LagSettings.timeout_le_of_withFields (h.sound _ _ hl).timeout hfields

/-- One member after the other leaves the LAG. -/
theorem Coherent.detachMembers (h : e.Coherent (fun k => k = l) []) {slots : List Nat}
    (hl : e.lags.get? l = some lag) (hmembers : lag.members = slots) :
    (slots.foldl (fun e m => (e.detachMember l m).1) e).Coherent (fun k => k = l) [] ∧
      (slots.foldl (fun e m => (e.detachMember l m).1) e).lags.find? =
        e.lags.find? ∧
      ∀ slot, ¬ (slots.foldl (fun e m => (e.detachMember l m).1) e).IsMember l slot := by
  induction slots generalizing e lag with
  | nil =>
    refine ⟨h, rfl, fun slot hslot => ?_⟩
    have hmem := (h.members l lag hl slot).mpr hslot
    simp [hmembers] at hmem
  | cons s rest ih =>
    obtain ⟨i, hi, hlag⟩ := h.get?_of_mem hl (by rw [hmembers]; exact List.mem_cons_self)
    have hnext : (e.detachMember l s).1.lags = e.lags.modify l (·.removeMember s) := by
      unfold Engine.detachMember
      simp only
      split <;> rfl
    have hl' : (e.detachMember l s).1.lags.get? l = some (lag.removeMember s) := by
      rw [hnext, Arena.get?_modify, if_pos rfl, hl]
      rfl
    have hrest : (lag.removeMember s).members = rest := by
      simp [Lag.removeMember, hmembers]
    obtain ⟨hcoherent, hfind, hempty⟩ := ih (h.detach hi hlag hl) hl' hrest
    refine ⟨hcoherent, ?_, hempty⟩
    refine hfind.trans ?_
    rw [hnext]
    rfl

theorem Coherent.lagDel (h : e.Stable) (name : String) : (e.lagDel name).engine.Stable := by
  unfold Engine.lagDel
  split
  · exact h
  · next l hfind =>
    obtain ⟨lag, hl, -⟩ := h.lags.get?_of_find? hfind
    have hmarked : e.Coherent (fun k => k = l) [] := h.mark fun _ => False.elim
    obtain ⟨hcoherent, hfind', hempty⟩ := hmarked.detachMembers hl rfl
    simp only [hl, Option.map_some, Option.getD_some, Outcome.ok]
    rw [foldl_next_fst (fun e m => e.detachMember l m)]
    exact hcoherent.removeLag (by rw [hfind']; exact hfind) hempty

/-! ## Members -/

theorem Coherent.attachMember (h : e.Stable) (hi : e.interfaces.get? slot = some i)
    (hlag : i.lag = none) (hl : e.lags.get? l = some lag) (settings : MemberSettings) :
    (e.attachMember l slot settings).1.Stable :=
  (h.attach hi hlag hl settings).evaluate_stable

/-- New settings of a member concern its identity only. -/
theorem Coherent.changeMember (h : e.Stable) (hi : e.interfaces.get? slot = some i)
    (hlag : i.lag = some l) (settings : MemberSettings) :
    (e.changeMember l slot settings).1.Stable := by
  obtain ⟨lag, hl, -⟩ := h.lag_of_member hi hlag
  have hsound := h.sound_member hi hlag hl
  unfold Engine.changeMember
  refine Coherent.evaluate_stable ?_
  rw [show (e.modifyInterface slot fun i =>
      { i with settings, protocol := { i.protocol with needToTransmit := true } }) = _ from
      modifyInterface_eq_put hi _ _]
  refine h.put hi hlag hl rfl rfl (fun _ _ => rfl) h.timers ⟨hsound.follows, ?_, ?_⟩
  · exact hsound.truthful.congr rfl rfl rfl rfl rfl rfl
  · have htimed : i.protocol.Timed lag.settings (True ∧ i.isEnabled = false) e.now slot
        e.timers.deadline? := hsound.timed.mono fun hexcused => ⟨trivial, hexcused.2⟩
    exact htimed.congr rfl rfl rfl rfl (fun side => by cases side <;> rfl) fun _ _ => rfl

/-- A known interface stays where it is, and a new one is in no LAG. -/
theorem ensureInterface_lags (name : String) : (e.ensureInterface name).1.lags = e.lags := by
  unfold Engine.ensureInterface
  split <;> rfl

theorem Coherent.memberSet (h : e.Stable) (key : String) (fields : List Field) :
    (e.memberSet key fields).engine.Stable := by
  unfold Engine.memberSet
  split
  · exact h
  · next lagName name _ =>
    split
    · exact h
    · next l hfind =>
      have hknown := h.ensureInterface name
      obtain ⟨lag, hl, -⟩ := h.lags.get?_of_find? hfind
      rw [← ensureInterface_lags name] at hl
      simp only
      split
      · exact hknown
      · next i hi =>
        split
        · next hlag =>
          split
          · exact hknown
          · exact hknown.attachMember hi hlag hl _
        · next current hlag =>
          split
          · exact hknown
          · next hsame =>
            split
            · exact hknown
            · split
              · exact hknown
              · refine hknown.changeMember hi ?_ _
                rw [hlag, not_not.mp hsame]

theorem Coherent.memberDel (h : e.Stable) (key : String) : (e.memberDel key).engine.Stable := by
  unfold Engine.memberDel
  split
  · exact h
  · split
    · next l slot _ _ =>
      split
      · next hmember =>
        obtain ⟨i, hi, hlag⟩ := Option.bind_eq_some_iff.mp hmember
        obtain ⟨lag, hl, -⟩ := h.lag_of_member hi hlag
        exact ((h.mark fun _ => False.elim).detach hi hlag hl).evaluate_stable
      · exact h
    · exact h

/-! ## Ports -/

theorem Coherent.updatePort (h : e.Stable) (slot : Nat) (status : PortStatus) :
    (e.updatePort slot status).1.Stable := by
  unfold Engine.updatePort
  split
  · exact h
  · next i hi =>
    split
    · exact h
    · simp only
      split
      · next hlag => exact h.modify_outside hi hlag rfl hlag
      · next l hlag =>
        obtain ⟨lag, hl, -⟩ := h.lag_of_member hi hlag
        have hsound := h.sound_member hi hlag hl
        refine Coherent.evaluate_stable ?_
        have hput : (e.modifyInterface slot fun i => { i with port := status }) =
            e.put slot ({ i with port := status }, e.timers) := modifyInterface_eq_put hi _ _
        rw [hput, syncReceive_eq (get?_put_self hi _) hlag hl, put_put]
        refine h.put hi hlag hl rfl rfl (fun _ hkey => Receive.deadline?_sync_of_ne hkey)
          (Receive.wellFormed_sync h.timers) ?_
        refine ⟨Receive.follows_sync, Receive.truthful_sync hsound.truthful, ?_⟩
        exact Receive.timed_sync (hsound.timed.mono fun hexcused => hexcused.1.elim)
          fun hoff => ⟨trivial, hoff⟩

theorem Coherent.portSet (h : e.Stable) (name : String) (fields : List Field) :
    (e.portSet name fields).engine.Stable := by
  unfold Engine.portSet
  simp only
  split
  · exact h
  · exact (h.ensureInterface name).updatePort _ _

theorem Coherent.portDel (h : e.Stable) (name : String) : (e.portDel name).engine.Stable := by
  unfold Engine.portDel
  split
  · exact h
  · next slot hfind =>
    split
    · exact h.updatePort slot {}
    · next hfree =>
      obtain ⟨i, hi, -⟩ := h.interfaces.get?_of_find? hfind
      have hlag : i.lag = none := by
        simpa [hi] using hfree
      exact h.remove_outside hi hlag hfind

/-- Applying a table entry keeps the engine stable. -/
theorem Coherent.applyEntry (h : e.Stable) (table : Table) (entry : Entry) :
    (e.applyEntry table entry).engine.Stable := by
  unfold Engine.applyEntry
  split
  · exact h.systemSet _ _
  · exact h.systemDel _
  · exact h.lagSet _ _
  · exact h.lagDel _
  · exact h.memberSet _ _
  · exact h.memberDel _
  · exact h.portSet _ _
  · exact h.portDel _

end LinkAggregation.Engine
