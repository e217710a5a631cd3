import LinkAggregation.Proofs.Config.Validity
import LinkAggregation.Proofs.Engine.Setup

/-!
# Valid identities

A LAG has a key from its name and valid settings, an interface valid settings and a port number, and
the address of the system is not a group's. This concerns the setup only, and every action keeps it
so: what has been read is valid, and so is what is made of a name.
-/
namespace LinkAggregation

namespace Arena
variable {α : Type} {P : α → Prop} {a : Arena α} {slot : Nat}

/-- Every value in the arena is like this. -/
def All (P : α → Prop) (a : Arena α) : Prop := ∀ slot v, a.get? slot = some v → P v

theorem All.empty : ({} : Arena α).All P := by
  intro slot v hv
  simp [get?] at hv

theorem All.modify (h : a.All P) {f : α → α} (hf : ∀ v, a.get? slot = some v → P v → P (f v)) :
    (a.modify slot f).All P := by
  intro slot' v hv
  rw [get?_modify] at hv
  split at hv
  · next heq =>
    subst heq
    obtain ⟨w, hw, rfl⟩ := Option.map_eq_some_iff.mp hv
    exact hf w hw (h slot w hw)
  · exact h slot' v hv

theorem All.insert (h : a.All P) (name : String) {value : α} (hvalue : P value) :
    (a.insert name value).All P := by
  intro slot v hv
  by_cases hslot : slot = a.freeSlot
  · rw [hslot, get?_insert_freeSlot] at hv
    rwa [← Option.some.inj hv]
  · rw [get?_insert_of_ne name value hslot] at hv
    exact h slot v hv

theorem All.remove (h : a.All P) (name : String) (slot : Nat) : (a.remove name slot).All P := by
  intro slot' v hv
  rw [get?_remove] at hv
  split at hv
  · cases hv
  · exact h slot' v hv

end Arena

/-- The key keeps to its range, and the settings are valid. -/
structure Lag.Valid (lag : Lag) : Prop where
  key : 1 ≤ lag.key.toNat ∧ lag.key.toNat ≤ 9999
  settings : lag.settings.Valid

/-- The settings are valid, and there is a port number if they have none. -/
structure Interface.Valid (i : Interface) : Prop where
  settings : i.settings.Valid
  defaultNumber : i.defaultNumber ≠ 0

theorem Lag.valid_setup {lag : Lag} : lag.setup.Valid ↔ lag.Valid :=
  ⟨fun h => ⟨h.key, h.settings⟩, fun h => ⟨h.key, h.settings⟩⟩

theorem Interface.valid_setup {i : Interface} : i.setup.Valid ↔ i.Valid :=
  ⟨fun h => ⟨h.settings, h.defaultNumber⟩, fun h => ⟨h.settings, h.defaultNumber⟩⟩

theorem Interface.valid_new (name : String) (slot : Nat) : (Interface.new name slot).Valid :=
  ⟨MemberSettings.valid_default, defaultPortNumber_ne_zero name slot⟩

/-- A member of a LAG advertises a key. -/
theorem Interface.Valid.key_ne_zero {i : Interface} {lag : Lag} (h : i.Valid) (hlag : lag.Valid) :
    i.key lag.key ≠ 0 := by
  unfold key
  cases hkey : i.settings.aggregationKey with
  | some key => exact h.settings.aggregationKey key hkey
  | none =>
    intro hzero
    have hpositive := hlag.key.1
    rw [show lag.key = 0 from hzero] at hpositive
    exact absurd hpositive (by decide)

/-- An interface advertises a port number. -/
theorem Interface.Valid.portNumber_ne_zero {i : Interface} (h : i.Valid) : i.portId.number ≠ 0 := by
  unfold portId
  cases hnumber : i.settings.portNumber with
  | some number => exact h.settings.portNumber number hnumber
  | none => exact h.defaultNumber

namespace Engine
variable {e e' : Engine} {l slot : Nat} {lag : Lag} {i : Interface}

/-- The system has the address of one system, and every LAG and every interface is valid. -/
structure Identified (e : Engine) : Prop where
  system : e.system.mac.isMulticast = false
  lags : e.lags.All Lag.Valid
  interfaces : e.interfaces.All Interface.Valid

theorem identified_new {system : SystemIdentity} (h : system.mac.isMulticast = false)
    (maxMembers : Nat) (connected : Bool) : (Engine.new system maxMembers connected).Identified :=
  ⟨h, .empty, .empty⟩

namespace Identified

/-- Only the setup matters. -/
theorem of_setup (h : e.Identified) (hsetup : e'.setup = e.setup) : e'.Identified where
  system := by
    rw [system_of_setup hsetup]
    exact h.system
  lags := by
    intro l lag' hl'
    obtain ⟨lag, hl, hsame⟩ := get?_lags_of_setup hsetup.symm hl'
    rw [← Lag.valid_setup, ← hsame, Lag.valid_setup]
    exact h.lags l lag hl
  interfaces := by
    intro slot i' hi'
    obtain ⟨i, hi, hsame⟩ := get?_interfaces_of_setup hsetup.symm hi'
    rw [← Interface.valid_setup, ← hsame, Interface.valid_setup]
    exact h.interfaces slot i hi

section
variable (h : e.Identified)
include h

/-! ## The system and LAGs -/

theorem changeSystem {system : SystemIdentity} (hsystem : system.mac.isMulticast = false) :
    (e.changeSystem system).engine.Identified := by
  have hset : { e with system }.Identified := ⟨hsystem, h.lags, h.interfaces⟩
  unfold Engine.changeSystem
  split
  · exact h
  · exact hset.of_setup (setup_setSystem e system)

theorem systemSet (key : String) (fields : List Field) :
    (e.systemSet key fields).engine.Identified := by
  unfold Engine.systemSet
  split
  · exact h
  · split
    · exact h
    · next hfields =>
      exact h.changeSystem (SystemIdentity.isMulticast_of_withFields h.system hfields)

theorem systemDel (key : String) : (e.systemDel key).engine.Identified := by
  unfold Engine.systemDel
  split
  · exact h
  · exact h.changeSystem rfl

theorem createLag (name : String) {key : UInt16} {settings : LagSettings}
    (hkey : lagKey name = .ok key) (hsettings : settings.Valid) :
    (e.createLag name key settings).1.Identified := by
  have hlag : ({ name, key, settings } : Lag).Valid := ⟨lagKey_bounds hkey, hsettings⟩
  have hinserted : { e with lags := e.lags.insert name { name, key, settings } }.Identified :=
    ⟨h.system, h.lags.insert name hlag, h.interfaces⟩
  exact hinserted.of_setup (setup_createLag e name key settings)

theorem changeLag (lag : Lag) {settings : LagSettings} (hsettings : settings.Valid) :
    (e.changeLag l lag settings).1.Identified := by
  have hchanged : (e.modifyLag l fun lag => { lag with settings }).Identified :=
    ⟨h.system, h.lags.modify fun _ _ hlag => ⟨hlag.key, hsettings⟩, h.interfaces⟩
  exact hchanged.of_setup (setup_changeLag e l lag settings)

theorem lagSet (name : String) (fields : List Field) :
    (e.lagSet name fields).engine.Identified := by
  unfold Engine.lagSet
  split
  · exact h
  · next hkey =>
    split
    · split
      · exact h
      · next hfields => exact h.createLag name hkey (LagSettings.valid_default.withFields hfields)
    · split
      · exact h
      · next lag hl =>
        split
        · exact h
        · next hfields =>
          split
          · exact h
          · exact h.changeLag lag ((h.lags _ lag hl).settings.withFields hfields)

theorem detachMember (l slot : Nat) : (e.detachMember l slot).1.Identified := by
  have hlags : (e.lags.modify l (·.removeMember slot)).All Lag.Valid :=
    h.lags.modify fun _ _ hlag => ⟨hlag.key, hlag.settings⟩
  unfold Engine.detachMember
  dsimp only
  split
  · exact ⟨h.system, hlags, h.interfaces⟩
  · refine ⟨h.system, hlags, h.interfaces.modify fun i _ hi => ?_⟩
    exact ⟨MemberSettings.valid_default, hi.defaultNumber⟩

omit h in
theorem detachMembers (l : Nat) (slots : List Nat) {e : Engine} (h : e.Identified) :
    (slots.foldl (fun e m => (e.detachMember l m).1) e).Identified := by
  induction slots generalizing e with
  | nil => exact h
  | cons m rest ih => exact ih (h.detachMember l m)

theorem lagDel (name : String) : (e.lagDel name).engine.Identified := by
  unfold Engine.lagDel
  split
  · exact h
  · next l _ =>
    dsimp only [Outcome.ok]
    rw [foldl_next_fst fun e m => e.detachMember l m]
    have hdetached := detachMembers l (((e.lags.get? l).map (·.members)).getD []) h
    exact ⟨hdetached.system, hdetached.lags.remove name l, hdetached.interfaces⟩

/-! ## Interfaces -/

theorem ensureInterface (name : String) : (e.ensureInterface name).1.Identified := by
  unfold Engine.ensureInterface
  split
  · exact h
  · exact ⟨h.system, h.lags, h.interfaces.insert name (Interface.valid_new name _)⟩

theorem attachMember (l slot : Nat) {settings : MemberSettings} (hsettings : settings.Valid) :
    (e.attachMember l slot settings).1.Identified := by
  have hattached : ((e.modifyInterface slot fun i =>
      { i.reset with settings, lag := some l }).modifyLag l (·.addMember slot)).Identified :=
    ⟨h.system, h.lags.modify fun _ _ hlag => ⟨hlag.key, hlag.settings⟩,
      h.interfaces.modify fun _ _ hi => ⟨hsettings, hi.defaultNumber⟩⟩
  exact hattached.of_setup (setup_attachMember e l slot settings)

theorem changeMember (l slot : Nat) {settings : MemberSettings} (hsettings : settings.Valid) :
    (e.changeMember l slot settings).1.Identified := by
  have hchanged : (e.modifyInterface slot fun i =>
      { i with settings, protocol := { i.protocol with needToTransmit := true } }).Identified :=
    ⟨h.system, h.lags, h.interfaces.modify fun _ _ hi => ⟨hsettings, hi.defaultNumber⟩⟩
  exact hchanged.of_setup (setup_changeMember e l slot settings)

theorem memberSet (key : String) (fields : List Field) :
    (e.memberSet key fields).engine.Identified := by
  unfold Engine.memberSet
  split
  · exact h
  · next lagName name _ =>
    split
    · exact h
    · next l _ =>
      have hknown := h.ensureInterface name
      dsimp only
      split
      · exact hknown
      · next i hi =>
        split
        · split
          · exact hknown
          · next hfields =>
            exact hknown.attachMember l _ (MemberSettings.valid_default.withFields hfields)
        · split
          · exact hknown
          · split
            · exact hknown
            · next hfields =>
              split
              · exact hknown
              · have hsettings := (hknown.interfaces _ i hi).settings
                exact hknown.changeMember l _ (hsettings.withFields hfields)

theorem memberDel (key : String) : (e.memberDel key).engine.Identified := by
  unfold Engine.memberDel
  split
  · exact h
  · split
    · next l slot _ _ =>
      split
      · exact (h.detachMember l slot).of_setup (setup_evaluate _ l)
      · exact h
    · exact h

theorem updatePort (slot : Nat) (status : PortStatus) :
    (e.updatePort slot status).1.Identified := by
  have hreported : (e.modifyInterface slot fun i => { i with port := status }).Identified :=
    ⟨h.system, h.lags, h.interfaces.modify fun _ _ hi => ⟨hi.settings, hi.defaultNumber⟩⟩
  exact hreported.of_setup (setup_updatePort e slot status)

theorem portSet (name : String) (fields : List Field) :
    (e.portSet name fields).engine.Identified := by
  unfold Engine.portSet
  dsimp only
  split
  · exact h
  · exact (h.ensureInterface name).updatePort _ _

theorem portDel (name : String) : (e.portDel name).engine.Identified := by
  unfold Engine.portDel
  split
  · exact h
  · split
    · exact h.updatePort _ {}
    · exact ⟨h.system, h.lags, h.interfaces.remove name _⟩

theorem setLink (name : String) (up : Bool) : (e.setLink name up).1.Identified := by
  have hknown := h.ensureInterface name
  unfold Engine.setLink
  dsimp only
  split
  · exact hknown
  · exact hknown.updatePort _ _

/-! ## Actions -/

theorem applyEntry (table : Table) (entry : Entry) :
    (e.applyEntry table entry).engine.Identified := by
  unfold Engine.applyEntry
  split
  · exact h.systemSet _ _
  · exact h.systemDel _
  · exact h.lagSet _ _
  · exact h.lagDel _
  · exact h.memberSet _ _
  · exact h.memberDel _
  · exact h.portSet _ _
  · exact h.portDel _

/-- Every action keeps identities valid. -/
theorem act (a : Action) : (e.act a).1.Identified := by
  cases a with
  | apply table entry => exact h.applyEntry table entry
  | event event =>
    cases event with
    | frame name frame => exact h.of_setup (setup_receiveFrame e name frame)
    | link name up => exact h.setLink name up
  | advanceTo time => exact h.of_setup (setup_advanceTo e time)
  | requeue table queue => cases table <;> exact h.of_setup rfl
  | requeueEvents queue => exact h.of_setup rfl

end

/-- So do actions in order. -/
theorem acts (h : e.Identified) (actions : List Action) : (e.acts actions).1.Identified := by
  induction actions generalizing e with
  | nil => exact h
  | cons a rest ih =>
    rw [acts_cons, next_fst]
    exact ih (h.act a)

end Identified
end Engine
end LinkAggregation
