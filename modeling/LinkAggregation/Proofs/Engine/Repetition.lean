import LinkAggregation.Proofs.Config.Attributes
import LinkAggregation.Proofs.Engine.Setup

/-!
# Applying an entry twice

An entry of a table says what is to be, not what is to be changed: applied a second time right
after the first it finds everything as it wants it. So it changes nothing and has no effects, and
if it was refused it is refused for the same reason.
-/
namespace LinkAggregation

/-- Once more right after the operation, nothing changes and there are no effects, and the
repetition fails if the operation did, with the same error. -/
def Engine.Repeats (e : Engine) (f : Engine → Outcome) : Prop :=
  f (f e).engine = { f e with effects := [] }

namespace Engine
variable {e : Engine} {f : Engine → Outcome} {key name : String} {fields : List Field}

/-- An operation finds nothing to do. -/
theorem Repeats.of_idle (h : f e = .ok (e, [])) : e.Repeats f := by
  rw [Repeats, h]
  exact h

theorem Repeats.of_fail (error : Error) (h : f e = .fail e error) : e.Repeats f := by
  rw [Repeats, h]
  exact h

/-- An operation finds nothing to do after it has succeeded. -/
theorem Repeats.of_ok {s : Step} (h : f e = .ok s) (hagain : f s.1 = .ok (s.1, [])) :
    e.Repeats f := by
  rw [Repeats, h]
  exact hagain

/-! ## The system identity -/

theorem system_changeSystem (system : SystemIdentity) :
    (e.changeSystem system).engine.system = system := by
  unfold changeSystem
  split
  · next h => exact h.symm
  · exact system_of_setup (setup_setSystem e system)

/-- The identity that was taken on is no other one. -/
theorem repeats_changeSystem (system : SystemIdentity) : e.Repeats (·.changeSystem system) := by
  rw [Repeats]
  dsimp only
  rw [changeSystem, if_pos (system_changeSystem system).symm]
  unfold changeSystem
  split <;> rfl

theorem repeats_systemSet : e.Repeats (·.systemSet key fields) := by
  by_cases hkey : key = systemKey
  · subst hkey
    have heq (e : Engine) {system : SystemIdentity} (h : e.system.withFields fields = .ok system) :
        e.systemSet systemKey fields = e.changeSystem system := by
      simp [systemSet, h]
    cases hfields : e.system.withFields fields with
    | error error => exact .of_fail error (by simp [systemSet, hfields])
    | ok system =>
      have hfields' : (e.changeSystem system).engine.system.withFields fields = .ok system := by
        rw [system_changeSystem]
        exact SystemIdentity.describes.foldlM_again hfields
      rw [Repeats]
      dsimp only
      rw [heq e hfields, heq _ hfields']
      exact repeats_changeSystem system
  · exact .of_fail (.invalidConfig "key" (.systemKey key systemKey))
      (by simp [systemSet, hkey])

theorem repeats_systemDel : e.Repeats (·.systemDel key) := by
  by_cases hkey : key = systemKey
  · have heq (e : Engine) : e.systemDel key = e.changeSystem {} := by simp [systemDel, hkey]
    simp only [heq]
    exact repeats_changeSystem {}
  · exact .of_fail (.invalidConfig "key" (.unknownKey key)) (by simp [systemDel, hkey])

/-! ## LAGs -/

section
variable {l : Nat} {lag : Lag} {lagNumber : UInt16} (hkey : lagKey name = .ok lagNumber)
include hkey

/-- A LAG that has the settings already is not changed. -/
theorem lagSet_of_same (hfind : e.lags.find? name = some l) (hl : e.lags.get? l = some lag)
    (hsettings : lag.settings.withFields fields = .ok lag.settings) :
    e.lagSet name fields = .ok (e, []) := by
  simp only [lagSet, hkey, hfind, hl, hsettings, if_true]

/-- A LAG that was created has the settings that its fields make of the default. -/
theorem lagSet_createLag {settings : LagSettings}
    (hfields : ({} : LagSettings).withFields fields = .ok settings) :
    (e.createLag name lagNumber settings).1.lagSet name fields =
      .ok ((e.createLag name lagNumber settings).1, []) := by
  have hsetup := setup_createLag e name lagNumber settings
  obtain ⟨lag, hl, hlag⟩ := get?_lags_of_setup hsetup (Arena.get?_insert_freeSlot _ _ _)
  have hsettings : lag.settings = settings := congrArg Lag.settings hlag
  refine lagSet_of_same hkey ?_ hl ?_
  · rw [find?_lags_of_setup hsetup]
    simp
  · rw [hsettings]
    exact LagSettings.describes.foldlM_again hfields

/-- A LAG that was changed has the settings that its fields make of the old ones. -/
theorem lagSet_changeLag {settings : LagSettings} (hfind : e.lags.find? name = some l)
    (hl : e.lags.get? l = some lag) (hfields : lag.settings.withFields fields = .ok settings) :
    (e.changeLag l lag settings).1.lagSet name fields =
      .ok ((e.changeLag l lag settings).1, []) := by
  have hsetup := setup_changeLag e l lag settings
  obtain ⟨lag', hl', hlag'⟩ := get?_lags_of_setup hsetup (Arena.get?_modify_self hl _)
  have hsettings : lag'.settings = settings := congrArg Lag.settings hlag'
  refine lagSet_of_same hkey ?_ hl' ?_
  · rw [find?_lags_of_setup hsetup]
    exact hfind
  · rw [hsettings]
    exact LagSettings.describes.foldlM_again hfields

end

theorem repeats_lagSet : e.Repeats (·.lagSet name fields) := by
  cases hkey : lagKey name with
  | error error => exact .of_fail error (by simp [lagSet, hkey])
  | ok lagNumber =>
    cases hfind : e.lags.find? name with
    | none =>
      cases hfields : ({} : LagSettings).withFields fields with
      | error error => exact .of_fail error (by simp [lagSet, hkey, hfind, hfields])
      | ok settings =>
        have hfirst : e.lagSet name fields = .ok (e.createLag name lagNumber settings) := by
          simp [lagSet, hkey, hfind, hfields]
        exact .of_ok hfirst (lagSet_createLag hkey hfields)
    | some l =>
      cases hl : e.lags.get? l with
      | none => exact .of_fail (.lagNotFound name) (by simp [lagSet, hkey, hfind, hl])
      | some lag =>
        cases hfields : lag.settings.withFields fields with
        | error error =>
          exact .of_fail error (by simp [lagSet, hkey, hfind, hl, hfields])
        | ok settings =>
          by_cases hsame : settings = lag.settings
          · exact .of_idle (lagSet_of_same hkey hfind hl (hsame ▸ hfields))
          · have hfirst : e.lagSet name fields = .ok (e.changeLag l lag settings) := by
              simp [lagSet, hkey, hfind, hl, hfields, hsame]
            exact .of_ok hfirst (lagSet_changeLag hkey hfind hl hfields)

theorem repeats_lagDel : e.Repeats (·.lagDel name) := by
  have hidle {e : Engine} (h : e.lags.find? name = none) : e.lagDel name = .ok (e, []) := by
    simp only [lagDel, h]
  cases hfind : e.lags.find? name with
  | none => exact .of_idle (hidle hfind)
  | some l =>
    have hgone : (e.lagDel name).engine.lags.find? name = none := by
      simp [lagDel, hfind, Outcome.ok]
    rw [Repeats]
    dsimp only
    rw [hidle hgone]
    simp only [lagDel, hfind]
    rfl

/-! ## Members -/

theorem ensureInterface_of_known {slot : Nat} (h : e.interfaces.find? name = some slot) :
    e.ensureInterface name = (e, slot) := by
  simp only [ensureInterface, h]

/-- After that the interface is known under its slot. -/
theorem find?_ensureInterface (e : Engine) (name : String) :
    (e.ensureInterface name).1.interfaces.find? name = some (e.ensureInterface name).2 := by
  unfold ensureInterface
  split
  · next h => exact h
  · simp

section
variable {lagName : String} {l slot : Nat} {i : Interface}
  (hkey : parseMemberKey key = .ok (lagName, name)) (hfind : e.lags.find? lagName = some l)
include hkey hfind

/-- Making the interface known beforehand makes no difference. -/
theorem memberSet_ensureInterface :
    (e.ensureInterface name).1.memberSet key fields = e.memberSet key fields := by
  have hlags : (e.ensureInterface name).1.lags.find? lagName = some l := by
    unfold ensureInterface
    split <;> exact hfind
  have hknown := ensureInterface_of_known (find?_ensureInterface e name)
  simp only [memberSet, hkey, hfind, hlags, hknown]

variable (hslot : e.interfaces.find? name = some slot) (hi : e.interfaces.get? slot = some i)
include hslot hi

theorem memberSet_of_same (hlag : i.lag = some l)
    (hsettings : i.settings.withFields fields = .ok i.settings) :
    e.memberSet key fields = .ok (e, []) := by
  simp [memberSet, hkey, hfind, ensureInterface_of_known hslot, hi, hlag, hsettings]

/-- A new member has the settings that its fields make of the default. -/
theorem memberSet_attachMember {settings : MemberSettings}
    (hfields : ({} : MemberSettings).withFields fields = .ok settings) :
    (e.attachMember l slot settings).1.memberSet key fields =
      .ok ((e.attachMember l slot settings).1, []) := by
  have hsetup := setup_attachMember e l slot settings
  obtain ⟨j, hj, hinterface⟩ := get?_interfaces_of_setup hsetup (Arena.get?_modify_self hi _)
  have hsettings : j.settings = settings := congrArg Interface.settings hinterface
  refine memberSet_of_same hkey ?_ ?_ hj (congrArg Interface.lag hinterface) ?_
  · rw [find?_lags_of_setup hsetup]
    exact hfind
  · rw [find?_interfaces_of_setup hsetup]
    exact hslot
  · rw [hsettings]
    exact MemberSettings.describes.foldlM_again hfields

/-- A member with new settings has those that its fields make of the old ones. -/
theorem memberSet_changeMember {settings : MemberSettings} (hlag : i.lag = some l)
    (hfields : i.settings.withFields fields = .ok settings) :
    (e.changeMember l slot settings).1.memberSet key fields =
      .ok ((e.changeMember l slot settings).1, []) := by
  have hsetup := setup_changeMember e l slot settings
  obtain ⟨j, hj, hinterface⟩ := get?_interfaces_of_setup hsetup (Arena.get?_modify_self hi _)
  have hsettings : j.settings = settings := congrArg Interface.settings hinterface
  refine memberSet_of_same hkey ?_ ?_ hj ((congrArg Interface.lag hinterface).trans hlag) ?_
  · rw [find?_lags_of_setup hsetup]
    exact hfind
  · rw [find?_interfaces_of_setup hsetup]
    exact hslot
  · rw [hsettings]
    exact MemberSettings.describes.foldlM_again hfields

omit hi in
theorem repeats_memberSet_of_known : e.Repeats (·.memberSet key fields) := by
  have hknown := ensureInterface_of_known hslot
  cases hi : e.interfaces.get? slot with
  | none =>
    exact .of_fail (.interfaceNotFound name) (by simp [memberSet, hkey, hfind, hknown, hi])
  | some i =>
    cases hlag : i.lag with
    | none =>
      cases hfields : ({} : MemberSettings).withFields fields with
      | error error =>
        exact .of_fail error
          (by simp [memberSet, hkey, hfind, hknown, hi, hlag, hfields])
      | ok settings =>
        have hfirst : e.memberSet key fields = .ok (e.attachMember l slot settings) := by
          simp [memberSet, hkey, hfind, hknown, hi, hlag, hfields]
        exact .of_ok hfirst (memberSet_attachMember hkey hfind hslot hi hfields)
    | some current =>
      by_cases hcurrent : current = l
      · subst hcurrent
        cases hfields : i.settings.withFields fields with
        | error error =>
          exact .of_fail error
            (by simp [memberSet, hkey, hfind, hknown, hi, hlag, hfields])
        | ok settings =>
          by_cases hsame : settings = i.settings
          · exact .of_idle (memberSet_of_same hkey hfind hslot hi hlag (hsame ▸ hfields))
          · have hfirst : e.memberSet key fields = .ok (e.changeMember current slot settings) := by
              simp [memberSet, hkey, hfind, hknown, hi, hlag, hfields, hsame]
            exact .of_ok hfirst (memberSet_changeMember hkey hfind hslot hi hlag hfields)
      · exact .of_fail
          (.interfaceInOtherLag name (((e.lags.get? current).map (·.name)).getD ""))
          (by simp [memberSet, hkey, hfind, hknown, hi, hlag, hcurrent])

end

theorem repeats_memberSet : e.Repeats (·.memberSet key fields) := by
  cases hkey : parseMemberKey key with
  | error error => exact .of_fail error (by simp [memberSet, hkey])
  | ok names =>
    obtain ⟨lagName, name⟩ := names
    cases hfind : e.lags.find? lagName with
    | none => exact .of_fail (.lagNotFound lagName) (by simp [memberSet, hkey, hfind])
    | some l =>
      have hlags : (e.ensureInterface name).1.lags.find? lagName = some l := by
        unfold ensureInterface
        split <;> exact hfind
      have hrepeats : (e.ensureInterface name).1.Repeats (·.memberSet key fields) :=
        repeats_memberSet_of_known hkey hlags (find?_ensureInterface e name)
      rw [Repeats] at hrepeats ⊢
      dsimp only at hrepeats ⊢
      rwa [memberSet_ensureInterface hkey hfind] at hrepeats

section
variable {lagName : String} {l slot : Nat} (hkey : parseMemberKey key = .ok (lagName, name))
  (hfind : e.lags.find? lagName = some l) (hslot : e.interfaces.find? name = some slot)
include hkey hfind hslot

/-- An interface that is not in the LAG cannot be taken out of it. -/
theorem memberDel_of_outside (hlag : (e.interfaces.get? slot).bind (·.lag) ≠ some l) :
    e.memberDel key = .ok (e, []) := by
  simp [memberDel, hkey, hfind, hslot, hlag]

/-- An interface that was taken out is in no LAG, and the evaluation leaves that alone. -/
theorem memberDel_detachMember {i : Interface} (hi : e.interfaces.get? slot = some i) :
    ((e.detachMember l slot).1.evaluate l).1.memberDel key =
      .ok (((e.detachMember l slot).1.evaluate l).1, []) := by
  have hdetached : (e.detachMember l slot).1.interfaces.get? slot =
      some { i.reset with lag := none, settings := {}, published := none } := by
    simp [detachMember, modifyLag, modifyInterface, hi]
  have hsetup := setup_evaluate (e.detachMember l slot).1 l
  obtain ⟨j, hj, hout⟩ := get?_interfaces_of_setup hsetup hdetached
  have hnone : j.lag = none := congrArg Interface.lag hout
  have hfind' : ((e.detachMember l slot).1.evaluate l).1.lags.find? lagName = some l := by
    rw [find?_lags_of_setup hsetup]
    simp [detachMember, modifyLag, modifyInterface, hi, hfind]
  have hslot' : ((e.detachMember l slot).1.evaluate l).1.interfaces.find? name = some slot := by
    rw [find?_interfaces_of_setup hsetup]
    simp [detachMember, modifyLag, modifyInterface, hi, hslot]
  exact memberDel_of_outside hkey hfind' hslot' (by simp [hj, hnone])

end

theorem repeats_memberDel : e.Repeats (·.memberDel key) := by
  cases hkey : parseMemberKey key with
  | error error => exact .of_fail error (by simp [memberDel, hkey])
  | ok names =>
    obtain ⟨lagName, name⟩ := names
    cases hfind : e.lags.find? lagName with
    | none => exact .of_idle (by simp [memberDel, hkey, hfind])
    | some l =>
      cases hslot : e.interfaces.find? name with
      | none => exact .of_idle (by simp [memberDel, hkey, hfind, hslot])
      | some slot =>
        by_cases hlag : (e.interfaces.get? slot).bind (·.lag) = some l
        · obtain ⟨i, hi, -⟩ := Option.bind_eq_some_iff.mp hlag
          have hfirst : e.memberDel key =
              .ok ((e.detachMember l slot).next (·.evaluate l)) := by
            simp [memberDel, hkey, hfind, hslot, hlag]
          exact .of_ok hfirst (memberDel_detachMember hkey hfind hslot hi)
        · exact .of_idle (memberDel_of_outside hkey hfind hslot hlag)

/-! ## Ports -/

section
variable {slot : Nat} {i : Interface} (status : PortStatus)

theorem updatePort_of_same {status : PortStatus} (hi : e.interfaces.get? slot = some i)
    (hport : i.port = status) : e.updatePort slot status = (e, []) := by
  simp [updatePort, hi, hport]

/-- A port that was updated has the status. -/
theorem get?_updatePort (hi : e.interfaces.get? slot = some i) :
    ∃ j, (e.updatePort slot status).1.interfaces.get? slot = some j ∧ j.port = status ∧
      j.lag = i.lag := by
  obtain ⟨j, hj, hinterface⟩ := get?_interfaces_of_setup (setup_updatePort e slot status)
    (Arena.get?_modify_self hi _)
  have hlag : j.setup.lag = ({ i with port := status } : Interface).setup.lag :=
    congrArg Interface.lag hinterface
  exact ⟨j, hj, congrArg Interface.port hinterface, hlag⟩

theorem find?_updatePort (slot : Nat) :
    (e.updatePort slot status).1.interfaces.find? name = e.interfaces.find? name :=
  find?_interfaces_of_setup (setup_updatePort e slot status) name

/-- Making the interface known beforehand makes no difference to fields that are accepted. -/
theorem portSet_ensureInterface {status : PortStatus}
    (hfields : (((e.interface? name).map Interface.port).getD {}).withFields fields = .ok status) :
    (e.ensureInterface name).1.portSet name fields = e.portSet name fields := by
  have hknown := ensureInterface_of_known (find?_ensureInterface e name)
  have hport : (((e.ensureInterface name).1.interface? name).map Interface.port).getD {} =
      ((e.interface? name).map Interface.port).getD {} := by
    unfold ensureInterface interface? Arena.lookup?
    cases hslot : e.interfaces.find? name with
    | none => simp [Interface.new]
    | some slot => simp [hslot]
  simp only [portSet, hport, hknown, hfields]

theorem repeats_portSet_of_known (hslot : e.interfaces.find? name = some slot) :
    e.Repeats (·.portSet name fields) := by
  have heq {e : Engine} {status : PortStatus} (hslot : e.interfaces.find? name = some slot)
      (h : (((e.interfaces.get? slot).map Interface.port).getD {}).withFields fields = .ok status) :
      e.portSet name fields = .ok (e.updatePort slot status) := by
    simp [portSet, interface?, Arena.lookup?, hslot, h, ensureInterface_of_known hslot]
  cases hfields : (((e.interfaces.get? slot).map Interface.port).getD {}).withFields fields with
  | error error =>
    exact .of_fail error
      (by simp [portSet, interface?, Arena.lookup?, hslot, hfields])
  | ok status =>
    cases hi : e.interfaces.get? slot with
    | none => exact .of_idle (by simp [heq hslot hfields, updatePort, hi])
    | some i =>
      refine .of_ok (heq hslot hfields) ?_
      obtain ⟨j, hj, hport, -⟩ := get?_updatePort status hi
      have hfields' : ((((e.updatePort slot status).1.interfaces.get? slot).map
          Interface.port).getD {}).withFields fields = .ok status := by
        simp only [hj, Option.map_some, Option.getD_some, hport]
        exact PortStatus.describes.foldlM_again hfields
      rw [heq ((find?_updatePort status slot).trans hslot) hfields', updatePort_of_same hj hport]

end

theorem repeats_portSet : e.Repeats (·.portSet name fields) := by
  cases hfields : (((e.interface? name).map Interface.port).getD {}).withFields fields with
  | error error => exact .of_fail error (by simp [portSet, hfields])
  | ok status =>
    have hrepeats : (e.ensureInterface name).1.Repeats (·.portSet name fields) :=
      repeats_portSet_of_known (find?_ensureInterface e name)
    rw [Repeats] at hrepeats ⊢
    dsimp only at hrepeats ⊢
    rwa [portSet_ensureInterface hfields] at hrepeats

theorem repeats_portDel : e.Repeats (·.portDel name) := by
  cases hslot : e.interfaces.find? name with
  | none => exact .of_idle (by simp [portDel, hslot])
  | some slot =>
    cases hlag : (e.interfaces.get? slot).bind (·.lag) with
    | none =>
      have hfirst : e.portDel name = .ok ({ e with
          timers := e.timers.cancelInterface slot
          interfaces := e.interfaces.remove name slot }, []) := by
        simp [portDel, hslot, hlag]
      exact .of_ok hfirst (by simp [portDel])
    | some l =>
      obtain ⟨i, hi, hl⟩ := Option.bind_eq_some_iff.mp hlag
      have hfirst : e.portDel name = .ok (e.updatePort slot {}) := by
        simp [portDel, hslot, hlag]
      refine .of_ok hfirst ?_
      obtain ⟨j, hj, hport, hkept⟩ := get?_updatePort {} hi
      have hslot' : (e.updatePort slot {}).1.interfaces.find? name = some slot :=
        (find?_updatePort {} slot).trans hslot
      simp [portDel, hslot', hj, hkept, hl, updatePort_of_same hj hport]

/-! ## Entries -/

/-- Whatever the state, an entry that is applied again right after itself leaves the engine as it
is, has no effects, and is accepted or refused as the first time. -/
theorem applyEntry_applyEntry (e : Engine) (table : Table) (entry : Entry) :
    (e.applyEntry table entry).engine.applyEntry table entry =
      { e.applyEntry table entry with effects := [] } := by
  unfold applyEntry
  cases table <;> cases entry.operation
  case system.set => exact repeats_systemSet
  case system.del => exact repeats_systemDel
  case lag.set => exact repeats_lagSet
  case lag.del => exact repeats_lagDel
  case member.set => exact repeats_memberSet
  case member.del => exact repeats_memberDel
  case port.set => exact repeats_portSet
  case port.del => exact repeats_portDel

end Engine
end LinkAggregation
