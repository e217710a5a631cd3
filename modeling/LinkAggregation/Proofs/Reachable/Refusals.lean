import LinkAggregation.Proofs.Engine.Request

/-!
# Refused entries

A table entry that is refused has no effects and leaves the engine as it was, with one exception: a
member entry makes its interface known before it reads the settings. If these are refused, the
interface stays known, in no LAG.
-/
namespace LinkAggregation

/-- If the operation fails, it has done nothing. -/
def Outcome.Clean (o : Outcome) (e : Engine) : Prop :=
  ∀ error, o.error = some error → o = .fail e error

namespace Outcome
variable {e : Engine}

theorem clean_fail (error : Error) : (fail e error).Clean e := by
  intro error' h
  rw [Option.some.inj h]

theorem clean_ok (s : Step) : (ok s).Clean e := by
  intro error h
  simp [ok] at h

end Outcome

namespace Engine
variable {e : Engine} {table : Table} {entry : Entry} {error : Error}

/-- The interface that a member entry makes known: its LAG is there, and the interface is not. -/
def newcomer? (e : Engine) (table : Table) (entry : Entry) : Option String :=
  match table, entry.operation with
  | .member, .set =>
    match memberKey? entry.key with
    | some (lag, name) =>
      if (e.lags.find? lag).isSome && (e.interfaces.find? name).isNone then some name else none
    | none => none
  | _, _ => none

/-- What a refused entry makes of the engine. -/
structure Refuses (e : Engine) (table : Table) (entry : Entry) (error : Error) (o : Outcome) :
    Prop where
  /-- Nothing is sent or published. -/
  silent : o.effects = []
  /-- The engine is as it was, unless an interface has become known. -/
  unchanged : e.newcomer? table entry = none → o.engine = e
  /-- The interface that has become known is all that is new, and its settings were refused. -/
  met : ∀ name, e.newcomer? table entry = some name →
    ({} : MemberSettings).withFields entry.fields = .error error ∧
      o.engine = { e with
        interfaces := e.interfaces.insert name (Interface.new name e.interfaces.freeSlot) }

/-! ## Operations that read their fields first -/

theorem clean_changeSystem (system : SystemIdentity) : (e.changeSystem system).Clean e := by
  unfold changeSystem
  split
  · exact Outcome.clean_ok _
  · exact Outcome.clean_ok _

theorem clean_systemSet (key : String) (fields : List Field) :
    (e.systemSet key fields).Clean e := by
  unfold systemSet
  split
  · exact Outcome.clean_fail _
  · split
    · exact Outcome.clean_fail _
    · exact clean_changeSystem _

theorem clean_systemDel (key : String) : (e.systemDel key).Clean e := by
  unfold systemDel
  split
  · exact Outcome.clean_fail _
  · exact clean_changeSystem _

theorem clean_lagSet (name : String) (fields : List Field) : (e.lagSet name fields).Clean e := by
  unfold lagSet
  split
  · exact Outcome.clean_fail _
  · split
    · split
      · exact Outcome.clean_fail _
      · exact Outcome.clean_ok _
    · split
      · exact Outcome.clean_fail _
      · split
        · exact Outcome.clean_fail _
        · split
          · exact Outcome.clean_ok _
          · exact Outcome.clean_ok _

theorem clean_lagDel (name : String) : (e.lagDel name).Clean e := by
  unfold lagDel
  split
  · exact Outcome.clean_ok _
  · exact Outcome.clean_ok _

theorem clean_memberDel (key : String) : (e.memberDel key).Clean e := by
  unfold memberDel
  split
  · exact Outcome.clean_fail _
  · split
    · split
      · exact Outcome.clean_ok _
      · exact Outcome.clean_ok _
    · exact Outcome.clean_ok _

/-- The port status is read before the interface is made known. -/
theorem clean_portSet (name : String) (fields : List Field) : (e.portSet name fields).Clean e := by
  unfold portSet
  dsimp only
  split
  · exact Outcome.clean_fail _
  · exact Outcome.clean_ok _

theorem clean_portDel (name : String) : (e.portDel name).Clean e := by
  unfold portDel
  split
  · exact Outcome.clean_ok _
  · split
    · exact Outcome.clean_ok _
    · exact Outcome.clean_ok _

/-! ## Member entries -/

/-- A refused member entry has done nothing to an interface that is known, or that it never came
to. -/
theorem clean_memberSet_of_known {key : String} {fields : List Field}
    (hknown : ∀ lag name, memberKey? key = some (lag, name) → (e.lags.find? lag).isSome = true →
      (e.interfaces.find? name).isSome = true) : (e.memberSet key fields).Clean e := by
  unfold memberSet parseMemberKey
  cases hkey : memberKey? key with
  | none => exact Outcome.clean_fail _
  | some names =>
    obtain ⟨lag, name⟩ := names
    cases hlag : e.lags.find? lag with
    | none =>
      simp only [hlag]
      exact Outcome.clean_fail _
    | some l =>
      obtain ⟨slot, hslot⟩ :=
        Option.isSome_iff_exists.mp (hknown lag name hkey (by rw [hlag]; rfl))
      have hensure : e.ensureInterface name = (e, slot) := by simp [ensureInterface, hslot]
      simp only [hlag, hensure]
      split
      · exact Outcome.clean_fail _
      · split
        · split
          · exact Outcome.clean_fail _
          · exact Outcome.clean_ok _
        · split
          · exact Outcome.clean_fail _
          · split
            · exact Outcome.clean_fail _
            · split
              · exact Outcome.clean_ok _
              · exact Outcome.clean_ok _

/-- An interface that has become known is in no LAG, so only its settings can be refused. -/
theorem memberSet_of_unknown {key lag name : String} {l : Nat} (fields : List Field)
    (hkey : memberKey? key = some (lag, name)) (hlag : e.lags.find? lag = some l)
    (hname : e.interfaces.find? name = none) :
    e.memberSet key fields =
      let met := { e with
        interfaces := e.interfaces.insert name (Interface.new name e.interfaces.freeSlot) }
      match ({} : MemberSettings).withFields fields with
      | .error error => .fail met error
      | .ok settings => .ok (met.attachMember l e.interfaces.freeSlot settings) := by
  have hensure : e.ensureInterface name = ({ e with
      interfaces := e.interfaces.insert name (Interface.new name e.interfaces.freeSlot) },
      e.interfaces.freeSlot) := by
    simp [ensureInterface, hname]
  have hfree : (Interface.new name e.interfaces.freeSlot).lag = none := rfl
  cases hread : ({} : MemberSettings).withFields fields <;>
    simp only [memberSet, parseMemberKey, hkey, hlag, hensure, Arena.get?_insert_freeSlot, hfree,
      hread]

theorem newcomer?_member_set {key : String} {fields : List Field} {name : String} :
    e.newcomer? .member ⟨key, .set, fields⟩ = some name ↔
      ∃ lag l, memberKey? key = some (lag, name) ∧ e.lags.find? lag = some l ∧
        e.interfaces.find? name = none := by
  unfold newcomer?
  cases memberKey? key with
  | none => simp
  | some names =>
    obtain ⟨lag, name'⟩ := names
    simp only [Option.ite_none_right_eq_some, Bool.and_eq_true, Option.isSome_iff_exists,
      Option.isNone_iff_eq_none, Option.some.injEq, Prod.mk.injEq]
    constructor
    · rintro ⟨⟨⟨l, hl⟩, hname⟩, rfl⟩
      exact ⟨lag, l, ⟨rfl, rfl⟩, hl, hname⟩
    · rintro ⟨lag, l, ⟨rfl, rfl⟩, hl, hname⟩
      exact ⟨⟨⟨l, hl⟩, hname⟩, rfl⟩

theorem refuses_memberSet {key : String} {fields : List Field}
    (herror : (e.memberSet key fields).error = some error) :
    e.Refuses .member ⟨key, .set, fields⟩ error (e.memberSet key fields) := by
  cases hnew : e.newcomer? .member ⟨key, .set, fields⟩ with
  | none =>
    have hclean : (e.memberSet key fields).Clean e := by
      refine clean_memberSet_of_known fun lag name hkey hlag => ?_
      obtain ⟨l, hl⟩ := Option.isSome_iff_exists.mp hlag
      refine Option.isSome_iff_ne_none.mpr fun hname => ?_
      rw [newcomer?_member_set.mpr ⟨lag, l, hkey, hl, hname⟩] at hnew
      simp at hnew
    rw [hclean error herror]
    exact ⟨rfl, fun _ => rfl, fun name hname => by simp [hnew] at hname⟩
  | some name =>
    obtain ⟨lag, l, hkey, hl, hname⟩ := newcomer?_member_set.mp hnew
    have hset := memberSet_of_unknown fields hkey hl hname
    cases hfields : ({} : MemberSettings).withFields fields with
    | ok settings =>
      rw [hset, hfields] at herror
      simp [Outcome.ok] at herror
    | error error' =>
      rw [hfields] at hset
      rw [hset] at herror ⊢
      obtain rfl : error' = error := Option.some.inj herror
      refine ⟨rfl, fun hnone => by simp [hnew] at hnone, fun name' hname' => ⟨hfields, ?_⟩⟩
      obtain rfl : name = name' := Option.some.inj (hnew.symm.trans hname')
      rfl

/-! ## All entries -/

theorem Refuses.of_clean {o : Outcome} (h : o.Clean e) (herror : o.error = some error)
    (hnew : e.newcomer? table entry = none) : e.Refuses table entry error o := by
  rw [h error herror]
  exact ⟨rfl, fun _ => rfl, fun name hname => by simp [hnew] at hname⟩

/-- A refused entry has no effects, and at most makes one interface known. -/
theorem refuses_applyEntry (e : Engine) (table : Table) (entry : Entry) (error : Error)
    (herror : (e.applyEntry table entry).error = some error) :
    e.Refuses table entry error (e.applyEntry table entry) := by
  obtain ⟨key, operation, fields⟩ := entry
  cases table with
  | system =>
    cases operation with
    | set => exact .of_clean (clean_systemSet key fields) herror rfl
    | del => exact .of_clean (clean_systemDel key) herror rfl
  | lag =>
    cases operation with
    | set => exact .of_clean (clean_lagSet key fields) herror rfl
    | del => exact .of_clean (clean_lagDel key) herror rfl
  | member =>
    cases operation with
    | set => exact refuses_memberSet herror
    | del => exact .of_clean (clean_memberDel key) herror rfl
  | port =>
    cases operation with
    | set => exact .of_clean (clean_portSet key fields) herror rfl
    | del => exact .of_clean (clean_portDel key) herror rfl

/-- An engine with a LAG that has no members. -/
def vacant : Engine := reached {} 8 true [.apply .lag ⟨"PortChannel1", .set, []⟩]

/-- A new member with a port number that is refused. -/
def unnumbered : Entry := ⟨"PortChannel1|Ethernet0", .set, [("lacp_port_id", "0")]⟩

/-- The member is refused, and its interface is known all the same. -/
theorem changed_vacant :
    (vacant.applyEntry .member unnumbered).error = some (.invalidConfig "lacp_port_id" .zero) ∧
      (vacant.applyEntry .member unnumbered).engine ≠ vacant := by
  decide +kernel

theorem refuses_vacant :
    (vacant.applyEntry .member unnumbered).error = some (.invalidConfig "lacp_port_id" .zero) ∧
      vacant.newcomer? .member unnumbered = some "Ethernet0" ∧
        vacant.Refuses .member unnumbered (.invalidConfig "lacp_port_id" .zero)
          (vacant.applyEntry .member unnumbered) :=
  ⟨by decide +kernel, by decide +kernel, refuses_applyEntry _ _ _ _ (by decide +kernel)⟩

end Engine
end LinkAggregation
