import LinkAggregation.Proofs.Engine.Repetition
import LinkAggregation.Proofs.Engine.Rounds
import LinkAggregation.Proofs.Reachable.Removal

/-!
# Where members are placed

The placement of an interface is its LAG and its settings there. Only entries of the member table
that name the interface change it: the other entries of this table, links and frames leave it alone.
An entry that would put a member of one LAG into another one is refused and changes nothing.
-/
namespace LinkAggregation

/-- The interface that an entry of the member table names. -/
def Entry.member? (entry : Entry) : Option String := (memberKey? entry.key).map Prod.snd

/-- The LAG and the settings of an interface. -/
def Interface.placement (i : Interface) : Option Nat × MemberSettings := (i.lag, i.settings)

namespace Engine
variable {e e' : Engine} {name other key lagName otherName : String} {slot l l' : Nat}
  {i : Interface} {p : Option Nat × MemberSettings} {entry : Entry} {entries : List Entry}
  {fields : List Field} {settings : MemberSettings}

def placement? (e : Engine) (name : String) : Option (Option Nat × MemberSettings) :=
  (e.interface? name).map Interface.placement

/-! ## What leaves placements alone -/

theorem placement?_of_setup (h : e'.setup = e.setup) : e'.placement? name = e.placement? name := by
  unfold placement? interface? Arena.lookup?
  rw [find?_interfaces_of_setup h]
  cases e.interfaces.find? name with
  | none => rfl
  | some slot =>
    have hplacement : Interface.placement = Interface.placement ∘ Interface.setup := rfl
    have hmap := congrArg (Option.map Interface.placement) (map_get?_interfaces_of_setup h slot)
    rw [Option.map_map, Option.map_map, ← hplacement] at hmap
    exact hmap

theorem placement?_withQueue (q : Queue Entry) (table : Table) :
    (e.withQueue q table).placement? name = e.placement? name := by
  cases table <;> rfl

/-- A change of an interface matters to nobody if it does not concern the placement. -/
theorem placement?_modifyInterface {f : Interface → Interface}
    (hf : ∀ i, (f i).placement = i.placement) (slot : Nat) :
    (e.modifyInterface slot f).placement? name = e.placement? name := by
  unfold placement? interface? Arena.lookup? modifyInterface
  rw [Arena.find?_modify]
  cases e.interfaces.find? name with
  | none => rfl
  | some slot' =>
    rw [Option.bind_some, Option.bind_some, Arena.get?_modify]
    split
    · rw [Option.map_map]
      exact Option.map_congr fun i _ => hf i
    · rfl

/-- A change of an interface matters to no other one. -/
theorem Linked.placement?_modifyInterface_of_ne (h : e.Linked)
    (hother : e.interfaces.find? other = some slot) (hne : other ≠ name)
    (f : Interface → Interface) :
    (e.modifyInterface slot f).placement? name = e.placement? name := by
  unfold placement? interface? Arena.lookup? modifyInterface
  rw [Arena.find?_modify]
  cases hname : e.interfaces.find? name with
  | none => rfl
  | some slot' =>
    have hslot : slot ≠ slot' := by
      rintro rfl
      obtain ⟨i, hi, hnamed⟩ := h.interfaces.get?_of_find? hother
      exact hne (hnamed.symm.trans (h.interfaces.name_of_find? hname hi))
    rw [Option.bind_some, Option.bind_some, Arena.get?_modify, if_neg hslot]

/-- Whoever is known stays where it is when another interface becomes known. -/
theorem placement?_ensureInterface (hp : e.placement? name = some p) (other : String) :
    (e.ensureInterface other).1.placement? name = some p := by
  unfold Engine.ensureInterface
  split
  · exact hp
  · next hunknown =>
    obtain ⟨i, hi, rfl⟩ := Option.map_eq_some_iff.mp hp
    obtain ⟨slot, hfind, hget⟩ := Option.bind_eq_some_iff.mp hi
    have hne : name ≠ other := by
      rintro rfl
      exact absurd (hunknown.symm.trans hfind) nofun
    have hslot : slot ≠ e.interfaces.freeSlot := by
      rintro rfl
      rw [Arena.get?_freeSlot] at hget
      exact absurd hget nofun
    simp [placement?, interface?, Arena.lookup?, hne, hfind, Arena.get?_insert_of_ne _ _ hslot,
      hget]

section
variable (h : e.Stable) (hp : e.placement? name = some p)
include h hp

/-! ## Entries for other interfaces -/

theorem Coherent.placement?_memberSet_of_ne (hkey : (memberKey? key).map Prod.snd ≠ some name)
    (fields : List Field) : (e.memberSet key fields).engine.placement? name = some p := by
  unfold Engine.memberSet parseMemberKey
  cases hnames : memberKey? key with
  | none => exact hp
  | some names =>
    obtain ⟨lagName, other⟩ := names
    have hne : other ≠ name := by
      rintro rfl
      exact hkey (by rw [hnames]; rfl)
    dsimp only
    split
    · exact hp
    · next l hl =>
      have hknown := placement?_ensureInterface hp other
      have hfind := find?_ensureInterface e other
      have hlinked := (h.ensureInterface other).linked
      split
      · exact hknown
      · split
        · split
          · exact hknown
          · refine (placement?_of_setup (setup_attachMember _ _ _ _)).trans ?_
            exact (hlinked.placement?_modifyInterface_of_ne hfind hne _).trans hknown
        · split
          · exact hknown
          · split
            · exact hknown
            · split
              · exact hknown
              · refine (placement?_of_setup (setup_changeMember _ _ _ _)).trans ?_
                exact (hlinked.placement?_modifyInterface_of_ne hfind hne _).trans hknown

theorem Coherent.placement?_memberDel_of_ne (hkey : (memberKey? key).map Prod.snd ≠ some name) :
    (e.memberDel key).engine.placement? name = some p := by
  unfold Engine.memberDel parseMemberKey
  cases hnames : memberKey? key with
  | none => exact hp
  | some names =>
    obtain ⟨lagName, other⟩ := names
    have hne : other ≠ name := by
      rintro rfl
      exact hkey (by rw [hnames]; rfl)
    dsimp only
    split
    · next l slot _ hfind =>
      split
      · refine (placement?_of_setup (setup_evaluate _ _)).trans ?_
        unfold Engine.detachMember
        dsimp only
        split
        · exact hp
        · exact (h.linked.placement?_modifyInterface_of_ne hfind hne _).trans hp
      · exact hp
    · exact hp

/-- An entry for another interface leaves the placement alone. -/
theorem Coherent.placement?_applyEntry_of_ne (hentry : entry.member? ≠ some name) :
    (e.applyEntry .member entry).engine.placement? name = some p := by
  unfold Engine.applyEntry
  split
  all_goals try contradiction
  · exact h.placement?_memberSet_of_ne hp hentry _
  · exact h.placement?_memberDel_of_ne hp hentry

theorem Coherent.placement?_acts_of_ne (hentries : ∀ entry ∈ entries, entry.member? ≠ some name) :
    (e.acts (entries.map (.apply .member))).1.placement? name = some p := by
  induction entries generalizing e with
  | nil => exact hp
  | cons entry rest ih =>
    obtain ⟨hentry, hrest⟩ := List.forall_mem_cons.mp hentries
    rw [List.map_cons, acts_cons]
    exact ih (h.applyEntry .member entry) (h.placement?_applyEntry_of_ne hp hentry) hrest

/-! ## Events -/

omit h in
theorem placement?_updatePort (slot : Nat) (status : PortStatus) :
    (e.updatePort slot status).1.placement? name = some p := by
  refine (placement?_of_setup (setup_updatePort e slot status)).trans ?_
  have hport : ∀ i : Interface, ({ i with port := status } : Interface).placement = i.placement :=
    fun _ => rfl
  exact (placement?_modifyInterface hport slot).trans hp

omit h in
/-- Links and frames leave the placement alone. -/
theorem placement?_applyEvent (event : Event) :
    (e.applyEvent event).1.placement? name = some p := by
  cases event with
  | frame interface frame =>
    exact (placement?_of_setup (setup_receiveFrame e interface frame)).trans hp
  | link interface up =>
    have hknown := placement?_ensureInterface hp interface
    simp only [Engine.applyEvent, Engine.setLink]
    split
    · exact hknown
    · exact placement?_updatePort hknown _ _

omit h in
theorem placement?_workEvents : e.workEvents.1.placement? name = some p := by
  have hfold : ∀ (events : List Event) (e : Engine), e.placement? name = some p →
      (events.foldl (fun e event => (e.applyEvent event).1) e).placement? name = some p := by
    intro events
    induction events with
    | nil => exact fun _ hp => hp
    | cons event rest ih => exact fun e hp => ih _ (placement?_applyEvent hp event)
  unfold workEvents
  rw [foldl_next_fst]
  exact hfold _ _ hp

end

/-! ## Entries for the interface -/

section
variable (h : e.Stable) (hl : e.lags.find? lagName = some l)
  (hkey : memberKey? key = some (lagName, name))
include h hl hkey

/-- A member that is taken out of its LAG is nowhere. -/
theorem Coherent.placement?_memberDel (hp : e.placement? name = some (some l, settings)) :
    (e.memberDel key).engine.placement? name = some (none, {}) := by
  obtain ⟨i, hi, hplaced⟩ := Option.map_eq_some_iff.mp hp
  obtain ⟨slot, hfind, hget⟩ := Option.bind_eq_some_iff.mp hi
  have hlag : i.lag = some l := congrArg Prod.fst hplaced
  have hdel : e.memberDel key = .ok ((e.detachMember l slot).next (·.evaluate l)) := by
    simp [Engine.memberDel, parseMemberKey, hkey, hl, hfind, hget, hlag]
  have hreleased := h.get?_release hget hlag
  have hdeleted := h.memberDel key
  rw [hdel] at hdeleted ⊢
  have hname : i.name = name := h.interfaces.name_of_find? hfind hget
  have hknown := hdeleted.linked.interface?_name hreleased
  rw [show i.released.name = name from hname] at hknown
  show (Engine.interface? _ name).map Interface.placement = _
  rw [hknown]
  rfl

/-- An interface that is nowhere joins the LAG, with the settings that the fields make of the
default. -/
theorem Coherent.placement?_memberSet (hp : e.placement? name = some (none, {}))
    (hfields : ({} : MemberSettings).withFields fields = .ok settings) :
    (e.memberSet key fields).error = none ∧
      (e.memberSet key fields).engine.placement? name = some (some l, settings) := by
  have hfree : ∀ i, e.interface? name = some i → i.lag = none := by
    intro i hi
    rw [placement?, hi] at hp
    exact congrArg Prod.fst (Option.some.inj hp)
  have hjoined := @Coherent.join_memberSet e l name lagName key fields h hkey hl hfree
  rw [hfields] at hjoined
  obtain ⟨herror, i, hi, hsettings, hlag⟩ := hjoined
  refine ⟨herror, ?_⟩
  rw [placement?, hi, Option.map_some, Interface.placement, hlag, hsettings]

/-- A member of another LAG is refused, and nothing changes. -/
theorem Coherent.memberSet_of_elsewhere (hp : e.placement? name = some (some l', settings))
    (hl' : e.lags.find? otherName = some l') (hne : l' ≠ l) :
    e.memberSet key fields = .fail e (.interfaceInOtherLag name otherName) := by
  obtain ⟨i, hi, hplaced⟩ := Option.map_eq_some_iff.mp hp
  obtain ⟨slot, hfind, hget⟩ := Option.bind_eq_some_iff.mp hi
  have hlag : i.lag = some l' := congrArg Prod.fst hplaced
  obtain ⟨lag, hlive, hnamed⟩ := h.lags.get?_of_find? hl'
  simp [Engine.memberSet, parseMemberKey, hkey, hl, ensureInterface_of_known hfind, hget, hlag,
    hne, hlive, hnamed]

end

end Engine
end LinkAggregation
