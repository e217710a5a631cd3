import LinkAggregation.Proofs.Engine.Placement
import LinkAggregation.Proofs.Queue.Calls
import LinkAggregation.Proofs.Reachable.Backlog
import Mathlib.Data.List.Permutation

/-!
# Members that move to another LAG

A member moves when one entry removes it from its LAG and another one adds it to a new LAG. Entries
are applied in the order of their keys, so that the addition may come first. Then it is refused, but
as the removal is still to come it waits, and the next work applies it. So two rounds of work are
enough for both orders, whatever else is pending for other interfaces.
-/
namespace LinkAggregation.Engine

/-- Those of the entries that name the interface. -/
def mentions (name : String) (entries : List Entry) : List Entry :=
  entries.filter (·.member? = some name)

/-- One entry takes the interface out of the source, another one puts it into the target, where its
fields make the settings of the default. -/
structure Relocation (name source target : String) (settings : MemberSettings)
    (removal addition : Entry) : Prop where
  removes : removal.operation = .del
  removed : memberKey? removal.key = some (source, name)
  adds : addition.operation = .set
  added : memberKey? addition.key = some (target, name)
  fields : ({} : MemberSettings).withFields addition.fields = .ok settings

variable {name source target : String} {settings settings' : MemberSettings}
  {removal addition entry : Entry} {batch entries before after first rest : List Entry}
  {e : Engine} {a b slot : Nat} {p : Option Nat × MemberSettings}

/-! ## Entries that name an interface -/

theorem mentions_eq_nil_iff :
    mentions name entries = [] ↔ ∀ entry ∈ entries, entry.member? ≠ some name := by
  simp [mentions]

theorem mem_mentions :
    entry ∈ mentions name entries ↔ entry ∈ entries ∧ entry.member? = some name := by
  simp [mentions]

/-- Entries are cut at the last one that names the interface. -/
theorem mentions_cut (hname : entry.member? = some name) (hnew : entry ∉ first)
    (h : mentions name (before ++ entry :: after) = first ++ [entry]) :
    mentions name before = first ∧ mentions name after = [] := by
  have hcut : mentions name before ++ entry :: mentions name after = first ++ [entry] := by
    rw [← h]
    simp [mentions, hname]
  obtain ⟨between, rfl, hbetween⟩ | ⟨between, hbefore, hbetween⟩ :=
    List.append_eq_append_iff.mp hcut
  · cases between with
    | nil => exact ⟨(List.append_nil _).symm, (List.cons.inj hbetween).2⟩
    | cons other rest =>
      obtain ⟨rfl, -⟩ := List.cons.inj hbetween
      exact absurd (by simp) hnew
  · have hlength := congrArg List.length hbetween
    simp only [List.length_append, List.length_cons, List.length_nil] at hlength
    have hnil : between = [] := List.eq_nil_of_length_eq_zero (by omega)
    exact ⟨by rw [hbefore, hnil, List.append_nil], List.eq_nil_of_length_eq_zero (by omega)⟩

/-- Entries are cut where the interface is named first. -/
theorem exists_first_mention (h : mentions name entries = entry :: rest) :
    ∃ before after, entries = before ++ entry :: after ∧
      (∀ x ∈ before, x.member? ≠ some name) ∧ mentions name after = rest := by
  obtain ⟨before, after, hcut, hbefore, -, hafter⟩ := List.filter_eq_cons_iff.mp h
  exact ⟨before, after, hcut, by simpa using hbefore, hafter⟩

namespace Relocation

theorem ne (h : Relocation name source target settings removal addition) : removal ≠ addition := by
  rintro rfl
  exact absurd (h.removes.symm.trans h.adds) nofun

theorem member?_addition (h : Relocation name source target settings removal addition) :
    addition.member? = some name := by
  rw [Entry.member?, h.added]
  rfl

/-- What comes out of the queue are the two entries as they came in, in one order or the other. -/
theorem mentions_drain (h : Relocation name source target settings removal addition)
    (hne : source ≠ target) (hbatch : (mentions name batch).Perm [removal, addition])
    {q : Queue Entry} (hq : q.Merged) (hempty : q.drain.1 = []) :
    mentions name (q.pushAll batch).drain.1 = [removal, addition] ∨
      mentions name (q.pushAll batch).drain.1 = [addition, removal] := by
  have hkeys : removal.key ≠ addition.key := by
    intro heq
    have hnames := h.removed.symm.trans (heq ▸ h.added)
    exact hne (Prod.mk.inj (Option.some.inj hnames)).1
  have hnone : ∀ key, q.pending key = [] := by
    intro key
    rw [← hq.filter_drain key, hempty, List.filter_nil]
  have hkeyed : ∀ x y : Entry, Queued.key x = Queued.key y →
      decide (x.member? = some name) = decide (y.member? = some name) := by
    intro x y heq
    have hsame : x.member? = y.member? := congrArg (fun key => (memberKey? key).map Prod.snd) heq
    rw [hsame]
  have hnodup : ((mentions name batch).map Queued.key).Nodup := by
    rw [(hbatch.map Queued.key).nodup_iff]
    simpa [Queued.key] using hkeys
  have hperm := hq.toGrouped.perm_filter_pushAll (fun _ _ _ => Queue.key_merge?) hnone hkeyed hnodup
  exact List.perm_pair.mp (hperm.trans hbatch)

end Relocation

/-! ## The turn of the members -/

/-- The interface is placed so, and of the pending entries these are left that name it. -/
structure Placed (e : Engine) (name : String) (p : Option Nat × MemberSettings)
    (left pending : List Entry) : Prop where
  placement : e.placement? name = some p
  mentions : mentions name pending = left

theorem find?_acts_member (e : Engine) (entries : List Entry) (lag : String) :
    (e.acts (entries.map (.apply .member))).1.lags.find? lag = e.lags.find? lag := by
  have hnames := (retains_acts_apply e (show Table.member ≠ .lag by decide) entries).names
  unfold Arena.find?
  rw [hnames]

theorem acts_append_cons (e : Engine) (before : List Entry) (entry : Entry) (after : List Entry) :
    (e.acts ((before ++ entry :: after).map (.apply .member))).1 =
      (((e.acts (before.map (.apply .member))).1.applyEntry .member entry).engine.acts
        (after.map (.apply .member))).1 := by
  rw [List.map_append, acts_append, List.map_cons, next_fst, acts_cons, next_fst]
  rfl

/-- An interface that is not named stays where it is. -/
theorem Placed.turn (h : e.Stable) (hplaced : e.Placed name p [] entries) :
    (e.acts (entries.map (.apply .member))).1.Placed name p [] (held .member e entries) where
  placement := h.placement?_acts_of_ne hplaced.placement (mentions_eq_nil_iff.mp hplaced.mentions)
  mentions := by
    have hnone := mentions_eq_nil_iff.mp hplaced.mentions
    exact mentions_eq_nil_iff.mpr fun entry hentry =>
      hnone entry ((held_sublist _ _ _).subset hentry)

section
variable (hmove : Relocation name source target settings removal addition) (h : e.Stable)
include hmove h

/-- The removal of a member leaves it nowhere, and nothing else names it. -/
theorem Relocation.placement?_leave (hsource : e.lags.find? source = some a)
    (hplaced : e.placement? name = some (some a, settings'))
    (hentries : mentions name entries = [removal]) :
    (e.acts (entries.map (.apply .member))).1.placement? name = some (none, {}) := by
  obtain ⟨before, after, rfl, hbefore, hafter⟩ := exists_first_mention hentries
  have hstable := h.acts (before.map (.apply .member))
  have hkept := h.placement?_acts_of_ne hplaced hbefore
  have hthere := (find?_acts_member e before source).trans hsource
  rw [acts_append_cons]
  generalize (e.acts (before.map (.apply .member))).1 = e' at hstable hkept hthere
  have hgone : (e'.applyEntry .member removal).engine.placement? name = some (none, {}) := by
    unfold Engine.applyEntry
    rw [hmove.removes]
    exact hstable.placement?_memberDel hthere hmove.removed hkept
  exact (hstable.applyEntry .member removal).placement?_acts_of_ne hgone
    (mentions_eq_nil_iff.mp hafter)

/-- An interface that is nowhere joins the target, and the addition does not wait. -/
theorem Relocation.applyEntry_join (htarget : e.lags.find? target = some b)
    (hplaced : e.placement? name = some (none, {})) (later : List Entry) :
    (e.applyEntry .member addition).waits later = false ∧
      (e.applyEntry .member addition).engine.placement? name = some (some b, settings) := by
  unfold Engine.applyEntry Outcome.waits
  rw [hmove.adds]
  obtain ⟨herror, hjoined⟩ := h.placement?_memberSet htarget hmove.added hplaced hmove.fields
  dsimp only
  rw [herror]
  exact ⟨rfl, hjoined⟩

/-- The addition completes the move if it comes last and finds the interface nowhere. -/
theorem Relocation.turn_of_last (htarget : e.lags.find? target = some b)
    (hfirst : ∀ entry ∈ first, entry = removal)
    (hentries : mentions name entries = first ++ [addition])
    (hfree : ∀ before, mentions name before = first →
      (e.acts (before.map (.apply .member))).1.placement? name = some (none, {})) :
    (e.acts (entries.map (.apply .member))).1.Placed name (some b, settings) []
      (held .member e entries) := by
  have hnew : addition ∉ first := fun hmem => hmove.ne (hfirst addition hmem).symm
  have hthere := fun before => (find?_acts_member e before target).trans htarget
  constructor
  · have hmention : addition ∈ mentions name entries := by simp [hentries]
    obtain ⟨before, after, rfl⟩ := List.append_of_mem (mem_mentions.mp hmention).1
    obtain ⟨hbefore, hafter⟩ := mentions_cut hmove.member?_addition hnew hentries
    have hstable := h.acts (before.map (.apply .member))
    obtain ⟨-, hjoined⟩ :=
      hmove.applyEntry_join hstable (hthere before) (hfree before hbefore) after
    rw [acts_append_cons]
    exact (hstable.applyEntry .member addition).placement?_acts_of_ne hjoined
      (mentions_eq_nil_iff.mp hafter)
  · -- A removal does not wait, and the addition is applied.
    refine mentions_eq_nil_iff.mpr fun entry hheld hname => ?_
    obtain ⟨before, after, rfl, hwaits⟩ := mem_held.mp hheld
    have hmention : entry ∈ first ++ [addition] := by
      rw [← hentries]
      exact mem_mentions.mpr ⟨by simp, hname⟩
    obtain hentry | hentry := List.mem_append.mp hmention
    · have hset := (h.of_mem_held hheld).2
      rw [hfirst entry hentry, hmove.removes] at hset
      cases hset
    · obtain rfl := List.mem_singleton.mp hentry
      obtain ⟨hbefore, -⟩ := mentions_cut hname hnew hentries
      have hstable := h.acts (before.map (.apply .member))
      obtain ⟨hserved, -⟩ :=
        hmove.applyEntry_join hstable (hthere before) (hfree before hbefore) after
      rw [hserved] at hwaits
      cases hwaits

/-- The addition of an interface that is nowhere completes the move. -/
theorem Relocation.turn_of_underway (htarget : e.lags.find? target = some b)
    (hunderway : e.Placed name (none, {}) [addition] entries) :
    (e.acts (entries.map (.apply .member))).1.Placed name (some b, settings) []
      (held .member e entries) :=
  hmove.turn_of_last h htarget (by simp) hunderway.mentions fun _ hbefore =>
    h.placement?_acts_of_ne hunderway.placement (mentions_eq_nil_iff.mp hbefore)

section
variable (hsource : e.lags.find? source = some a) (htarget : e.lags.find? target = some b)
  (hplaced : e.placement? name = some (some a, settings'))
include hsource htarget hplaced

/-- With the removal before the addition, the move is complete at once. -/
theorem Relocation.turn_of_removal_first (hentries : mentions name entries = [removal, addition]) :
    (e.acts (entries.map (.apply .member))).1.Placed name (some b, settings) []
      (held .member e entries) :=
  hmove.turn_of_last h htarget (by simp) hentries fun _ hbefore =>
    hmove.placement?_leave h hsource hplaced hbefore

/-- With the addition before the removal, the member leaves the source and the addition waits. -/
theorem Relocation.turn_of_addition_first (hne : a ≠ b)
    (hentries : mentions name entries = [addition, removal]) :
    (e.acts (entries.map (.apply .member))).1.Placed name (none, {}) [addition]
      (held .member e entries) := by
  obtain ⟨before, after, rfl, hbefore, hafter⟩ := exists_first_mention hentries
  have hstable := h.acts (before.map (.apply .member))
  have hkept := h.placement?_acts_of_ne hplaced hbefore
  have hthere := (find?_acts_member e before source).trans hsource
  have hrefused : (e.acts (before.map (.apply .member))).1.applyEntry .member addition =
      .fail (e.acts (before.map (.apply .member))).1 (.interfaceInOtherLag name source) := by
    unfold Engine.applyEntry
    rw [hmove.adds]
    exact hstable.memberSet_of_elsewhere ((find?_acts_member e before target).trans htarget)
      hmove.added hkept hthere hne
  constructor
  · rw [acts_append_cons, hrefused]
    exact hmove.placement?_leave hstable hthere hkept hafter
  · have hlater : removal ∈ mentions name after := by simp [hafter]
    have hwaits : addition ∈ held .member e (before ++ addition :: after) := by
      refine mem_held.mpr ⟨before, after, rfl, ?_⟩
      rw [hrefused]
      refine List.any_eq_true.mpr ⟨removal, (mem_mentions.mp hlater).1, ?_⟩
      simp [isRemovalOf, hmove.removes, hmove.removed]
    -- Only SETs wait, so that of the two entries it is the addition alone.
    have hsets : mentions name (held .member e (before ++ addition :: after)) =
        (mentions name (held .member e (before ++ addition :: after))).filter
          (·.operation = .set) := by
      refine (List.filter_eq_self.mpr fun entry hentry => ?_).symm
      exact decide_eq_true (h.of_mem_held (mem_mentions.mp hentry).1).2
    have honly : [addition, removal].filter (·.operation = .set) = [addition] := by
      simp [hmove.adds, hmove.removes]
    have hsub : (mentions name (held .member e (before ++ addition :: after))).Sublist
        [addition] := by
      rw [hsets, ← honly, ← hentries]
      exact ((held_sublist _ _ _).filter _).filter _
    refine (List.sublist_singleton.mp hsub).resolve_left ?_
    exact List.ne_nil_of_mem (mem_mentions.mpr ⟨hwaits, hmove.member?_addition⟩)

end

end

/-! ## Work that concerns members only -/

/-- Only entries of members are pending, and perhaps events. -/
structure Calm (e : Engine) : Prop where
  stable : e.Stable
  orderly : e.Orderly
  quiet : ∀ table, table ≠ .member → (e.queue table).drain.1 = []

theorem placement?_opened (e : Engine) (table : Table) (name : String) :
    (e.opened table).placement? name = e.placement? name :=
  placement?_withQueue _ _

theorem find?_opened (e : Engine) (table : Table) (lag : String) :
    (e.opened table).lags.find? lag = e.lags.find? lag := by
  unfold Arena.find? opened
  rw [index_withQueue]

namespace Calm
variable (h : e.Calm)
include h

theorem workTable_eq {table : Table} (hne : table ≠ .member) : e.workTable table = (e, []) := by
  have hnone := h.quiet table hne
  exact workTable_idle (h.orderly.tables table) (by simp [hnone]) (by simp [hnone])

theorem workTable_member : (e.workTable .member).1.Calm where
  stable := h.stable.workTable .member
  orderly := h.orderly.workTable h.stable .member
  quiet := by
    intro table hne
    rw [h.stable.queue_workTable_of_ne (h.orderly.tables .member) hne]
    exact h.quiet table hne

theorem memberStage_eq : e.memberStage = e.opened .member := by
  rw [Engine.memberStage, h.workTable_eq (by decide), h.workTable_eq (by decide)]

theorem work_eq : e.work.1 = (e.workTable .member).1.workEvents.1 := by
  have hbefore : e.worked [.system, .lag] = e := by
    simp [worked, h.workTable_eq (show Table.system ≠ .member by decide),
      h.workTable_eq (show Table.lag ≠ .member by decide)]
  rw [Engine.work_eq, worked_all, hbefore,
    h.workTable_member.workTable_eq (show Table.port ≠ .member by decide)]

theorem work : e.work.1.Calm where
  stable := h.stable.work
  orderly := h.orderly.work h.stable
  quiet := by
    intro table hne
    rw [h.orderly.queue_work_of_ne h.stable hne]
    exact Queue.drain_refill _ []

theorem find?_work (lag : String) : e.work.1.lags.find? lag = e.lags.find? lag := by
  rw [← find?_opened e .member lag]
  unfold Arena.find?
  rw [h.orderly.index_work h.stable, h.memberStage_eq]

/-- Where the members have been placed in their turn, they stay. -/
theorem placement?_work (hp : ((e.opened .member).acts
    (e.memberQueue.drain.1.map (.apply .member))).1.placement? name = some p) :
    e.work.1.placement? name = some p := by
  rw [h.work_eq, h.stable.workTable_eq (h.orderly.tables .member)]
  exact placement?_workEvents ((placement?_withQueue _ _).trans hp)

theorem drain_work : e.work.1.memberQueue.drain.1 =
    held .member (e.opened .member) e.memberQueue.drain.1 := by
  rw [h.orderly.memberQueue_work h.stable, Queue.drain_refill, h.memberStage_eq]

theorem stable_opened : (e.opened .member).Stable := h.stable.withQueue _ .member

/-- Work leaves an interface as the members' turn does. -/
theorem placed_work {left : List Entry} (hplaced : ((e.opened .member).acts
    (e.memberQueue.drain.1.map (.apply .member))).1.Placed name p left
      (held .member (e.opened .member) e.memberQueue.drain.1)) :
    e.work.1.Placed name p left e.work.1.memberQueue.drain.1 where
  placement := h.placement?_work hplaced.placement
  mentions := h.drain_work ▸ hplaced.mentions

/-- A second round of work completes a move, and leaves one alone that is complete. -/
theorem moved_work (hmove : Relocation name source target settings removal addition)
    (htarget : e.lags.find? target = some b)
    (hplaced : e.Placed name (some b, settings) [] e.memberQueue.drain.1 ∨
      e.Placed name (none, {}) [addition] e.memberQueue.drain.1) :
    e.work.1.Placed name (some b, settings) [] e.work.1.memberQueue.drain.1 := by
  have hopened := h.stable_opened
  have hthere := (find?_opened e .member target).trans htarget
  obtain ⟨hplacement, hmentions⟩ | ⟨hplacement, hmentions⟩ := hplaced
  · rw [← placement?_opened e .member] at hplacement
    exact h.placed_work (Placed.turn hopened ⟨hplacement, hmentions⟩)
  · rw [← placement?_opened e .member] at hplacement
    exact h.placed_work (hmove.turn_of_underway hopened hthere ⟨hplacement, hmentions⟩)

/-- Two rounds of work move a member, whatever the order of the two entries. -/
theorem moved_work_work (hmove : Relocation name source target settings removal addition)
    (hne : a ≠ b) (hsource : e.lags.find? source = some a) (htarget : e.lags.find? target = some b)
    (hplaced : e.placement? name = some (some a, settings'))
    (hentries : mentions name e.memberQueue.drain.1 = [removal, addition] ∨
      mentions name e.memberQueue.drain.1 = [addition, removal]) :
    e.work.1.work.1.Placed name (some b, settings) [] e.work.1.work.1.memberQueue.drain.1 := by
  have hsource' := (find?_opened e .member source).trans hsource
  have htarget' := (find?_opened e .member target).trans htarget
  have hplaced' := (placement?_opened e .member name).trans hplaced
  refine h.work.moved_work hmove ((h.find?_work target).trans htarget) ?_
  refine hentries.imp (fun hfirst => h.placed_work ?_) (fun hfirst => h.placed_work ?_)
  · exact hmove.turn_of_removal_first h.stable_opened hsource' htarget' hplaced' hfirst
  · exact hmove.turn_of_addition_first h.stable_opened hsource' htarget' hplaced' hne hfirst

end Calm

/-! ## Transfers -/

/-- A batch for the table of members moves a member of the source to the target, when no entries are
pending. The other entries of the batch are for other interfaces. -/
structure Transfer (e : Engine) (name source target : String) (settings : MemberSettings)
    (batch : List Entry) : Prop where
  idle : ∀ table, (e.queue table).hasPending = false
  distinct : source ≠ target
  there : (e.lags.find? target).isSome = true
  member : ∃ a, e.lags.find? source = some a ∧ (e.interface? name).bind (·.lag) = some a
  entries : ∃ removal addition, Relocation name source target settings removal addition ∧
    (mentions name batch).Perm [removal, addition]

/-- The interface is a member of the target and of no other LAG, it has the settings, and no entry
is pending that names it. -/
structure Transferred (e : Engine) (name target : String) (settings : MemberSettings)
    (slot b : Nat) (i : Interface) (lag : Lag) : Prop where
  interface : e.interfaces.find? name = some slot ∧ e.interfaces.get? slot = some i
  there : e.lags.find? target = some b ∧ e.lags.get? b = some lag
  joined : i.lag = some b ∧ slot ∈ lag.members
  only : ∀ k other, e.lags.get? k = some other → slot ∈ other.members → k = b
  settings : i.settings = settings
  served : mentions name e.memberQueue.drain.1 = []
  others : ∀ table, table ≠ .member → (e.queue table).drain.1 = []

/-- A calm engine in which the interface is placed in the target. -/
theorem Calm.transferred (h : e.Calm) (htarget : e.lags.find? target = some b)
    (hplaced : e.Placed name (some b, settings) [] e.memberQueue.drain.1) :
    ∃ slot b i lag, e.Transferred name target settings slot b i lag := by
  obtain ⟨i, hi, hplacement⟩ := Option.map_eq_some_iff.mp hplaced.placement
  obtain ⟨slot, hfind, hget⟩ := Option.bind_eq_some_iff.mp hi
  obtain ⟨hlag, hsettings⟩ := Prod.mk.inj hplacement
  obtain ⟨lag, hl, hmember⟩ := h.stable.lag_of_member hget hlag
  refine ⟨slot, b, i, lag, ⟨hfind, hget⟩, ⟨htarget, hl⟩, ⟨hlag, hmember⟩, ?_, hsettings,
    hplaced.mentions, h.quiet⟩
  intro k other hk hin
  obtain ⟨j, hj, hother⟩ := (h.stable.members k other hk slot).mp hin
  obtain rfl := Option.some.inj (hget.symm.trans hj)
  exact Option.some.inj (hother.symm.trans hlag)

theorem Orderly.drain_of_idle (ho : e.Orderly) (hidle : ∀ table, (e.queue table).hasPending = false)
    (table : Table) : (e.queue table).drain.1 = [] := by
  by_contra hne
  have hpending := (ho.tables table).hasPending_iff.mpr hne
  rw [hidle table] at hpending
  cases hpending

theorem calm_enqueueEntries (h : e.Stable) (ho : e.Orderly)
    (hempty : ∀ table, (e.queue table).drain.1 = []) (batch : List Entry) :
    (e.enqueueEntries .member batch).Calm where
  stable := h.withQueue _ .member
  orderly := orderly_withQueue ho (merged_pushAll (ho.tables .member) batch) .member
  quiet := by
    intro table hother
    rw [enqueueEntries, queue_withQueue_of_ne _ hother]
    exact hempty table

theorem Transfer.transferred (h : e.Stable) (ho : e.Orderly)
    (htransfer : e.Transfer name source target settings batch) :
    ∃ slot b i lag, (e.enqueueEntries .member batch).work.1.work.1.Transferred
      name target settings slot b i lag := by
  obtain ⟨hidle, hdistinct, hthere, ⟨a, hsource, hmember⟩, removal, addition, hmove, hbatch⟩ :=
    htransfer
  obtain ⟨b, htarget⟩ := Option.isSome_iff_exists.mp hthere
  obtain ⟨i, hi, hlag⟩ := Option.bind_eq_some_iff.mp hmember
  have hempty := ho.drain_of_idle hidle
  have hne : a ≠ b := by
    rintro rfl
    obtain ⟨lag, hlive, rfl⟩ := h.lags.get?_of_find? hsource
    exact hdistinct (h.lags.name_of_find? htarget hlive)
  have hqueued := calm_enqueueEntries h ho hempty batch
  have hentries := hmove.mentions_drain hdistinct hbatch (ho.tables .member) (hempty .member)
  have hplaced : (e.enqueueEntries .member batch).placement? name = some (some a, i.settings) := by
    rw [enqueueEntries, placement?_withQueue, placement?, hi, Option.map_some,
      Interface.placement, hlag]
  have hmoved := hqueued.moved_work_work hmove hne hsource htarget hplaced hentries
  refine hqueued.work.work.transferred ?_ hmoved
  rw [hqueued.work.find?_work, hqueued.find?_work]
  exact htarget

/-- Whatever has been asked of an engine, two rounds of work move a member, if a removal and an
addition of it are queued in one batch. It does not matter in which order they are queued, how the
names of the LAGs compare and what the other entries are. -/
theorem transferred_reached (system : SystemIdentity) (maxMembers : Nat) (connected : Bool)
    (requests : List Request) (name source target : String) (settings : MemberSettings)
    (batch : List Entry)
    (h : (reached system maxMembers connected requests).Transfer name source target settings
      batch) :
    ∃ slot b i lag, ((reached system maxMembers connected requests).run
      [.enqueueEntries "PORTCHANNEL_MEMBER" batch, .work, .work]).1.Transferred
        name target settings slot b i lag := by
  have hstable := stable_reached system maxMembers connected requests
  have horderly : (reached system maxMembers connected requests).Orderly :=
    (orderly_new system maxMembers connected).run (stable_new system maxMembers connected) requests
  generalize reached system maxMembers connected requests = e at h hstable horderly ⊢
  have hrun : (e.run [.enqueueEntries "PORTCHANNEL_MEMBER" batch, .work, .work]).1 =
      (e.enqueueEntries .member batch).work.1.work.1 := by
    have hname : Table.ofName? "PORTCHANNEL_MEMBER" = some .member := by decide
    simp [run, next_fst, handle, enqueueNamed, hname]
  rw [hrun]
  exact h.transferred hstable horderly

/-- Two LAGs; the second one has a member whose number in it is given. -/
def settledMember : List Request :=
  [.apply .lag ⟨"PortChannel1", .set, []⟩, .apply .lag ⟨"PortChannel2", .set, []⟩,
    .apply .member ⟨"PortChannel2|Ethernet0", .set, [("lacp_port_id", "7")]⟩]

/-- The member moves to the LAG whose name comes first, so that the addition has to wait for the
removal. Another interface waits for a LAG that is not there. -/
theorem transferred_settledMember :
    let batch : List Entry :=
      [⟨"PortChannel2|Ethernet0", .del, []⟩, ⟨"PortChannel3|Ethernet4", .set, []⟩,
        ⟨"PortChannel1|Ethernet0", .set, [("lacp_port_priority", "100")]⟩]
    let e := reached {} 8 true settledMember
    e.Transfer "Ethernet0" "PortChannel2" "PortChannel1" { portPriority := 100 } batch ∧
      ∃ slot b i lag,
        (e.run [.enqueueEntries "PORTCHANNEL_MEMBER" batch, .work, .work]).1.Transferred
          "Ethernet0" "PortChannel1" { portPriority := 100 } slot b i lag := by
  intro batch e
  have hrelocation : Relocation "Ethernet0" "PortChannel2" "PortChannel1" { portPriority := 100 }
      ⟨"PortChannel2|Ethernet0", .del, []⟩
      ⟨"PortChannel1|Ethernet0", .set, [("lacp_port_priority", "100")]⟩ := by
    constructor <;> decide +kernel
  have htransfer : e.Transfer "Ethernet0" "PortChannel2" "PortChannel1" { portPriority := 100 }
      batch := {
    idle := fun table => by cases table <;> decide +kernel
    distinct := by decide
    there := by decide +kernel
    member := ⟨1, by decide +kernel, by decide +kernel⟩
    entries := ⟨_, _, hrelocation, by decide +kernel⟩ }
  exact ⟨htransfer, transferred_reached {} 8 true settledMember _ _ _ _ _ htransfer⟩

end LinkAggregation.Engine
