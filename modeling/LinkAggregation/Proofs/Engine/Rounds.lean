import LinkAggregation.Proofs.Config.Attributes
import LinkAggregation.Proofs.Engine.Action
import LinkAggregation.Proofs.Engine.Queues
import LinkAggregation.Proofs.Queue.Groups

/-!
# One round of a table

Only a SET of a member can be made to wait, and in a queue nothing of its key comes after it. So
nothing has to be held back: every entry that is taken from a queue is applied once, in its turn,
and those that have to wait refill the queue.
-/
namespace LinkAggregation

/-- After this outcome the entry waits. -/
def Outcome.waits (o : Outcome) (later : List Entry) : Bool :=
  match o.error with
  | some error => Engine.mustWait error later
  | none => false

/-- The configuration is wrong, now and later. -/
def Error.IsFinal (error : Error) : Prop := ∃ field refusal, error = .invalidConfig field refusal

theorem Describes.isFinal {σ : Type} {attributes : List (Attribute σ)}
    {withField : σ → Field → Except Error σ} (h : Describes attributes withField) {s : σ}
    {fields : List Field} {error : Error} (herror : fields.foldlM withField s = .error error) :
    error.IsFinal := by
  obtain ⟨field, -, refusal, rfl⟩ := h.error_foldlM herror
  exact ⟨field.1, refusal, rfl⟩

namespace Engine
variable {e : Engine} {table : Table} {entry : Entry} {entries later waiting : List Entry}
  {error : Error} {key name lag : String} {fields : List Field}

/-! ## Which errors make an entry wait -/

theorem not_mustWait (h : error.IsFinal) (later : List Entry) : mustWait error later = false := by
  obtain ⟨field, refusal, rfl⟩ := h
  rfl

/-- If nothing is removed later, an entry waits only for its LAG. -/
theorem mustWait_of_sets (h : ∀ entry ∈ later, entry.operation = .set) (error : Error) :
    mustWait error later = error.isRetryable := by
  unfold mustWait
  split
  · next interface lag =>
    have hnone : later.any (isRemovalOf lag interface) = false := by
      refine List.any_eq_false.mpr ?_
      intro entry hentry
      simp [isRemovalOf, h entry hentry]
    rw [hnone]
    rfl
  · rfl

theorem isFinal_parseMemberKey (h : parseMemberKey key = .error error) : error.IsFinal := by
  unfold parseMemberKey at h
  split at h
  · cases h
  · exact ⟨_, _, (Except.error.inj h).symm⟩

theorem isFinal_lagKey (h : lagKey name = .error error) : error.IsFinal := by
  unfold lagKey at h
  dsimp only at h
  split at h
  · exact ⟨_, _, (Except.error.inj h).symm⟩
  · split at h
    · exact ⟨_, _, (Except.error.inj h).symm⟩
    · split at h
      · cases h
      · exact ⟨_, _, (Except.error.inj h).symm⟩

theorem error_changeSystem (system : SystemIdentity) : (e.changeSystem system).error = none := by
  unfold changeSystem
  split <;> rfl

theorem isFinal_systemSet (h : (e.systemSet key fields).error = some error) : error.IsFinal := by
  unfold systemSet at h
  split at h
  · exact ⟨_, _, (Option.some.inj h).symm⟩
  · split at h
    · next error' hfields =>
      obtain rfl := Option.some.inj h
      exact SystemIdentity.describes.isFinal hfields
    · rw [error_changeSystem] at h
      cases h

theorem isFinal_systemDel (h : (e.systemDel key).error = some error) : error.IsFinal := by
  unfold systemDel at h
  split at h
  · exact ⟨_, _, (Option.some.inj h).symm⟩
  · rw [error_changeSystem] at h
    cases h

/-- A LAG that the index knows is there, so that only its name and its fields can be wrong. -/
theorem Coherent.isFinal_lagSet (h : e.Stable)
    (herror : (e.lagSet name fields).error = some error) :
    error.IsFinal := by
  unfold Engine.lagSet at herror
  split at herror
  · next error' hkey =>
    obtain rfl := Option.some.inj herror
    exact isFinal_lagKey hkey
  · split at herror
    · split at herror
      · next error' hfields =>
        obtain rfl := Option.some.inj herror
        exact LagSettings.describes.isFinal hfields
      · cases herror
    · next slot hname =>
      obtain ⟨lag, hlag, -⟩ := h.lags.get?_of_find? hname
      split at herror
      · next hnone => simp [hlag] at hnone
      · split at herror
        · next error' hfields =>
          obtain rfl := Option.some.inj herror
          exact LagSettings.describes.isFinal hfields
        · split at herror <;> cases herror

theorem error_lagDel (e : Engine) (name : String) : (e.lagDel name).error = none := by
  unfold lagDel
  split <;> rfl

theorem isFinal_memberDel (h : (e.memberDel key).error = some error) : error.IsFinal := by
  unfold memberDel at h
  split at h
  · next error' hkey =>
    obtain rfl := Option.some.inj h
    exact isFinal_parseMemberKey hkey
  · split at h
    · split at h <;> cases h
    · cases h

theorem isFinal_portSet (h : (e.portSet name fields).error = some error) : error.IsFinal := by
  unfold portSet at h
  dsimp only at h
  split at h
  · next error' hfields =>
    obtain rfl := Option.some.inj h
    exact PortStatus.describes.isFinal hfields
  · cases h

theorem error_portDel (e : Engine) (name : String) : (e.portDel name).error = none := by
  unfold portDel
  split
  · rfl
  · split <;> rfl

/-- Only a SET of a member can be made to wait. -/
theorem Coherent.waits_eq_false (h : e.Stable) (hentry : table = .member → entry.operation = .del)
    (later : List Entry) : (e.applyEntry table entry).waits later = false := by
  have hfinal : ∀ error, (e.applyEntry table entry).error = some error → error.IsFinal := by
    intro error herror
    unfold Engine.applyEntry at herror
    split at herror
    · exact isFinal_systemSet herror
    · exact isFinal_systemDel herror
    · exact h.isFinal_lagSet herror
    · rw [error_lagDel] at herror
      cases herror
    · next hset =>
      rw [hentry rfl] at hset
      cases hset
    · exact isFinal_memberDel herror
    · exact isFinal_portSet herror
    · rw [error_portDel] at herror
      cases herror
  unfold Outcome.waits
  split
  · next error herror => exact not_mustWait (hfinal error herror) later
  · rfl

/-! ## Members whose LAG is not there -/

/-- The entry is for a LAG that is not there. -/
def isEarly (e : Engine) (entry : Entry) : Bool :=
  match memberKey? entry.key with
  | some (lag, _) => (e.lags.find? lag).isNone
  | none => false

theorem isEarly_iff : e.isEarly entry = true ↔
    ∃ lag interface, memberKey? entry.key = some (lag, interface) ∧ e.lags.find? lag = none := by
  unfold isEarly
  cases memberKey? entry.key with
  | none => simp
  | some names =>
    obtain ⟨lag, interface⟩ := names
    simp

theorem memberSet_of_isEarly (h : e.isEarly ⟨key, .set, fields⟩ = true) :
    ∃ lag, e.memberSet key fields = .fail e (.lagNotFound lag) := by
  obtain ⟨lag, interface, hkey, hlag⟩ := isEarly_iff.mp h
  exact ⟨lag, by simp only [memberSet, parseMemberKey, hkey, hlag]⟩

/-- With its LAG there, an entry is applied or it is wrong for good, as long as nothing is removed
later. -/
theorem not_isRetryable_of_not_isEarly (h : e.isEarly ⟨key, .set, fields⟩ = false)
    (herror : (e.memberSet key fields).error = some error) : error.isRetryable = false := by
  have hfinal : ∀ {error : Error}, error.IsFinal → error.isRetryable = false := by
    rintro _ ⟨field, refusal, rfl⟩
    rfl
  unfold memberSet at herror
  split at herror
  · next error' hkey =>
    obtain rfl := Option.some.inj herror
    exact hfinal (isFinal_parseMemberKey hkey)
  · next lag name hkey =>
    split at herror
    · next hlag =>
      have hparsed : memberKey? key = some (lag, name) := by
        unfold parseMemberKey at hkey
        split at hkey
        · next hparsed => rw [hparsed, Except.ok.inj hkey]
        · cases hkey
      simp [isEarly, hparsed, hlag] at h
    · dsimp only at herror
      split at herror
      · rw [← Option.some.inj herror]
        rfl
      · split at herror
        · split at herror
          · next error' hfields =>
            obtain rfl := Option.some.inj herror
            exact hfinal (MemberSettings.describes.isFinal hfields)
          · cases herror
        · split at herror
          · rw [← Option.some.inj herror]
            rfl
          · split at herror
            · next error' hfields =>
              obtain rfl := Option.some.inj herror
              exact hfinal (MemberSettings.describes.isFinal hfields)
            · split at herror <;> cases herror

/-- As long as nothing is removed later, a SET waits exactly for its LAG. -/
theorem waits_eq_isEarly (hset : entry.operation = .set)
    (hlater : ∀ entry ∈ later, entry.operation = .set) :
    (e.applyEntry .member entry).waits later = e.isEarly entry := by
  obtain ⟨key, operation, fields⟩ := entry
  dsimp only at hset
  subst hset
  change (e.memberSet key fields).waits later = _
  cases hearly : e.isEarly ⟨key, .set, fields⟩ with
  | true =>
    obtain ⟨lag, hfail⟩ := memberSet_of_isEarly hearly
    rw [hfail]
    rfl
  | false =>
    unfold Outcome.waits
    split
    · next error herror =>
      rw [mustWait_of_sets hlater]
      exact not_isRetryable_of_not_isEarly hearly herror
    · rfl

/-! ## Entries in turn -/

/-- The entries that wait when these are applied in turn. -/
def held (table : Table) (e : Engine) : List Entry → List Entry
  | [] => []
  | entry :: later =>
    let o := e.applyEntry table entry
    (if o.waits later then [entry] else []) ++ held table o.engine later

theorem held_sublist (table : Table) (e : Engine) (entries : List Entry) :
    (held table e entries).Sublist entries := by
  induction entries generalizing e with
  | nil => exact List.Sublist.refl []
  | cons entry later ih =>
    unfold held
    dsimp only
    split
    · exact (ih _).cons_cons entry
    · exact (ih _).cons entry

theorem mem_held : entry ∈ held table e entries ↔ ∃ before after,
    entries = before ++ entry :: after ∧
      ((e.acts (before.map (.apply table))).1.applyEntry table entry).waits after = true := by
  induction entries generalizing e with
  | nil => simp [held]
  | cons first later ih =>
    unfold held
    rw [List.mem_append, ih]
    constructor
    · rintro (hfirst | ⟨before, after, rfl, hwaits⟩)
      · split at hfirst
        · next hwaits =>
          obtain rfl := List.mem_singleton.mp hfirst
          exact ⟨[], later, rfl, hwaits⟩
        · simp at hfirst
      · refine ⟨first :: before, after, rfl, ?_⟩
        rw [List.map_cons, acts_cons]
        exact hwaits
    · rintro ⟨before, after, heq, hwaits⟩
      cases before with
      | nil =>
        obtain ⟨rfl, rfl⟩ := List.cons.inj heq
        exact .inl (by simp [show (e.applyEntry table first).waits later = true from hwaits])
      | cons first' before =>
        obtain ⟨rfl, rfl⟩ := List.cons.inj heq
        rw [List.map_cons, acts_cons] at hwaits
        exact .inr ⟨before, after, rfl, hwaits⟩

theorem Coherent.of_mem_held (h : e.Stable) (hentry : entry ∈ held table e entries) :
    table = .member ∧ entry.operation = .set := by
  obtain ⟨before, after, -, hwaits⟩ := mem_held.mp hentry
  have hstable := h.acts (before.map (.apply table))
  constructor
  · by_contra hne
    rw [hstable.waits_eq_false fun heq => absurd heq hne] at hwaits
    cases hwaits
  · cases hset : entry.operation with
    | set => rfl
    | del =>
      rw [hstable.waits_eq_false fun _ => hset] at hwaits
      cases hwaits

/-- Entries that wait have different keys. -/
theorem Coherent.pairwise_held (h : e.Stable) (hsorted : entries.Pairwise Queue.Precedes) :
    (held table e entries).Pairwise (·.key < ·.key) := by
  refine (hsorted.sublist (held_sublist table e entries)).imp_of_mem ?_
  intro first second hfirst _ hprecedes
  obtain hlt | ⟨-, hdel⟩ := hprecedes
  · exact hlt
  · rw [(h.of_mem_held hfirst).2] at hdel
    cases hdel

/-- Nothing is held back: each entry is applied in its turn. -/
theorem Coherent.entryActions_eq (h : e.Stable) (table : Table) (waiting : List Entry)
    (hsorted : entries.Pairwise Queue.Precedes)
    (hfree : ∀ w ∈ waiting, ∀ x ∈ entries, w.key ≠ x.key) :
    entryActions table e waiting entries = entries.map (.apply table) ∧
      (Engine.applyEntries table e waiting entries).2 = waiting ++ held table e entries := by
  induction entries generalizing e waiting with
  | nil => simp [entryActions, Engine.applyEntries, held]
  | cons entry later ih =>
    obtain ⟨hentry, hlater⟩ := List.pairwise_cons.mp hsorted
    have hnone : waiting.any (·.key == entry.key) = false := by
      refine List.any_eq_false.mpr fun w hw => ?_
      simpa using hfree w hw entry List.mem_cons_self
    have hrest : ∀ w ∈ waiting, ∀ x ∈ later, w.key ≠ x.key :=
      fun w hw x hx => hfree w hw x (List.mem_cons_of_mem _ hx)
    have hstable := h.applyEntry table entry
    unfold entryActions Engine.applyEntries held
    simp only [hnone, Bool.false_eq_true, if_false]
    change _ ∧ (Engine.applyEntries table (e.applyEntry table entry).engine
      (if (e.applyEntry table entry).waits later = true then waiting ++ [entry] else waiting)
        later).2 = _
    change .apply table entry :: entryActions table (e.applyEntry table entry).engine
      (if (e.applyEntry table entry).waits later = true then waiting ++ [entry] else waiting)
        later = _ ∧ _
    split
    · next hwaits =>
      -- It is a SET, so that nothing later has its key.
      have hset : entry.operation = .set := by
        have hheld : entry ∈ held table e (entry :: later) :=
          mem_held.mpr ⟨[], later, rfl, hwaits⟩
        exact (h.of_mem_held hheld).2
      have hnew : ∀ w ∈ waiting ++ [entry], ∀ x ∈ later, w.key ≠ x.key := by
        intro w hw x hx
        obtain hw | hw := List.mem_append.mp hw
        · exact hrest w hw x hx
        · rw [List.mem_singleton.mp hw]
          obtain hlt | ⟨-, hdel⟩ := hentry x hx
          · exact hlt.ne
          · rw [hset] at hdel
            cases hdel
      obtain ⟨hactions, hheld⟩ := ih hstable _ hlater hnew
      exact ⟨by rw [hactions]; rfl, by rw [hheld, List.append_assoc]⟩
    · obtain ⟨hactions, hheld⟩ := ih hstable _ hlater hrest
      exact ⟨by rw [hactions]; rfl, by rw [hheld]; rfl⟩

theorem queues_acts_apply (e : Engine) (table : Table) (entries : List Entry) :
    (e.acts (entries.map (.apply table))).1.queues = e.queues := by
  induction entries generalizing e with
  | nil => rfl
  | cons entry later ih =>
    rw [List.map_cons, acts_cons]
    exact (ih _).trans (queues_applyEntry e table entry)

theorem retains_acts_apply (e : Engine) (htable : table ≠ .lag) (entries : List Entry) :
    Retains e (e.acts (entries.map (.apply table))).1 := by
  induction entries generalizing e with
  | nil => exact Retains.refl e
  | cons entry later ih =>
    rw [List.map_cons, acts_cons]
    exact (retains_applyEntry e htable entry).trans (ih _)

theorem isEarly_congr {e' : Engine} (h : e'.lags.index = e.lags.index) (entry : Entry) :
    e'.isEarly entry = e.isEarly entry := by
  unfold isEarly Arena.find?
  rw [h]

/-- Of SETs alone, those wait whose LAG is not there. -/
theorem held_of_sets (e : Engine) (hset : ∀ entry ∈ entries, entry.operation = .set) :
    held .member e entries = entries.filter e.isEarly := by
  induction entries generalizing e with
  | nil => rfl
  | cons entry later ih =>
    obtain ⟨hentry, hlater⟩ := List.forall_mem_cons.mp hset
    have hmember : Table.member ≠ .lag := by decide
    have hnames := (retains_applyEntry e hmember entry).names
    unfold held
    dsimp only
    have hsame : isEarly (e.applyEntry .member entry).engine = e.isEarly :=
      funext (isEarly_congr hnames)
    rw [waits_eq_isEarly hentry hlater, ih _ hlater, hsame, List.filter_cons]
    split <;> rfl

/-! ## The round of a table -/

/-- What is applied when a table has its turn, and the queue after it. -/
def round (e : Engine) (table : Table) (after : Queue Entry) : List Action :=
  .requeue table (e.queue table).drain.2 ::
    (e.queue table).drain.1.map (.apply table) ++ [.requeue table after]

/-- The table has its turn with an empty queue. -/
def opened (e : Engine) (table : Table) : Engine := e.withQueue (e.queue table).drain.2 table

theorem queue_withQueue_of_ne {t : Table} (q : Queue Entry) (h : t ≠ table) :
    (e.withQueue q table).queue t = e.queue t := by
  cases table <;> cases t <;> first | rfl | exact absurd rfl h

theorem eventQueue_withQueue (q : Queue Entry) :
    (e.withQueue q table).eventQueue = e.eventQueue := by
  cases table <;> rfl

theorem index_withQueue (q : Queue Entry) :
    (e.withQueue q table).lags.index = e.lags.index := by
  cases table <;> rfl

section
variable (h : e.Stable) (hq : (e.queue table).Merged)
include h hq

/-- A table has its turn: all entries are applied once, and what waits refills the queue. -/
theorem Coherent.workTable_eq : (e.workTable table).1 =
    ((e.opened table).acts ((e.queue table).drain.1.map (.apply table))).1.withQueue
      ((e.queue table).refill (held table (e.opened table) (e.queue table).drain.1)) table := by
  have hopened : (e.opened table).Stable := h.withQueue _ table
  obtain ⟨hactions, hheld⟩ := hopened.entryActions_eq table [] hq.precedes (by simp)
  have hacts := acts_entryActions table (e.opened table) [] (e.queue table).drain.1
  have hqueue := queue_eq_of_queues
    (queues_acts_apply (e.opened table) table (e.queue table).drain.1) table
  have hwork : (e.workTable table).1 =
      (Engine.applyEntries table (e.opened table) [] (e.queue table).drain.1).1.1.withQueue
        ((Engine.applyEntries table (e.opened table) [] (e.queue table).drain.1).2.foldr
          (fun entry q => q.retry entry)
          ((Engine.applyEntries table (e.opened table) [] (e.queue table).drain.1).1.1.queue table))
        table := rfl
  have hempty : (e.opened table).queue table = (e.queue table).drain.2 := withQueue_queue _ _ _
  rw [hactions] at hacts
  rw [hwork, ← hacts, hheld, hqueue, List.nil_append, hempty,
    Queue.foldr_retry (hopened.pairwise_held hq.precedes)]

theorem Coherent.queue_workTable : (e.workTable table).1.queue table =
    (e.queue table).refill (held table (e.opened table) (e.queue table).drain.1) := by
  rw [h.workTable_eq hq, withQueue_queue]

theorem Coherent.tableActions_eq :
    e.tableActions table = e.round table ((e.workTable table).1.queue table) := by
  have hopened : (e.opened table).Stable := h.withQueue _ table
  obtain ⟨hactions, -⟩ := hopened.entryActions_eq table [] hq.precedes (by simp)
  unfold tableActions round
  dsimp only
  rw [← opened, hactions]

theorem Coherent.queue_workTable_of_ne {t : Table} (hne : t ≠ table) :
    (e.workTable table).1.queue t = e.queue t := by
  rw [h.workTable_eq hq, queue_withQueue_of_ne _ hne,
    queue_eq_of_queues (queues_acts_apply _ _ _), opened, queue_withQueue_of_ne _ hne]

theorem Coherent.eventQueue_workTable : (e.workTable table).1.eventQueue = e.eventQueue := by
  rw [h.workTable_eq hq, eventQueue_withQueue, eventQueue_eq_of_queues (queues_acts_apply _ _ _),
    opened, eventQueue_withQueue]

/-- Only the LAG table makes LAGs come or go. -/
theorem Coherent.index_workTable (htable : table ≠ .lag) :
    (e.workTable table).1.lags.index = e.lags.index := by
  rw [h.workTable_eq hq, index_withQueue, (retains_acts_apply _ htable _).names, opened,
    index_withQueue]

theorem Coherent.merged_workTable : ((e.workTable table).1.queue table).Merged := by
  have hopened : (e.opened table).Stable := h.withQueue _ table
  rw [h.queue_workTable hq]
  exact Queue.merged_refill hq.discipline (hopened.pairwise_held hq.precedes)

end

end Engine
end LinkAggregation
