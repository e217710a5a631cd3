import LinkAggregation.Proofs.Engine.Rounds

/-!
# Pending work is worked off

Work takes all that is pending and applies it once: each table has its turn, in the order of keys,
and then the events. Only SETs of members are left, one for a key, and after another round these
wait for LAGs that are not there. They wait without being noticed, and as soon as their LAGs are
there the next round applies or rejects them.
-/
namespace LinkAggregation

/-- Neither work is asked for nor are entries of members queued. -/
def Request.isAside : Request → Bool
  | .work => false
  | .enqueueEntries table _ => Table.ofName? table != some .member
  | _ => true

namespace Engine

/-- What work does: each table has its turn, then the events have theirs. -/
def plan (e : Engine) : List Action :=
  Table.all.flatMap (fun table => e.round table (e.work.1.queue table)) ++ e.eventActions

/-- The engine when the members have their turn. -/
def memberStage (e : Engine) : Engine :=
  ((e.workTable .system).1.workTable .lag).1.opened .member

/-- The outcome of a member's entry when those before it have been applied. -/
def trial (e : Engine) (before : List Entry) (entry : Entry) : Outcome :=
  (e.memberStage.acts (before.map (.apply .member))).1.applyEntry .member entry

/-- What is pending is applied once, in order, and at most waits. -/
structure WorksOff (e : Engine) : Prop where
  /-- The entries of a table come by key, and those of a key as they are in the queue. -/
  ascending : ∀ table, (e.queue table).drain.1.Pairwise (·.key ≤ ·.key)
  inOrder : ∀ table key,
    (e.queue table).drain.1.filter (·.key = key) = (e.queue table).pending key
  /-- Every entry and every event is applied once, in its turn. -/
  once : e.work = e.acts e.plan
  emptied : ∀ table, table ≠ .member →
    (e.work.1.queue table).drain.1 = [] ∧ (e.work.1.queue table).hasPending = false
  eventless : e.work.1.eventQueue.drain.1 = [] ∧ e.work.1.eventQueue.hasPending = false
  /-- Exactly those entries of members wait that came too early. -/
  waiting : ∀ entry, entry ∈ e.work.1.memberQueue.drain.1 ↔
    ∃ before after, e.memberQueue.drain.1 = before ++ entry :: after ∧
      (e.trial before entry).waits after = true
  sets : ∀ entry ∈ e.work.1.memberQueue.drain.1, entry.operation = .set
  single : ∀ key, (e.work.1.memberQueue.pending key).length ≤ 1

/-- All that is pending waits for LAGs. -/
structure AwaitsLags (e : Engine) : Prop where
  early : ∀ entry ∈ e.memberQueue.drain.1, entry.operation = .set ∧
    ∃ lag interface, memberKey? entry.key = some (lag, interface) ∧ e.lags.find? lag = none
  /-- As long as nothing else is asked for, work does nothing. -/
  idle : e.work = (e, [])
  /-- Whatever else is asked for, the entries wait. When work comes, those are left whose LAGs are
  still not there; the others have been applied or rejected. -/
  resumed : ∀ requests : List Request, (∀ r ∈ requests, r.isAside = true) →
    (e.run requests).1.memberQueue = e.memberQueue ∧
      ∀ before entry after lag interface, e.memberQueue.drain.1 = before ++ entry :: after →
        memberKey? entry.key = some (lag, interface) →
        match (e.run requests).1.work.1.lags.find? lag with
        | none => entry ∈ (e.run requests).1.work.1.memberQueue.drain.1
        | some _ => entry ∉ (e.run requests).1.work.1.memberQueue.drain.1 ∧
          ((e.run requests).1.trial before entry).waits after = false

/-- All queues are in order. -/
structure Orderly (e : Engine) : Prop where
  tables : ∀ table, (e.queue table).Merged
  events : e.eventQueue.Grouped

variable {e e' : Engine} {table t : Table} {tables : List Table}

/-! ## Several tables in turn -/

/-- The engine after these tables have had their turn. -/
def worked (e : Engine) (tables : List Table) : Engine :=
  tables.foldl (fun e table => (e.workTable table).1) e

/-- The members and the ports have their turns after the system and the LAGs. -/
theorem worked_all (e : Engine) : e.worked Table.all =
    (((e.worked [.system, .lag]).workTable .member).1.workTable .port).1 := rfl

theorem memberStage_eq (e : Engine) :
    e.memberStage = (e.worked [.system, .lag]).opened .member := rfl

theorem work_eq (e : Engine) : e.work.1 = (e.worked Table.all).workEvents.1 := by
  unfold work worked
  rw [next_fst, foldl_next_fst workTable]

theorem Orderly.of_queues (h : e.Orderly) (hqueues : e'.queues = e.queues) : e'.Orderly where
  tables := fun table => queue_eq_of_queues hqueues table ▸ h.tables table
  events := eventQueue_eq_of_queues hqueues ▸ h.events

section
variable (h : e.Stable) (ho : e.Orderly)
include h ho

theorem Orderly.workTable (table : Table) : (e.workTable table).1.Orderly where
  tables := by
    intro t
    by_cases ht : t = table
    · subst ht
      exact h.merged_workTable (ho.tables t)
    · rw [h.queue_workTable_of_ne (ho.tables table) ht]
      exact ho.tables t
  events := by
    rw [h.eventQueue_workTable (ho.tables table)]
    exact ho.events

theorem Orderly.worked (tables : List Table) :
    (e.worked tables).Stable ∧ (e.worked tables).Orderly ∧
      (e.worked tables).eventQueue = e.eventQueue := by
  induction tables generalizing e with
  | nil => exact ⟨h, ho, rfl⟩
  | cons table rest ih =>
    obtain ⟨hstable, horderly, hevents⟩ := ih (h.workTable table) (ho.workTable h table)
    exact ⟨hstable, horderly, hevents.trans (h.eventQueue_workTable (ho.tables table))⟩

theorem Orderly.queue_worked_of_not_mem (ht : t ∉ tables) :
    (e.worked tables).queue t = e.queue t := by
  induction tables generalizing e with
  | nil => rfl
  | cons table rest ih =>
    obtain ⟨hne, hrest⟩ : t ≠ table ∧ t ∉ rest := by simpa using ht
    exact (ih (h.workTable table) (ho.workTable h table) hrest).trans
      (h.queue_workTable_of_ne (ho.tables table) hne)

/-- Each table has its own turn. -/
theorem Orderly.tablesActions_eq (hnodup : tables.Nodup) :
    e.tablesActions tables =
      tables.flatMap fun table => e.round table ((e.worked tables).queue table) := by
  induction tables generalizing e with
  | nil => rfl
  | cons table rest ih =>
    obtain ⟨hnew, hrest⟩ := List.nodup_cons.mp hnodup
    have hstable := h.workTable table
    have horderly := ho.workTable h table
    have hfirst := horderly.queue_worked_of_not_mem hstable hnew
    unfold tablesActions
    rw [h.tableActions_eq (ho.tables table), ih hstable horderly hrest, List.flatMap_cons, ← hfirst]
    congr 1
    refine List.flatMap_congr fun t ht => ?_
    have hne : t ≠ table := fun heq => hnew (heq ▸ ht)
    unfold round
    rw [h.queue_workTable_of_ne (ho.tables table) hne]
    rfl

/-- After its turn a table has what waits. -/
theorem Orderly.queue_worked (ht : t ∈ tables) (hnodup : tables.Nodup) :
    ∃ e' : Engine, e'.Stable ∧
      (e.worked tables).queue t = (e.queue t).refill (held t e' (e.queue t).drain.1) := by
  induction tables generalizing e with
  | nil => simp at ht
  | cons table rest ih =>
    obtain ⟨hnew, hrest⟩ := List.nodup_cons.mp hnodup
    have hstable := h.workTable table
    have horderly := ho.workTable h table
    obtain rfl | ht := List.mem_cons.mp ht
    · refine ⟨e.opened t, h.withQueue _ t, ?_⟩
      rw [← h.queue_workTable (ho.tables t)]
      exact horderly.queue_worked_of_not_mem hstable hnew
    · have hne : t ≠ table := fun heq => hnew (heq ▸ ht)
      obtain ⟨e', hstable', hqueue⟩ := ih hstable horderly ht hrest
      rw [h.queue_workTable_of_ne (ho.tables table) hne] at hqueue
      exact ⟨e', hstable', hqueue⟩

end

/-! ## Work -/

theorem Coherent.memberStage (h : e.Stable) : e.memberStage.Stable :=
  ((h.workTable .system).workTable .lag).withQueue _ .member

/-- Events queue nothing, and no LAG comes or goes. -/
theorem retains_workEvents (e : Engine) :
    Retains { e with eventQueue := e.eventQueue.drain.2 } e.workEvents.1 :=
  Retains.foldl_next retains_applyEvent _ _ _

theorem queue_workEvents (e : Engine) (table : Table) :
    e.workEvents.1.queue table = e.queue table := by
  rw [queue_eq_of_queues (retains_workEvents e).queues]
  cases table <;> rfl

section
variable (h : e.Stable) (ho : e.Orderly)
include h ho

theorem Orderly.eventQueue_work : e.work.1.eventQueue = e.eventQueue.drain.2 := by
  obtain ⟨-, -, hevents⟩ := ho.worked h Table.all
  rw [work_eq, eventQueue_eq_of_queues (retains_workEvents _).queues, ← hevents]

theorem Orderly.work_eq_acts : e.work = e.acts e.plan := by
  obtain ⟨-, -, hevents⟩ := ho.worked h Table.all
  have hacts : e.acts (e.actions .work) = e.work := by
    rw [acts_actions]
    exact Outcome.step_ok e.work
  have hfinal : ∀ table, (e.worked Table.all).queue table = e.work.1.queue table := by
    intro table
    rw [work_eq, queue_workEvents]
  have hengine : (e.acts (e.tablesActions Table.all)).1 = e.worked Table.all := by
    unfold Engine.worked
    rw [acts_tablesActions, foldl_next_fst Engine.workTable]
  have hlast : (e.worked Table.all).eventActions = e.eventActions := by
    unfold eventActions
    rw [hevents]
  have hplan : e.actions .work = e.plan := by
    unfold actions plan
    dsimp only
    rw [hengine, hlast, ho.tablesActions_eq h (by decide)]
    simp only [hfinal]
  rw [← hplan]
  exact hacts.symm

/-- Nothing is left but entries of members. -/
theorem Orderly.queue_work_of_ne (hne : table ≠ .member) :
    e.work.1.queue table = (e.queue table).refill [] := by
  have hall : table ∈ Table.all := by cases table <;> decide
  obtain ⟨e', hstable, hqueue⟩ := ho.queue_worked h hall (by decide)
  have hnone : held table e' (e.queue table).drain.1 = [] := by
    refine List.eq_nil_iff_forall_not_mem.mpr fun entry hentry => ?_
    exact hne (hstable.of_mem_held hentry).1
  rw [work_eq, queue_workEvents, hqueue, hnone]

/-- The members that wait have been tried in their turn. -/
theorem Orderly.memberQueue_work : e.work.1.memberQueue =
    e.memberQueue.refill (held .member e.memberStage e.memberQueue.drain.1) := by
  obtain ⟨hstable, horderly, -⟩ := ho.worked h [.system, .lag]
  have hmember : (e.worked [.system, .lag]).queue .member = e.memberQueue :=
    ho.queue_worked_of_not_mem h (by decide)
  have hturn := hstable.queue_workTable (horderly.tables .member)
  have hport := (hstable.workTable .member).queue_workTable_of_ne
    ((horderly.workTable hstable .member).tables .port) (show Table.member ≠ .port by decide)
  have hwork : e.work.1.queue .member =
      (((e.worked [.system, .lag]).workTable .member).1.workTable .port).1.queue .member := by
    rw [work_eq, queue_workEvents, worked_all]
  rw [hport, hturn, hmember] at hwork
  exact hwork

/-- After the members have had their turn no LAG comes or goes. -/
theorem Orderly.index_work : e.work.1.lags.index = e.memberStage.lags.index := by
  obtain ⟨hstable, horderly, -⟩ := ho.worked h [.system, .lag]
  have hmember := hstable.index_workTable (horderly.tables .member) (by decide)
  have hport := (hstable.workTable .member).index_workTable
    ((horderly.workTable hstable .member).tables .port) (show Table.port ≠ .lag by decide)
  rw [work_eq, (retains_workEvents _).names]
  dsimp only
  rw [worked_all, hport, hmember, memberStage_eq, opened, index_withQueue]

theorem Orderly.work : e.work.1.Orderly where
  tables := by
    intro table
    rw [work_eq, queue_workEvents]
    obtain ⟨-, horderly, -⟩ := ho.worked h Table.all
    exact horderly.tables table
  events := by
    rw [ho.eventQueue_work h]
    exact Queue.grouped_empty _ _

/-- Of SETs of members, those are left whose LAGs are not there. -/
theorem Orderly.drain_work_of_sets (hset : ∀ entry ∈ e.memberQueue.drain.1, entry.operation = .set) :
    e.work.1.memberQueue.drain.1 = e.memberQueue.drain.1.filter e.work.1.isEarly := by
  have hsame : e.work.1.isEarly = e.memberStage.isEarly :=
    funext (isEarly_congr (ho.index_work h))
  rw [ho.memberQueue_work h, Queue.drain_refill, held_of_sets _ hset, hsame]

/-- Every SET that is left has been tried, and waits for its LAG. -/
theorem Orderly.sets_work : ∀ entry ∈ e.work.1.memberQueue.drain.1, entry.operation = .set := by
  intro entry hentry
  rw [ho.memberQueue_work h, Queue.drain_refill] at hentry
  exact (h.memberStage.of_mem_held hentry).2

theorem Orderly.worksOff : e.WorksOff where
  ascending := fun table => (ho.tables table).pairwise_drain
  inOrder := fun table key => (ho.tables table).filter_drain key
  once := ho.work_eq_acts h
  emptied := by
    intro table hne
    rw [ho.queue_work_of_ne h hne]
    exact ⟨rfl, rfl⟩
  eventless := by
    rw [ho.eventQueue_work h]
    exact ⟨rfl, rfl⟩
  waiting := by
    intro entry
    rw [ho.memberQueue_work h, Queue.drain_refill]
    exact mem_held
  sets := ho.sets_work h
  single := ((ho.work h).tables .member).length_pending_le_one (ho.sets_work h)

end

/-! ## Work with nothing to do -/

/-- Entries whose LAGs are not there all wait. -/
theorem applyEntries_idle (waiting : List Entry) {entries : List Entry}
    (hidle : ∀ entry ∈ entries, ∃ lag, e.applyEntry table entry = .fail e (.lagNotFound lag)) :
    applyEntries table e waiting entries = ((e, []), waiting ++ entries) := by
  induction entries generalizing waiting with
  | nil => simp [applyEntries]
  | cons entry later ih =>
    obtain ⟨⟨lag, hfail⟩, hlater⟩ := List.forall_mem_cons.mp hidle
    unfold applyEntries
    split
    · rw [ih _ hlater, List.append_assoc]
      rfl
    · rw [hfail]
      simp only [Outcome.fail, mustWait, Error.isRetryable, if_true]
      rw [ih _ hlater, List.append_assoc]
      rfl

theorem workTable_idle (hq : (e.queue table).Merged)
    (hset : ∀ entry ∈ (e.queue table).drain.1, entry.operation = .set)
    (hidle : ∀ entry ∈ (e.queue table).drain.1, ∃ lag,
      (e.opened table).applyEntry table entry = .fail (e.opened table) (.lagNotFound lag)) :
    e.workTable table = (e, []) := by
  have hentries := applyEntries_idle [] hidle
  have hempty : (e.opened table).queue table = (e.queue table).drain.2 := withQueue_queue _ _ _
  have hrefill : (e.queue table).drain.1.foldr (fun entry q => q.retry entry)
      (e.queue table).drain.2 = e.queue table := by
    rw [Queue.foldr_retry (hq.pairwise_key_lt hset), hq.refill_drain hset]
  have hclosed : (e.opened table).withQueue (e.queue table) table = e := by
    cases table <;> rfl
  unfold workTable
  dsimp only
  rw [← opened, hentries]
  dsimp only
  rw [List.nil_append, hempty, hrefill, hclosed]

theorem work_idle (htables : ∀ table, e.workTable table = (e, []))
    (hevents : e.eventQueue.drain = ([], e.eventQueue)) : e.work = (e, []) := by
  have hall : Table.all.foldl (fun (s : Step) table => s.next (·.workTable table)) (e, []) =
      (e, []) := by
    simp [Table.all, Step.next, htables]
  unfold work
  rw [hall]
  simp [Step.next, workEvents, hevents]

/-! ## Requests -/

theorem orderly_withQueue (ho : e.Orderly) {q : Queue Entry} (hq : q.Merged) (table : Table) :
    (e.withQueue q table).Orderly where
  tables := by
    intro t
    by_cases ht : t = table
    · rw [ht, withQueue_queue]
      exact hq
    · rw [queue_withQueue_of_ne q ht]
      exact ho.tables t
  events := by
    rw [eventQueue_withQueue]
    exact ho.events

theorem merged_pushAll {q : Queue Entry} (hq : q.Merged) (entries : List Entry) :
    (q.pushAll entries).Merged := by
  unfold Queue.pushAll
  induction entries generalizing q with
  | nil => exact hq
  | cons entry rest ih => exact ih (hq.push entry)

theorem orderly_new (system : SystemIdentity) (maxMembers : Nat) (connected : Bool) :
    (Engine.new system maxMembers connected).Orderly where
  tables := by
    intro table
    cases table <;> exact Queue.merged_empty _
  events := Queue.grouped_empty _ _

section
variable (h : e.Stable) (ho : e.Orderly)
include h ho

theorem Orderly.handle (request : Request) : (e.handle request).engine.Orderly := by
  obtain hqueues | ⟨table, entries, rfl⟩ | ⟨event, rfl⟩ | rfl := queues_handle e request
  · exact ho.of_queues hqueues
  · dsimp only [Engine.handle, enqueueNamed]
    cases Table.ofName? table with
    | none => exact ho
    | some t => exact orderly_withQueue ho (merged_pushAll (ho.tables t) entries) t
  · exact ⟨fun table => ho.tables table, ho.events.push event fun _ _ hmerge => by cases hmerge⟩
  · dsimp only [Engine.handle, Outcome.ok]
    exact ho.work h

theorem Orderly.run (requests : List Request) : (e.run requests).1.Orderly := by
  unfold Engine.run
  rw [foldl_next_fst]
  dsimp only
  induction requests generalizing e with
  | nil => exact ho
  | cons request rest ih => exact ih (h.handle request) (ho.handle h request)

end

/-- What is asked for in between leaves the entries of members alone. -/
theorem memberQueue_handle {request : Request} (haside : request.isAside = true) :
    (e.handle request).engine.memberQueue = e.memberQueue := by
  obtain hqueues | ⟨table, entries, rfl⟩ | ⟨event, rfl⟩ | rfl := queues_handle e request
  · exact queue_eq_of_queues hqueues .member
  · dsimp only [handle, enqueueNamed]
    cases ht : Table.ofName? table with
    | none => rfl
    | some t =>
      have hne : Table.member ≠ t := by
        rintro rfl
        simp [Request.isAside, ht] at haside
      exact queue_withQueue_of_ne _ hne
  · rfl
  · simp [Request.isAside] at haside

theorem memberQueue_run {requests : List Request} (haside : ∀ r ∈ requests, r.isAside = true) :
    (e.run requests).1.memberQueue = e.memberQueue := by
  unfold run
  rw [foldl_next_fst]
  dsimp only
  induction requests generalizing e with
  | nil => rfl
  | cons request rest ih =>
    obtain ⟨hrequest, hrest⟩ := List.forall_mem_cons.mp haside
    exact (ih hrest).trans (memberQueue_handle hrequest)

/-! ## Members that wait for their LAGs -/

section
variable (h : e.Stable) (ho : e.Orderly)
include h ho

theorem Orderly.awaitsLags (hset : ∀ entry ∈ e.memberQueue.drain.1, entry.operation = .set)
    (hearly : ∀ entry ∈ e.memberQueue.drain.1, e.isEarly entry = true)
    (htables : ∀ table, table ≠ .member → (e.queue table).drain.1 = [])
    (hevents : e.eventQueue.drain = ([], e.eventQueue)) : e.AwaitsLags where
  early := fun entry hentry => ⟨hset entry hentry, isEarly_iff.mp (hearly entry hentry)⟩
  idle := by
    refine work_idle (fun table => ?_) hevents
    by_cases hmember : table = .member
    · subst hmember
      refine workTable_idle (ho.tables .member) hset fun entry hentry => ?_
      have hopened : (e.opened .member).isEarly entry = true := by
        unfold opened
        rw [isEarly_congr (index_withQueue _)]
        exact hearly entry hentry
      obtain ⟨key, operation, fields⟩ := entry
      obtain rfl : operation = .set := hset _ hentry
      exact memberSet_of_isEarly hopened
    · have hnone := htables table hmember
      exact workTable_idle (ho.tables table) (by simp [hnone]) (by simp [hnone])
  resumed := by
    intro requests haside
    have hqueue := memberQueue_run (e := e) haside
    have hstable := h.run requests
    have horderly := ho.run h requests
    generalize (e.run requests).1 = e' at hqueue hstable horderly ⊢
    refine ⟨hqueue, ?_⟩
    intro before entry after lag interface hcut hkey
    rw [← hqueue] at hset hcut
    have hdrain := horderly.drain_work_of_sets hstable hset
    have hentry : entry ∈ e'.memberQueue.drain.1 := by simp [hcut]
    have hisEarly : e'.work.1.isEarly entry = (e'.work.1.lags.find? lag).isNone := by
      simp [isEarly, hkey]
    split
    · next hnone =>
      rw [hdrain]
      exact List.mem_filter.mpr ⟨hentry, by rw [hisEarly, hnone]; rfl⟩
    · next l hsome =>
      have hthere : e'.work.1.isEarly entry = false := by
        rw [hisEarly, hsome]
        rfl
      refine ⟨?_, ?_⟩
      · rw [hdrain]
        intro hmem
        rw [(List.mem_filter.mp hmem).2] at hthere
        cases hthere
      · have hlater : ∀ entry ∈ after, entry.operation = .set :=
          fun later hmem => hset later (by simp [hcut, hmem])
        have hmember : Table.member ≠ .lag := by decide
        have hnames := (retains_acts_apply e'.memberStage hmember before).names
        unfold trial
        rw [waits_eq_isEarly (hset entry hentry) hlater, isEarly_congr hnames,
          ← isEarly_congr (horderly.index_work hstable)]
        exact hthere

end

/-- Whatever an engine has been asked, work takes what is pending, applies it once and in order, and
leaves only SETs of members. After the next work these wait for LAGs that are not there. -/
theorem worksOff_reached (system : SystemIdentity) (maxMembers : Nat) (connected : Bool)
    (requests : List Request) :
    (reached system maxMembers connected requests).WorksOff ∧
      ∀ between : List Request, (∀ r ∈ between, r.isAside = true) →
        ((reached system maxMembers connected requests).work.1.run between).1.work.1.AwaitsLags := by
  have hstable := stable_reached system maxMembers connected requests
  have horderly : (reached system maxMembers connected requests).Orderly :=
    (orderly_new system maxMembers connected).run (stable_new system maxMembers connected) requests
  generalize reached system maxMembers connected requests = e at hstable horderly ⊢
  refine ⟨horderly.worksOff hstable, ?_⟩
  intro between haside
  have hsets := horderly.sets_work hstable
  rw [← memberQueue_run haside] at hsets
  have hstable' := hstable.work.run between
  have horderly' := (horderly.work hstable).run hstable.work between
  generalize (e.work.1.run between).1 = e' at hsets hstable' horderly' ⊢
  refine (horderly'.work hstable').awaitsLags hstable'.work (horderly'.sets_work hstable') ?_ ?_ ?_
  · intro entry hentry
    rw [horderly'.drain_work_of_sets hstable' hsets] at hentry
    exact (List.mem_filter.mp hentry).2
  · intro table hne
    rw [horderly'.queue_work_of_ne hstable' hne]
    exact Queue.drain_refill _ []
  · rw [horderly'.eventQueue_work hstable']
    exact Queue.drain_drain _

/-- A member that comes before its LAG waits, whatever its link does. Once its LAG is there, the next
work leaves nothing behind. -/
theorem worksOff_newcomer :
    let newcomer : Entry := ⟨"PortChannel1|Ethernet0", .set, []⟩
    let between : List Request := [.setLink "Ethernet0" true]
    let e := reached {} 8 true [.enqueueEntries "PORTCHANNEL_MEMBER" [newcomer]]
    let e' := (e.work.1.run between).1.work.1
    (∀ r ∈ between, r.isAside = true) ∧ e'.AwaitsLags ∧ e'.memberQueue.drain.1 = [newcomer] ∧
      (e'.run [.apply .lag ⟨"PortChannel1", .set, []⟩]).1.work.1.memberQueue.drain.1 = [] := by
  intro newcomer between e e'
  have haside : ∀ r ∈ between, r.isAside = true := by decide +kernel
  have hwaits : e'.memberQueue.drain.1 = [newcomer] := by decide +kernel
  have hjoined : (e'.run [.apply .lag ⟨"PortChannel1", .set, []⟩]).1.work.1.memberQueue.drain.1 =
      [] := by
    decide +kernel
  exact ⟨haside, (worksOff_reached _ _ _ _).2 between haside, hwaits, hjoined⟩

end Engine
end LinkAggregation
