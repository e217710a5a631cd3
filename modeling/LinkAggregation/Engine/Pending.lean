import LinkAggregation.Engine.Receive

/-!
# Pending work

Table entries and events are queued, and `work` applies them: the tables in order, then the
events. An entry that came too early waits in its queue, and entries of the same key wait behind
it.
-/
namespace LinkAggregation.Engine
variable [Clock]

def queue (e : Engine) : Table → Queue Entry
  | .system => e.systemQueue
  | .lag => e.lagQueue
  | .member => e.memberQueue
  | .port => e.portQueue

def withQueue (e : Engine) (q : Queue Entry) : Table → Engine
  | .system => { e with systemQueue := q }
  | .lag => { e with lagQueue := q }
  | .member => { e with memberQueue := q }
  | .port => { e with portQueue := q }

/-- Queues entries of a table. -/
def enqueueEntries (e : Engine) (table : Table) (entries : List Entry) : Engine :=
  e.withQueue ((e.queue table).pushAll entries) table

/-- Queues entries of the table with this name. -/
def enqueueNamed (e : Engine) (table : String) (entries : List Entry) : Outcome :=
  match Table.ofName? table with
  | some t => .ok (e.enqueueEntries t entries, [])
  | none => .fail e (.unknownTable table)

/-- Queues an event. -/
def enqueueEvent (e : Engine) (event : Event) : Engine :=
  { e with eventQueue := e.eventQueue.push event }

/-- Applies one table entry. -/
def applyEntry (e : Engine) (table : Table) (entry : Entry) : Outcome :=
  match table, entry.operation with
  | .system, .set => e.systemSet entry.key entry.fields
  | .system, .del => e.systemDel entry.key
  | .lag, .set => e.lagSet entry.key entry.fields
  | .lag, .del => e.lagDel entry.key
  | .member, .set => e.memberSet entry.key entry.fields
  | .member, .del => e.memberDel entry.key
  | .port, .set => e.portSet entry.key entry.fields
  | .port, .del => e.portDel entry.key

/-- The entry takes this interface out of this LAG. -/
def isRemovalOf (lag interface : String) (entry : Entry) : Bool :=
  entry.operation == .del && memberKey? entry.key == some (lag, interface)

/-- An entry that failed waits if it only came too early: its LAG is not there yet, or one of the
later entries will take its interface out of the other LAG. -/
def mustWait (error : Error) (later : List Entry) : Bool :=
  match error with
  | .interfaceInOtherLag interface lag => later.any (isRemovalOf lag interface)
  | error => error.isRetryable

/-- Applies entries in order and collects those that wait, `waiting` being those so far. -/
def applyEntries (table : Table) (e : Engine) (waiting : List Entry) :
    List Entry → Step × List Entry
  | [] => ((e, []), waiting)
  | entry :: later =>
    if waiting.any (·.key == entry.key) then
      applyEntries table e (waiting ++ [entry]) later
    else
      let o := e.applyEntry table entry
      let waits := match o.error with
        | some error => mustWait error later
        | none => false
      let ((e, effects), waiting) :=
        applyEntries table o.engine (if waits then waiting ++ [entry] else waiting) later
      ((e, o.effects ++ effects), waiting)

/-- Applies the pending entries of a table; those that wait go back to the front. -/
def workTable (e : Engine) (table : Table) : Step :=
  let (entries, rest) := (e.queue table).drain
  let ((e, effects), waiting) := applyEntries table (e.withQueue rest table) [] entries
  (e.withQueue (waiting.foldr (fun entry q => q.retry entry) (e.queue table)) table, effects)

/-- Something happened on an interface. -/
def applyEvent (e : Engine) : Event → Step
  | .frame interface frame => (e.receiveFrame interface frame).step
  | .link interface up => e.setLink interface up

/-- Applies the pending events. -/
def workEvents (e : Engine) : Step :=
  let (events, rest) := e.eventQueue.drain
  events.foldl (fun (s : Step) event => s.next (·.applyEvent event))
    ({ e with eventQueue := rest }, [])

/-- Applies all pending work. -/
def work (e : Engine) : Step :=
  (Table.all.foldl (fun (s : Step) table => s.next (·.workTable table)) (e, [])).next workEvents

/-- Some work is pending. -/
def hasPending (e : Engine) : Bool :=
  Table.all.any (fun table => (e.queue table).hasPending) || e.eventQueue.hasPending

/-- A line for each pending entry and event. -/
def dumpPending (e : Engine) : List String :=
  Table.all.flatMap (fun table => (e.queue table).dump Entry.describe) ++
    e.eventQueue.dump Event.describe

end LinkAggregation.Engine
