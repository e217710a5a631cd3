import LinkAggregation.Proofs.Engine.Messages

/-!
# Requests as sequences of actions

A request is one action of the engine, or several when it works off the queues. An action applies
one table entry, takes one event, lets time pass or changes a queue. No action tells more than one
thing about a partner, and this one comes before all that the action sends.
-/
namespace LinkAggregation

namespace Queue

theorem mem_flatMap_store {α : Type} {key : String} {entries : List α}
    {groups : List (String × List α)} {x : α}
    (hx : x ∈ (store key entries groups).flatMap Prod.snd) :
    x ∈ entries ∨ x ∈ groups.flatMap Prod.snd := by
  induction groups with
  | nil => simpa [store] using hx
  | cons g rest ih =>
    obtain ⟨k, old⟩ := g
    unfold store at hx
    split at hx
    · obtain hnew | hrest := List.mem_append.mp hx
      · exact .inl hnew
      · exact .inr (List.mem_append_right _ hrest)
    · split at hx
      · exact List.mem_append.mp hx
      · obtain hold | hrest := List.mem_append.mp hx
        · exact .inr (List.mem_append_left _ hold)
        · exact (ih hrest).imp_right (List.mem_append_right _)

theorem mem_drain_of_mem_pending {α : Type} {q : Queue α} {key : String} {x : α}
    (hx : x ∈ q.pending key) : x ∈ q.drain.1 := by
  unfold pending at hx
  cases hfind : q.groups.find? fun g => g.1 == key with
  | none => simp [hfind] at hx
  | some g =>
    rw [hfind] at hx
    exact List.mem_flatMap.mpr ⟨g, List.mem_of_find?_eq_some hfind, hx⟩

/-- Events are never merged, so a queue of events holds what was put into it. -/
theorem mem_drain_push {q : Queue Event} {event x : Event} (hx : x ∈ (q.push event).drain.1) :
    x = event ∨ x ∈ q.drain.1 := by
  have hmerge : ∀ older : Option Event, older.bind (Queued.merge? · event) = none := by
    intro older
    cases older <;> rfl
  have hsupersedes : Queued.supersedes event = false := rfl
  have hstored : x ∈ (store (Queued.key event) (q.pending (Queued.key event) ++ [event])
      q.groups).flatMap Prod.snd := by
    simpa [push, drain, hmerge, hsupersedes] using hx
  obtain hentry | hold := mem_flatMap_store hstored
  · obtain hpending | hnew := List.mem_append.mp hentry
    · exact .inr (mem_drain_of_mem_pending hpending)
    · exact .inl (List.mem_singleton.mp hnew)
  · exact .inr hold

end Queue

namespace Engine
variable {e e' : Engine} {l slot : Nat} {i : Interface} {news news' : List Hearing}
  {name : String} {frame : Frame} {pdu : Lacpdu} {own : Endpoint}

/-! ## Received frames -/

/-- What an interface hears from a frame, if it accepts a LACP message in it. -/
def hearing? (e : Engine) (name : String) (frame : Frame) : Option Hearing := do
  let slot ← e.interfaces.find? name
  let i ← e.interfaces.get? slot
  let own ← e.endpoint? slot
  match Frame.decode frame with
  | .ok (.lacp pdu) =>
    if i.isEnabled && i.protocol.receive.isRunning then some ⟨name, pdu, own⟩ else none
  | _ => none

theorem Inherits.mono (h : e.Inherits news e') (hnews : ∀ n ∈ news, n ∈ news') :
    e.Inherits news' e' where
  maxMembers := h.maxMembers
  eventQueue := h.eventQueue
  memory := by
    intro slot i' hi' partner' hpartner'
    obtain hold | ⟨n, hn, hheard⟩ := h.memory slot i' hi' partner' hpartner'
    · exact .inl hold
    · exact .inr ⟨n, hnews n hn, hheard⟩

theorem Sincere.mono {s : Step} (h : e.Sincere news s) (hnews : ∀ n ∈ news, n ∈ news') :
    e.Sincere news' s :=
  ⟨h.inherits.mono hnews, h.sends⟩

theorem inherits_count (f : Counters → Counters) : e.Inherits [] (e.count slot f) :=
  Inherits.of_modify rfl rfl rfl fun _ _ => ⟨rfl, Protocol.Fades.refl _⟩

theorem sincere_count (f : Counters → Counters) : e.Sincere [] (e.count slot f, []) :=
  Sincere.of_silent (inherits_count f) fun _ _ => List.not_mem_nil

theorem endpoint?_eq {lag : Lag} (hi : e.interfaces.get? slot = some i)
    (hlag : i.lag = some l) (hl : e.lags.get? l = some lag) :
    e.endpoint? slot = some (i.endpoint (e.system.resolve lag.settings) lag.key) := by
  simp [endpoint?, hi, hlag, hl]

theorem endpoint?_count (f : Counters → Counters) (s : Nat) :
    (e.count slot f).endpoint? s = e.endpoint? s := by
  unfold endpoint?
  rw [get?_count]
  cases e.interfaces.get? s with
  | none => rfl
  | some i => rfl

/-- What an interface hears is the only news of an accepted message. -/
theorem inherits_record {p : Protocol} (hi : e.interfaces.get? slot = some i)
    (hname : i.name = name)
    (hheard : ∀ partner, p.heard? = some partner → partner.HeardIn pdu own)
    (hmax : e'.maxMembers = e.maxMembers) (hqueue : e'.eventQueue = e.eventQueue)
    (hmodify : e'.interfaces = e.interfaces.modify slot fun i => { i with protocol := p }) :
    e.Inherits [⟨name, pdu, own⟩] e' where
  maxMembers := hmax
  eventQueue := hqueue
  memory := by
    intro slot' i' hi' partner' hpartner'
    rw [hmodify, Arena.get?_modify] at hi'
    split at hi'
    · next heq =>
      rw [← heq, hi] at hi'
      obtain rfl := Option.some.inj hi'
      exact .inr ⟨_, List.mem_singleton_self _, hname.symm, hheard partner' hpartner'⟩
    · exact .inl ⟨i', partner', hi', rfl, hpartner', Endpoint.FadesTo.refl partner'⟩

theorem Coherent.sincere_receiveLacp (h : e.Stable) (hi : e.interfaces.get? slot = some i)
    (hlag : i.lag = some l) (hname : e.interfaces.find? i.name = some slot)
    (hframe : Frame.decode frame = .ok (.lacp pdu)) :
    e.Sincere (e.hearing? i.name frame).toList (e.receiveLacp slot l i pdu) := by
  have hstable := h.receiveLacp hi hlag pdu
  revert hstable
  unfold Engine.receiveLacp
  split
  · exact fun _ => (sincere_count _).mono fun n hn => absurd hn List.not_mem_nil
  · next hrunning =>
    simp only [Bool.not_eq_true', Bool.not_eq_false] at hrunning
    simp only [endpoint?_count]
    split
    · exact fun _ => (sincere_count _).mono fun n hn => absurd hn List.not_mem_nil
    · next own hown =>
      have hhearing : e.hearing? i.name frame = some ⟨i.name, pdu, own⟩ := by
        simp only [Bool.and_eq_true] at hrunning
        simp [hearing?, hname, hi, hown, hframe, hrunning.1, hrunning.2]
      intro hstable
      rw [hhearing]
      refine Sincere.evaluate ?_ hstable
      have hi' : (e.count slot fun c => { c with received := c.received + 1 }).interfaces.get?
          slot = some (recount slot (fun c => { c with received := c.received + 1 }) slot i) := by
        rw [get?_count, hi]
        rfl
      have hcounted : e.Inherits [] (e.count slot fun c => { c with received := c.received + 1 }) :=
        inherits_count _
      refine hcounted.trans (inherits_record hi' rfl ?_ rfl rfl rfl)
      intro partner hpartner
      have hrecorded := @Protocol.heardIn_record i.protocol slot e.now e.timers own pdu
      unfold Protocol.heard? at hpartner
      split at hpartner
      · obtain rfl := Option.some.inj hpartner
        exact hrecorded
      · simp at hpartner

/-- The answer to a marker is no LACP message. -/
theorem sincere_receiveMarker (marker : Marker) :
    e.Sincere [] (e.receiveMarker slot l i marker) := by
  unfold Engine.receiveMarker
  dsimp only
  split
  · refine ⟨?_, fun name frame pdu hsent hframe => ?_⟩
    · dsimp only
      exact (inherits_count _).next (inherits_count _)
    simp only [List.mem_singleton, Effect.transmit.injEq] at hsent
    rw [hsent.2, Frame.decode_encodeMarker] at hframe
    simp at hframe
  · exact sincere_count _

/-- A frame tells what its interface hears from it, and nothing else. -/
theorem Coherent.sincere_receiveFrame (h : e.Stable) (name : String) (frame : Frame) :
    e.Sincere (e.hearing? name frame).toList (e.receiveFrame name frame).step := by
  have hnothing : ∀ {s : Step}, e.Sincere [] s → e.Sincere (e.hearing? name frame).toList s :=
    fun hs => hs.mono fun n hn => absurd hn List.not_mem_nil
  unfold Engine.receiveFrame
  split
  · exact hnothing (Sincere.refl e)
  · next slot hslot =>
    split
    · exact hnothing (Sincere.refl e)
    · next i hi =>
      have hname : i.name = name := h.interfaces.name_of_find? hslot hi
      split
      · rw [Outcome.step_ok]
        exact hnothing (sincere_count _)
      · rw [Outcome.step_ok]
        exact hnothing (sincere_count _)
      · next hframe hlag =>
        rw [Outcome.step_ok]
        subst hname
        exact h.sincere_receiveLacp hi hlag hslot hframe
      · exact hnothing (sincere_receiveMarker _)

end Engine

/-! ## Actions -/

/-- What requests are made of. -/
inductive Action where
  | apply (table : Table) (entry : Entry)
  | event (event : Event)
  | advanceTo (time : Nat)
  /-- The queue of a table becomes this one. -/
  | requeue (table : Table) (queue : Queue Entry)
  /-- The queue of events becomes this one. -/
  | requeueEvents (queue : Queue Event)
  deriving DecidableEq, Repr

namespace Engine
variable [Clock]

def act (e : Engine) : Action → Step
  | .apply table entry => (e.applyEntry table entry).step
  | .event event => e.applyEvent event
  | .advanceTo time => e.advanceTo time
  | .requeue table queue => (e.withQueue queue table, [])
  | .requeueEvents queue => ({ e with eventQueue := queue }, [])

/-- One action after the other. -/
def acts (e : Engine) (actions : List Action) : Step :=
  actions.foldl (fun (s : Step) a => s.next (·.act a)) (e, [])

/-- The entries that are applied in turn; the others wait. -/
def entryActions (table : Table) (e : Engine) (waiting : List Entry) : List Entry → List Action
  | [] => []
  | entry :: later =>
    if waiting.any (·.key == entry.key) then entryActions table e (waiting ++ [entry]) later
    else
      let o := e.applyEntry table entry
      let waits := match o.error with
        | some error => mustWait error later
        | none => false
      .apply table entry ::
        entryActions table o.engine (if waits then waiting ++ [entry] else waiting) later

/-- The queue of the table is taken, and the entries that wait are put back at the end. -/
def tableActions (e : Engine) (table : Table) : List Action :=
  let (entries, rest) := (e.queue table).drain
  .requeue table rest :: entryActions table (e.withQueue rest table) [] entries ++
    [.requeue table ((e.workTable table).1.queue table)]

def tablesActions (e : Engine) : List Table → List Action
  | [] => []
  | table :: rest => e.tableActions table ++ tablesActions (e.workTable table).1 rest

def eventActions (e : Engine) : List Action :=
  let (events, rest) := e.eventQueue.drain
  .requeueEvents rest :: events.map .event

/-- The actions that a request asks for. -/
def actions (e : Engine) : Request → List Action
  | .apply table entry => [.apply table entry]
  | .setLink interface up => [.event (.link interface up)]
  | .receiveFrame interface frame => [.event (.frame interface frame)]
  | .advanceTo time => [.advanceTo time]
  | .enqueueEntries table entries =>
    match Table.ofName? table with
    | some t => [.requeue t ((e.queue t).pushAll entries)]
    | none => []
  | .enqueueEvent event => [.requeueEvents (e.eventQueue.push event)]
  | .work =>
    e.tablesActions Table.all ++ (e.acts (e.tablesActions Table.all)).1.eventActions

/-! ## The actions of a request are the request -/

@[simp] theorem acts_nil (e : Engine) : e.acts [] = (e, []) := rfl

theorem acts_cons (e : Engine) (a : Action) (rest : List Action) :
    e.acts (a :: rest) = (e.act a).next (·.acts rest) := by
  unfold acts
  rw [List.foldl_cons, foldl_next act]
  rfl

theorem acts_append (e : Engine) (first second : List Action) :
    e.acts (first ++ second) = (e.acts first).next (·.acts second) := by
  induction first generalizing e with
  | nil => simp [Step.next]
  | cons a rest ih => simp [acts_cons, ih, Step.next]

theorem acts_singleton (e : Engine) (a : Action) : e.acts [a] = e.act a := by
  simp [acts_cons, Step.next]

theorem acts_entryActions (table : Table) (e : Engine) (waiting entries : List Entry) :
    e.acts (entryActions table e waiting entries) = (applyEntries table e waiting entries).1 := by
  induction entries generalizing e waiting with
  | nil => rfl
  | cons entry later ih =>
    unfold entryActions applyEntries
    split
    · exact ih e _
    · rw [acts_cons]
      exact congrArg (fun s : Step => (s.1, (e.applyEntry table entry).effects ++ s.2)) (ih _ _)

omit [Clock] in
theorem withQueue_queue (e : Engine) (q : Queue Entry) (table : Table) :
    (e.withQueue q table).queue table = q := by
  cases table <;> rfl

theorem acts_tableActions (e : Engine) (table : Table) :
    e.acts (e.tableActions table) = e.workTable table := by
  unfold tableActions
  simp only [acts_append, acts_cons, acts_entryActions, acts_nil, Step.next, act]
  unfold workTable
  simp [withQueue_queue]

theorem acts_tablesActions (e : Engine) (tables : List Table) :
    e.acts (e.tablesActions tables) =
      tables.foldl (fun (s : Step) table => s.next (·.workTable table)) (e, []) := by
  induction tables generalizing e with
  | nil => rfl
  | cons table rest ih =>
    unfold tablesActions
    rw [acts_append, acts_tableActions, List.foldl_cons, foldl_next workTable]
    simp [Step.next, ih]

theorem acts_eventActions (e : Engine) : e.acts e.eventActions = e.workEvents := by
  unfold eventActions workEvents
  simp only [acts, List.foldl_cons, List.foldl_map]
  rfl

/-- The actions of a request have its outcome. -/
theorem acts_actions (e : Engine) (request : Request) :
    e.acts (e.actions request) = (e.handle request).step := by
  cases request with
  | apply table entry => exact acts_singleton e _
  | setLink interface up => exact acts_singleton e _
  | receiveFrame interface frame => exact acts_singleton e _
  | advanceTo time => exact acts_singleton e _
  | enqueueEntries table entries =>
    dsimp only [actions, handle, enqueueNamed]
    cases Table.ofName? table with
    | some t => exact acts_singleton e _
    | none => rfl
  | enqueueEvent event => exact acts_singleton e _
  | work =>
    dsimp only [actions, handle]
    rw [acts_append, Outcome.step_ok, acts_tablesActions]
    unfold work
    simp only [Step.next, acts_eventActions]

end Engine

/-- The action is about tables only. -/
def Action.isConfiguration : Action → Bool
  | apply .. | requeue .. => true
  | _ => false

namespace Engine

/-! ## What an action tells and sends -/

section
variable {e : Engine}

/-- What is heard in an action. -/
def hearings (e : Engine) : Action → List Hearing
  | .event (.frame name frame) => (e.hearing? name frame).toList
  | _ => []

/-- The queue of events does not change but by the action that is for this. -/
def readied (e : Engine) : Action → Engine
  | .requeueEvents queue => { e with eventQueue := queue }
  | _ => e

theorem Coherent.act (h : e.Stable) (a : Action) : (e.act a).1.Stable := by
  cases a with
  | apply table entry => exact h.applyEntry table entry
  | event event => exact h.applyEvent event
  | advanceTo time => exact h.advanceTo time
  | requeue table queue => exact h.withQueue queue table
  | requeueEvents queue => exact h.of_queues rfl

theorem Coherent.sincere_act (h : e.Stable) (a : Action) :
    (e.readied a).Sincere (e.hearings a) (e.act a) := by
  cases a with
  | apply table entry => exact h.sincere_applyEntry table entry
  | event event =>
    cases event with
    | frame name frame => exact h.sincere_receiveFrame name frame
    | link name up => exact h.sincere_setLink name up
  | advanceTo time => exact h.sincere_advanceTo time
  | requeue table queue =>
    have hsame : e.Inherits [] (e.withQueue queue table) := by
      cases table <;> exact Inherits.of_interfaces rfl rfl rfl
    exact Sincere.of_silent hsame fun _ _ => List.not_mem_nil
  | requeueEvents queue => exact Sincere.refl _

theorem Coherent.acts (h : e.Stable) (actions : List Action) : (e.acts actions).1.Stable := by
  induction actions generalizing e with
  | nil => exact h
  | cons a rest ih =>
    rw [acts_cons]
    exact ih (h.act a)

theorem Coherent.maxMembers_act (h : e.Stable) (a : Action) :
    (e.act a).1.maxMembers = e.maxMembers := by
  have hsame : (e.readied a).maxMembers = e.maxMembers := by
    cases a <;> rfl
  exact (h.sincere_act a).inherits.maxMembers.trans hsame

theorem Coherent.maxMembers_acts (h : e.Stable) (actions : List Action) :
    (e.acts actions).1.maxMembers = e.maxMembers := by
  induction actions generalizing e with
  | nil => rfl
  | cons a rest ih =>
    rw [acts_cons, ← h.maxMembers_act a]
    exact ih (h.act a)

theorem Coherent.maxMembers_handle (h : e.Stable) (request : Request) :
    (e.handle request).engine.maxMembers = e.maxMembers := by
  have hacts := h.maxMembers_acts (e.actions request)
  rw [acts_actions] at hacts
  exact hacts

theorem Coherent.maxMembers_run (h : e.Stable) (requests : List Request) :
    (e.run requests).1.maxMembers = e.maxMembers := by
  unfold Engine.run
  rw [foldl_next_fst]
  dsimp only
  induction requests generalizing e with
  | nil => rfl
  | cons request rest ih =>
    rw [← h.maxMembers_handle request]
    exact ih (h.handle request)

/-! ## The queue of events -/

/-- Configuration does not touch the queue of events. -/
theorem Coherent.eventQueue_acts (h : e.Stable) (actions : List Action)
    (hactions : ∀ a ∈ actions, a.isConfiguration = true) :
    (e.acts actions).1.eventQueue = e.eventQueue := by
  induction actions generalizing e with
  | nil => rfl
  | cons a rest ih =>
    have ha := hactions a List.mem_cons_self
    have hfirst : (e.act a).1.eventQueue = e.eventQueue := by
      have hinherits := (h.sincere_act a).inherits.eventQueue
      cases a <;> first | exact hinherits | simp [Action.isConfiguration] at ha
    rw [acts_cons, ← hfirst]
    exact ih (h.act a) fun b hb => hactions b (List.mem_cons_of_mem a hb)

theorem isConfiguration_of_mem_entryActions {table : Table}
    {waiting entries : List Entry} {a : Action} (ha : a ∈ entryActions table e waiting entries) :
    a.isConfiguration = true := by
  induction entries generalizing e waiting with
  | nil => simp [entryActions] at ha
  | cons entry later ih =>
    unfold entryActions at ha
    split at ha
    · exact ih ha
    · obtain rfl | hlater := List.mem_cons.mp ha
      · rfl
      · exact ih hlater

theorem isConfiguration_of_mem_tablesActions {tables : List Table} {a : Action}
    (ha : a ∈ e.tablesActions tables) : a.isConfiguration = true := by
  induction tables generalizing e with
  | nil => simp [tablesActions] at ha
  | cons table rest ih =>
    obtain hfirst | hrest := List.mem_append.mp ha
    · simp only [tableActions, List.mem_append, List.mem_cons, List.not_mem_nil,
        or_false] at hfirst
      obtain (rfl | hentry) | rfl := hfirst
      · rfl
      · exact isConfiguration_of_mem_entryActions hentry
      · rfl
    · exact ih hrest

end
end Engine

/-! ## The frames that are taken -/

/-- The frames that an action takes or queues are of this kind. -/
def Action.TakesOnly (P : String → Frame → Prop) : Action → Prop
  | event (.frame name frame) => P name frame
  | requeueEvents queue => ∀ name frame, Event.frame name frame ∈ queue.drain.1 → P name frame
  | _ => True

/-- The frames that a request brings are of this kind. -/
def Request.TakesOnly (P : String → Frame → Prop) : Request → Prop
  | receiveFrame name frame | enqueueEvent (.frame name frame) => P name frame
  | _ => True

/-- The frames in the queue are of this kind. -/
def Engine.QueuesOnly (P : String → Frame → Prop) (e : Engine) : Prop :=
  ∀ name frame, Event.frame name frame ∈ e.eventQueue.drain.1 → P name frame

section
variable {P Q : String → Frame → Prop} {e : Engine} {a : Action} {request : Request}

theorem Action.TakesOnly.mono (h : a.TakesOnly P)
    (hPQ : ∀ name frame, P name frame → Q name frame) :
    a.TakesOnly Q := by
  cases a with
  | event event =>
    cases event with
    | frame name frame => exact hPQ name frame h
    | link name up => trivial
  | requeueEvents queue => exact fun name frame hqueued => hPQ name frame (h name frame hqueued)
  | _ => trivial

theorem Request.TakesOnly.mono (h : request.TakesOnly P)
    (hPQ : ∀ name frame, P name frame → Q name frame) : request.TakesOnly Q := by
  cases request with
  | receiveFrame name frame => exact hPQ name frame h
  | enqueueEvent event =>
    cases event with
    | frame name frame => exact hPQ name frame h
    | link name up => trivial
  | _ => trivial

namespace Engine
variable (h : e.Stable) (hqueue : e.QueuesOnly P)
include h hqueue

/-- An action queues what it takes. -/
theorem Coherent.queuesOnly_act (ha : a.TakesOnly P) : (e.act a).1.QueuesOnly P := by
  intro name frame hqueued
  rw [(h.sincere_act a).inherits.eventQueue] at hqueued
  cases a with
  | requeueEvents queue => exact ha name frame hqueued
  | _ => exact hqueue name frame hqueued

/-- A request asks for actions that take what it brings and what is in the queue. -/
theorem Coherent.takesOnly_actions (hrequest : request.TakesOnly P) :
    ∀ a ∈ e.actions request, a.TakesOnly P := by
  intro a ha
  cases request with
  | apply table entry =>
    obtain rfl := List.mem_singleton.mp ha
    trivial
  | setLink name up =>
    obtain rfl := List.mem_singleton.mp ha
    trivial
  | receiveFrame name frame =>
    obtain rfl := List.mem_singleton.mp ha
    exact hrequest
  | advanceTo time =>
    obtain rfl := List.mem_singleton.mp ha
    trivial
  | enqueueEntries table entries =>
    dsimp only [actions] at ha
    split at ha
    · obtain rfl := List.mem_singleton.mp ha
      trivial
    · simp at ha
  | enqueueEvent event =>
    obtain rfl := List.mem_singleton.mp ha
    intro name frame hqueued
    obtain rfl | hold := Queue.mem_drain_push hqueued
    · exact hrequest
    · exact hqueue name frame hold
  | work =>
    obtain htables | hevents := List.mem_append.mp ha
    · have hconfiguration := isConfiguration_of_mem_tablesActions htables
      cases a <;> trivial
    · have hsame : (e.acts (e.tablesActions Table.all)).1.eventQueue = e.eventQueue :=
        h.eventQueue_acts _ fun b hb => isConfiguration_of_mem_tablesActions hb
      simp only [eventActions, hsame] at hevents
      obtain rfl | hevent := List.mem_cons.mp hevents
      · intro name frame hqueued
        simp [Queue.drain] at hqueued
      · obtain ⟨event, hqueued, rfl⟩ := List.mem_map.mp hevent
        cases event with
        | frame name frame => exact hqueue name frame hqueued
        | link name up => trivial

end Engine
end

namespace Engine

/-- The member limit is never changed. -/
theorem maxMembers_reached (system : SystemIdentity) (maxMembers : Nat) (connected : Bool)
    (requests : List Request) :
    (reached system maxMembers connected requests).maxMembers = maxMembers :=
  (stable_new system maxMembers connected).maxMembers_run requests

end Engine
end LinkAggregation
