import LinkAggregation.Engine.Request
import LinkAggregation.Proofs.Engine.Clock
import LinkAggregation.Proofs.Engine.Receive

/-!
# Every reachable engine is stable

A new engine is stable, and every request keeps it so, whether it is granted or fails: the queues
matter to no LAG, and work is a sequence of table entries and events.
-/
namespace LinkAggregation.Engine
variable {e : Engine}

/-! ## The queues -/

theorem Coherent.withQueue (h : e.Stable) (q : Queue Entry) (table : Table) :
    (e.withQueue q table).Stable := by
  cases table <;> exact h.of_queues rfl

theorem Coherent.enqueueEntries (h : e.Stable) (table : Table) (entries : List Entry) :
    (e.enqueueEntries table entries).Stable := h.withQueue _ table

theorem Coherent.enqueueNamed (h : e.Stable) (table : String) (entries : List Entry) :
    (e.enqueueNamed table entries).engine.Stable := by
  unfold Engine.enqueueNamed
  split
  · exact h.enqueueEntries _ entries
  · exact h

theorem Coherent.enqueueEvent (h : e.Stable) (event : Event) : (e.enqueueEvent event).Stable :=
  h.of_queues rfl

/-! ## Pending work -/

theorem Coherent.applyEntries (h : e.Stable) (table : Table) (waiting entries : List Entry) :
    (Engine.applyEntries table e waiting entries).1.1.Stable := by
  induction entries generalizing e waiting with
  | nil => exact h
  | cons entry later ih =>
    unfold Engine.applyEntries
    split
    · exact ih h _
    · exact ih (h.applyEntry table entry) _

theorem Coherent.workTable (h : e.Stable) (table : Table) : (e.workTable table).1.Stable := by
  have hdrained := h.withQueue (e.queue table).drain.2 table
  exact (hdrained.applyEntries table [] (e.queue table).drain.1).withQueue _ table

theorem Coherent.applyEvent (h : e.Stable) (event : Event) : (e.applyEvent event).1.Stable := by
  cases event with
  | frame interface frame => exact h.receiveFrame interface frame
  | link interface up => exact h.setLink interface up

/-- What every operation of a sequence keeps, the sequence keeps. -/
theorem foldl_stable {α : Type} {f : Engine → α → Step} (xs : List α)
    (hf : ∀ (e : Engine) (x : α), e.Stable → (f e x).1.Stable) (h : e.Stable)
    (effects : List Effect) :
    (xs.foldl (fun (s : Step) x => s.next (f · x)) (e, effects)).1.Stable := by
  rw [foldl_next_fst]
  dsimp only
  induction xs generalizing e with
  | nil => exact h
  | cons x rest ih => exact ih (hf e x h)

theorem Coherent.workEvents (h : e.Stable) : e.workEvents.1.Stable := by
  have hdrained : Stable { e with eventQueue := e.eventQueue.drain.2 } := h.of_queues rfl
  exact foldl_stable _ (fun _ event h => h.applyEvent event) hdrained []

theorem Coherent.work (h : e.Stable) : e.work.1.Stable := by
  have htables := foldl_stable Table.all (fun _ table h => h.workTable table) h []
  unfold Engine.work
  rw [next_fst]
  exact htables.workEvents

/-! ## Requests -/

section
variable (system : SystemIdentity) (maxMembers : Nat) (connected : Bool)

@[simp] theorem get?_new (slot : Nat) :
    (Engine.new system maxMembers connected).interfaces.get? slot = none := by
  simp [Engine.new, Arena.get?]

@[simp] theorem get?_lags_new (l : Nat) :
    (Engine.new system maxMembers connected).lags.get? l = none := by
  simp [Engine.new, Arena.get?]

end

theorem stable_new (system : SystemIdentity) (maxMembers : Nat) (connected : Bool) :
    (Engine.new system maxMembers connected).Stable where
  interfaces := Arena.Indexed.empty
  lags := Arena.Indexed.empty
  timers := Timers.wellFormed_empty
  ascending := by
    intro l lag hl
    simp at hl
  members := by
    intro l lag hl
    simp at hl
  live := by
    rintro l slot ⟨i, hi, -⟩
    simp at hi
  owned := by
    intro key hkey
    simp [Engine.new, Timers.deadline?, Assoc.get?] at hkey
  sound := by
    intro l lag hl
    simp at hl
  settled := by
    intro l lag hl
    simp at hl

/-- Every request keeps the engine stable. -/
theorem Coherent.handle (h : e.Stable) (request : Request) : (e.handle request).engine.Stable := by
  cases request with
  | apply table entry => exact h.applyEntry table entry
  | setLink interface up => exact h.setLink interface up
  | receiveFrame interface frame => exact h.receiveFrame interface frame
  | advanceTo time => exact h.advanceTo time
  | enqueueEntries table entries => exact h.enqueueNamed table entries
  | enqueueEvent event => exact h.enqueueEvent event
  | work =>
    dsimp only [Engine.handle, Outcome.ok]
    exact h.work

theorem Coherent.run (h : e.Stable) (requests : List Request) : (e.run requests).1.Stable :=
  foldl_stable requests (fun _ request h => h.handle request) h []

/-! ## Reachable engines -/

/-- What becomes of a new engine after these requests. -/
def reached [Clock] (system : SystemIdentity) (maxMembers : Nat) (connected : Bool)
    (requests : List Request) : Engine :=
  ((Engine.new system maxMembers connected).run requests).1

section
variable (system : SystemIdentity) (maxMembers : Nat) (connected : Bool) (requests : List Request)

theorem stable_reached : (reached system maxMembers connected requests).Stable :=
  (stable_new system maxMembers connected).run requests

/-- No request leaves a LAG to be evaluated: another evaluation changes nothing in the engine and
has no effect. -/
theorem evaluate_reached (l : Nat) :
    (reached system maxMembers connected requests).evaluate l =
      (reached system maxMembers connected requests, []) := by
  have hstable := stable_reached system maxMembers connected requests
  cases hl : (reached system maxMembers connected requests).lags.get? l with
  | none => exact evaluate_of_not_live hl
  | some lag => exact (hstable.settled l lag hl id).evaluate_eq hl

end

end LinkAggregation.Engine
