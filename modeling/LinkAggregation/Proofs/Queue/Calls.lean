import LinkAggregation.Proofs.Queue.Groups
import Mathlib.Data.List.Sort

/-!
# Queues under any calls

What a key has is decided by the calls on that key. What comes out of the queue is what the keys
have, one after the other, so that it does not matter how calls on different keys are mixed.
-/
namespace LinkAggregation
namespace Queue

/-! ## What comes out of a queue -/

section
variable {α : Type} {q q' : Queue α}

/-- The keys of a queue, in its order. -/
def keys (q : Queue α) : List String := q.groups.map Prod.fst

theorem Stocked.keys_ascending (h : q.Stocked) : q.keys.Pairwise (· < ·) :=
  List.pairwise_map.mpr h.ascending

theorem Stocked.pending_of_mem (h : q.Stocked) {g : String × List α} (hg : g ∈ q.groups) :
    q.pending g.1 = g.2 := by
  have hascending := h.ascending
  rw [pending_eq]
  generalize q.groups = groups at hg hascending
  induction groups with
  | nil => cases hg
  | cons first rest ih =>
    obtain ⟨hfirst, hrest⟩ := List.pairwise_cons.mp hascending
    rw [entriesOf_cons first.1 first.2]
    obtain rfl | hg := List.mem_cons.mp hg
    · exact if_pos rfl
    · rw [if_neg (hfirst g hg).ne]
      exact ih hg hrest

/-- The keys of a queue are those that have entries. -/
theorem Stocked.mem_keys (h : q.Stocked) (key : String) : key ∈ q.keys ↔ q.pending key ≠ [] := by
  constructor
  · intro hkey
    obtain ⟨g, hg, rfl⟩ := List.mem_map.mp hkey
    rw [h.pending_of_mem hg]
    exact h.nonempty g hg
  · intro hne
    obtain ⟨x, hx⟩ := List.exists_mem_of_ne_nil _ hne
    obtain ⟨g, hg, rfl, -⟩ := mem_of_mem_entriesOf hx
    exact List.mem_map_of_mem hg

/-- The entries come out key by key. -/
theorem Stocked.drain_eq (h : q.Stocked) : q.drain.1 = q.keys.flatMap q.pending := by
  rw [keys, List.flatMap_map]
  exact List.flatMap_congr fun g hg => (h.pending_of_mem hg).symm

theorem Stocked.hasPending_iff (h : q.Stocked) : q.hasPending = true ↔ q.drain.1 ≠ [] := by
  rw [hasPending, decide_eq_true_eq, h.count, List.length_pos_iff]

/-- Of two queues whose keys have the same entries the same comes out. -/
theorem Stocked.drain_congr (h : q.Stocked) (h' : q'.Stocked)
    (heq : ∀ key, q.pending key = q'.pending key) : q.drain.1 = q'.drain.1 := by
  have hkeys : q.keys = q'.keys := by
    refine h.keys_ascending.eq_of_mem_iff h'.keys_ascending fun {key} => ?_
    rw [h.mem_keys, h'.mem_keys, heq]
  rw [h.drain_eq, h'.drain_eq, hkeys]
  exact List.flatMap_congr fun key _ => heq key

end

/-! ## Calls -/

/-- What is done with a queue. -/
inductive Call (α : Type) where
  | push (entry : α)
  | pushAll (entries : List α)
  | retry (entry : α)
  | drain
  deriving DecidableEq, Repr

variable {α : Type} [Queued α] {q : Queue α} {key : String} {call : Call α}
  {calls calls' : List (Call α)}

/-- The queue after a call. -/
def perform (q : Queue α) : Call α → Queue α
  | .push entry => q.push entry
  | .pushAll entries => q.pushAll entries
  | .retry entry => q.retry entry
  | .drain => q.drain.2

/-- The queue after calls, one after the other. -/
def after (q : Queue α) (calls : List (Call α)) : Queue α := calls.foldl perform q

theorem after_concat (q : Queue α) (calls : List (Call α)) (call : Call α) :
    q.after (calls ++ [call]) = (q.after calls).perform call := by
  simp [after]

/-! ## Every call keeps the groups in order -/

theorem Stocked.push (h : q.Stocked) (entry : α) : (q.push entry).Stocked := by
  obtain ⟨count, hcount, heq⟩ := exists_push entry (h.length_pending_le _)
  rw [heq]
  exact h.store Discipline.combine_ne_nil hcount

theorem Stocked.pushAll (h : q.Stocked) (entries : List α) : (q.pushAll entries).Stocked := by
  induction entries generalizing q with
  | nil => exact h
  | cons entry rest ih => exact ih (h.push entry)

theorem Stocked.retry (h : q.Stocked) (entry : α) : (q.retry entry).Stocked := by
  refine h.store (List.cons_ne_nil _ _) ?_
  simp only [List.length_cons]
  omega

theorem Stocked.perform (h : q.Stocked) (call : Call α) : (q.perform call).Stocked := by
  cases call with
  | push entry => exact h.push entry
  | pushAll entries => exact h.pushAll entries
  | retry entry => exact h.retry entry
  | drain => exact stocked_empty q.name q.discipline

theorem Stocked.after (h : q.Stocked) (calls : List (Call α)) : (q.after calls).Stocked := by
  induction calls generalizing q with
  | nil => exact h
  | cons call rest ih => exact ih (h.perform call)

/-- Entries stay under their key. -/
def Merging (α : Type) [Queued α] : Prop :=
  ∀ older newer merged : α, Queued.merge? older newer = some merged →
    Queued.key merged = Queued.key older

theorem Grouped.perform (h : q.Grouped) (hmerge : Merging α) (call : Call α) :
    (q.perform call).Grouped := by
  cases call with
  | push entry => exact h.push entry fun older merged => hmerge older entry merged
  | pushAll entries =>
    show (entries.foldl Queue.push q).Grouped
    induction entries generalizing q with
    | nil => exact h
    | cons entry rest ih => exact ih (h.push entry fun older merged => hmerge older entry merged)
  | retry entry =>
    refine h.store (List.cons_ne_nil _ _) ?_ ?_
    · exact List.forall_mem_cons.mpr ⟨rfl, h.key_of_pending _⟩
    · simp only [List.length_cons]
      omega
  | drain => exact grouped_empty q.name q.discipline

theorem Grouped.after (h : q.Grouped) (hmerge : Merging α) (calls : List (Call α)) :
    (q.after calls).Grouped := by
  induction calls generalizing q with
  | nil => exact h
  | cons call rest ih => exact ih (h.perform hmerge call)

/-! ## What the calls on a key are -/

/-- The part of a call that a key has to do with. -/
def Call.on (key : String) : Call α → List (Call α)
  | .push entry => if Queued.key entry = key then [.push entry] else []
  | .pushAll entries => (entries.filter (Queued.key · = key)).map .push
  | .retry entry => if Queued.key entry = key then [.retry entry] else []
  | .drain => [.drain]

/-- The calls on a key. -/
def callsOn (key : String) (calls : List (Call α)) : List (Call α) := calls.flatMap (Call.on key)

end Queue

/-- What becomes of the entries of a key in a call on it. -/
def Discipline.serve {α : Type} [Queued α] (discipline : Discipline) (old : List α) :
    Queue.Call α → List α
  | .push entry => discipline.combine old entry
  | .pushAll entries => entries.foldl discipline.combine old
  | .retry entry => entry :: old
  | .drain => []

namespace Queue
variable {α : Type} [Queued α] {q : Queue α}

theorem discipline_push (q : Queue α) (entry : α) :
    (q.push entry).discipline = q.discipline := by
  unfold Queue.push
  dsimp only
  split
  · rfl
  · split <;> rfl

theorem discipline_perform (q : Queue α) (call : Call α) :
    (q.perform call).discipline = q.discipline := by
  cases call with
  | push entry => exact discipline_push q entry
  | pushAll entries =>
    show (entries.foldl Queue.push q).discipline = q.discipline
    induction entries generalizing q with
    | nil => rfl
    | cons entry rest ih => exact (ih (q.push entry)).trans (discipline_push q entry)
  | retry entry => rfl
  | drain => rfl

theorem Stocked.pending_push (h : q.Stocked) (entry : α) (key : String) :
    (q.push entry).pending key =
      if Queued.key entry = key then q.discipline.combine (q.pending key) entry
      else q.pending key := by
  obtain ⟨count, -, heq⟩ := exists_push entry (h.length_pending_le _)
  rw [heq, pending_eq, entriesOf_store, ← pending_eq]
  split
  · next hkey => rw [hkey]
  · rfl

theorem Stocked.pending_pushAll (h : q.Stocked) (entries : List α) (key : String) :
    (q.pushAll entries).pending key =
      (entries.filter (Queued.key · = key)).foldl q.discipline.combine (q.pending key) := by
  induction entries generalizing q with
  | nil => rfl
  | cons entry rest ih =>
    have hrest := ih (h.push entry)
    rw [h.pending_push, discipline_push] at hrest
    refine hrest.trans ?_
    by_cases hkey : Queued.key entry = key <;> simp [hkey]

theorem pending_retry (q : Queue α) (entry : α) (key : String) :
    (q.retry entry).pending key =
      if Queued.key entry = key then entry :: q.pending key else q.pending key := by
  unfold retry
  rw [pending_eq, entriesOf_store, ← pending_eq]
  split
  · next hkey => rw [hkey]
  · rfl

/-- A call does with a key what the part of it on that key says, and no more. -/
theorem Stocked.pending_perform (h : q.Stocked) (call : Call α) (key : String) :
    (q.perform call).pending key = (call.on key).foldl q.discipline.serve (q.pending key) := by
  cases call with
  | push entry =>
    refine (h.pending_push entry key).trans ?_
    simp only [Call.on]
    split <;> rfl
  | pushAll entries =>
    refine (h.pending_pushAll entries key).trans ?_
    simp only [Call.on, List.foldl_map, Discipline.serve]
  | retry entry =>
    refine (pending_retry q entry key).trans ?_
    simp only [Call.on]
    split <;> rfl
  | drain => rfl

/-- What a key has is decided by the calls on that key. -/
theorem Stocked.pending_after (h : q.Stocked) (calls : List (Call α)) (key : String) :
    (q.after calls).pending key =
      (callsOn key calls).foldl q.discipline.serve (q.pending key) := by
  induction calls generalizing q with
  | nil => rfl
  | cons call rest ih =>
    have hrest := ih (h.perform call)
    rw [discipline_perform, h.pending_perform] at hrest
    rw [callsOn, List.flatMap_cons, List.foldl_append]
    exact hrest

/-! ## Keys that are queued once -/

theorem foldl_combine_of_length_le_one (discipline : Discipline) {entries : List α}
    (h : entries.length ≤ 1) : entries.foldl discipline.combine [] = entries := by
  match entries, h with
  | [], _ => rfl
  | [entry], _ => simp [Discipline.combine]

/-- Those entries of an empty queue that share their keys with no others come out as they came. -/
theorem Grouped.perm_filter_pushAll [DecidableEq α] (h : q.Grouped) (hmerge : Merging α)
    (hempty : ∀ key, q.pending key = []) {p : α → Bool} {entries : List α}
    (hkeyed : ∀ x y, Queued.key x = Queued.key y → p x = p y)
    (hdistinct : ((entries.filter p).map Queued.key).Nodup) :
    ((q.pushAll entries).drain.1.filter p).Perm (entries.filter p) := by
  have hafter : (q.pushAll entries).Grouped := h.perform hmerge (.pushAll entries)
  have honce : ∀ x, p x = true →
      (entries.filter (Queued.key · = Queued.key x)).length ≤ 1 := by
    intro x hx
    have hkeys : ∀ y ∈ entries.filter (Queued.key · = Queued.key x), Queued.key y = Queued.key x :=
      fun y hy => by simpa using (List.mem_filter.mp hy).2
    have hsub : (entries.filter (Queued.key · = Queued.key x)).Sublist (entries.filter p) := by
      rw [← List.filter_eq_self.mpr fun y hy => (hkeyed y x (hkeys y hy)).trans hx]
      exact List.filter_sublist.filter p
    have hnodup := hdistinct.sublist (hsub.map Queued.key)
    rw [List.eq_replicate_of_mem (List.forall_mem_map.mpr hkeys), List.nodup_replicate,
      List.length_map] at hnodup
    exact hnodup
  refine List.perm_iff_count.mpr fun x => ?_
  by_cases hx : p x = true
  · have hcount : ∀ l : List α, (l.filter (Queued.key · = Queued.key x)).count x = l.count x :=
      fun l => List.count_filter (by simp)
    rw [List.count_filter hx, List.count_filter hx, ← hcount, hafter.filter_drain,
      h.pending_pushAll, hempty, foldl_combine_of_length_le_one _ (honce x hx), hcount]
  · rw [List.count_eq_zero.mpr fun hmem => hx (List.mem_filter.mp hmem).2,
      List.count_eq_zero.mpr fun hmem => hx (List.mem_filter.mp hmem).2]

end Queue
end LinkAggregation
