/-!
# Queues of pending work

A queue keeps entries by key, in the order of keys, and the entries of one key in the order in
which they came. A merging queue lets an entry that makes earlier ones obsolete replace them, and
folds an entry into the last one of its key where it can; a first-in first-out queue keeps all.
-/
namespace LinkAggregation

/-- What a queue needs to know of its entries. -/
class Queued (α : Type) where
  key : α → String
  /-- The entry makes all pending entries of its key obsolete. -/
  supersedes : α → Bool
  /-- The older and the newer entry in one, if they can be combined. -/
  merge? : α → α → Option α

/-- How a queue treats several entries of one key. -/
inductive Discipline where
  | merge
  | fifo
  deriving DecidableEq, Repr, Inhabited

/-- Pending entries, grouped by key in ascending order, and how many they are. -/
structure Queue (α : Type) where
  name : String
  discipline : Discipline := .merge
  groups : List (String × List α) := []
  count : Nat := 0
  deriving DecidableEq, Repr

namespace Queue
variable {α : Type}

/-- Gives a key these entries, at its place in the order of keys. -/
def store (key : String) (entries : List α) :
    List (String × List α) → List (String × List α)
  | [] => [(key, entries)]
  | (k, old) :: rest =>
    if k = key then (key, entries) :: rest
    else if key < k then (key, entries) :: (k, old) :: rest
    else (k, old) :: store key entries rest

/-- The entries of a key, oldest first. -/
def pending (q : Queue α) (key : String) : List α :=
  ((q.groups.find? fun g => g.1 == key).map Prod.snd).getD []

def hasPending (q : Queue α) : Bool := 0 < q.count

variable [Queued α]

/-- Queues an entry. -/
def push (q : Queue α) (entry : α) : Queue α :=
  let key := Queued.key entry
  let old := q.pending key
  let merging := q.discipline == .merge
  if merging && Queued.supersedes entry then
    { q with
      groups := store key [entry] q.groups
      count := q.count - old.length + 1 }
  else
    match if merging then old.getLast?.bind (Queued.merge? · entry) else none with
    | some merged => { q with groups := store key (old.dropLast ++ [merged]) q.groups }
    | none => { q with groups := store key (old ++ [entry]) q.groups, count := q.count + 1 }

/-- Queues entries in order. -/
def pushAll (q : Queue α) (entries : List α) : Queue α := entries.foldl push q

/-- Puts an entry back in front of the others of its key. -/
def retry (q : Queue α) (entry : α) : Queue α :=
  let key := Queued.key entry
  { q with groups := store key (entry :: q.pending key) q.groups, count := q.count + 1 }

/-- All entries, by key and then by age, and the queue without them. -/
def drain (q : Queue α) : List α × Queue α :=
  (q.groups.flatMap Prod.snd, { q with groups := [], count := 0 })

/-- A line for each entry: the queue's name, the key and the entry as `describe` shows it. -/
def dump (q : Queue α) (describe : α → String) : List String :=
  q.groups.flatMap fun (key, entries) =>
    entries.map fun e => q.name ++ ":" ++ key ++ ": " ++ describe e

end Queue
end LinkAggregation
