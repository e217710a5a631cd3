import LinkAggregation.Assoc
import LinkAggregation.Timer.Key

/-!
# The timer schedule

A key is armed with one deadline at a time. Arming again or cancelling does not look for the old
deadline in the schedule: each arming has a generation of its own, and a scheduled deadline whose
generation is not the armed one is stale. Stale deadlines are dropped when they come up, and all
at once when they are many.
-/
namespace LinkAggregation

/-- A deadline of a key, with the generation of its arming. -/
structure Scheduled where
  deadline : Nat
  key : TimerKey
  generation : Nat
  deriving DecidableEq, Repr

/-- The order of the schedule: deadline, key, generation. -/
def Scheduled.before (a b : Scheduled) : Bool :=
  a.deadline < b.deadline || a.deadline == b.deadline &&
    (a.key.kind < b.key.kind || a.key.kind == b.key.kind &&
      (a.key.slot < b.key.slot || a.key.slot == b.key.slot && a.generation < b.generation))

/-- The deadline and generation that a key is armed with. -/
structure Armed where
  deadline : Nat
  generation : Nat
  deriving DecidableEq, Repr

/-- All timers. `schedule` is ascending. -/
structure Timers where
  schedule : List Scheduled := []
  armed : List (TimerKey × Armed) := []
  generation : Nat := 0
  deriving DecidableEq, Repr, Inhabited

namespace Timers

/-- Puts a deadline at its place in an ascending schedule. -/
def place (s : Scheduled) : List Scheduled → List Scheduled
  | [] => [s]
  | t :: rest => if s.before t then s :: t :: rest else t :: place s rest

/-- Arms a key, in place of any deadline that it had. -/
def arm (t : Timers) (key : TimerKey) (deadline : Nat) : Timers :=
  let generation := t.generation + 1
  { schedule := place ⟨deadline, key, generation⟩ t.schedule
    armed := Assoc.put key ⟨deadline, generation⟩ t.armed
    generation }

def deadline? (t : Timers) (key : TimerKey) : Option Nat :=
  (Assoc.get? key t.armed).map Armed.deadline

def isArmed (t : Timers) (key : TimerKey) : Bool := (t.deadline? key).isSome

/-- Arms a key that is not armed. -/
def armIfIdle (t : Timers) (key : TimerKey) (deadline : Nat) : Timers :=
  if t.isArmed key then t else t.arm key deadline

def cancel (t : Timers) (key : TimerKey) : Timers :=
  { t with armed := Assoc.erase key t.armed }

/-- Cancels every timer of an interface slot. -/
def cancelInterface (t : Timers) (slot : Nat) : Timers :=
  { t with armed := t.armed.filter fun (key, _) => key.interface? ≠ some slot }

/-- How many keys are armed. -/
def pendingCount (t : Timers) : Nat := t.armed.length

/-- The scheduled deadline is the one that its key is armed with. -/
def isLive (armed : List (TimerKey × Armed)) (s : Scheduled) : Bool :=
  (Assoc.get? s.key armed).any (·.generation == s.generation)

/-- Takes deadlines up to `now` off the schedule. Live ones fire. -/
def fire (now : Nat) : List Scheduled → List (TimerKey × Armed) →
    List TimerKey × List Scheduled × List (TimerKey × Armed)
  | [], armed => ([], [], armed)
  | s :: rest, armed =>
    if now < s.deadline then ([], s :: rest, armed)
    else if isLive armed s then
      let (fired, rest, armed) := fire now rest (Assoc.erase s.key armed)
      (s.key :: fired, rest, armed)
    else fire now rest armed

/-- Drops the stale deadlines if they are many. -/
def compact (t : Timers) : Timers :=
  if 4 * t.armed.length + 64 < t.schedule.length then
    { t with schedule := t.schedule.filter (isLive t.armed) }
  else t

/-- The keys whose deadline has come, by deadline; they are no longer armed. -/
def expired (t : Timers) (now : Nat) : List TimerKey × Timers :=
  let (fired, schedule, armed) := fire now t.schedule t.armed
  (fired, compact { t with schedule, armed })

@[simp] theorem deadline?_arm (t : Timers) (key key' : TimerKey) (deadline : Nat) :
    (t.arm key' deadline).deadline? key =
      if key = key' then some deadline else t.deadline? key := by
  by_cases h : key = key' <;> simp [deadline?, arm, h]

@[simp] theorem deadline?_cancel (t : Timers) (key key' : TimerKey) :
    (t.cancel key').deadline? key = if key = key' then none else t.deadline? key := by
  by_cases h : key = key' <;> simp [deadline?, cancel, h]

@[simp] theorem deadline?_cancelInterface (t : Timers) (key : TimerKey) (slot : Nat) :
    (t.cancelInterface slot).deadline? key =
      if key.interface? = some slot then none else t.deadline? key := by
  simp only [deadline?, cancelInterface]
  split
  · next h => rw [Assoc.get?_filter_of_forall_not (by simp [h])]; rfl
  · next h => rw [Assoc.get?_filter_of_forall (by simp [h])]

end Timers
end LinkAggregation
