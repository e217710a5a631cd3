import LinkAggregation.Machine.State
import LinkAggregation.Timer.Clock
import LinkAggregation.Timer.Schedule

/-!
# Churn detection

A selected member that stays out of sync for a minute is flagged, for each side on its own. The
flag is cleared when the side comes into sync or is no longer watched.
-/
namespace LinkAggregation.Churn
variable [Clock]

/-- How long a member may stay out of sync. -/
def detectionTime : Nat := 60000

/-- The two sides that are watched. -/
inductive Side where
  | actor
  | partner
  deriving DecidableEq, Repr

namespace Side

def timer (slot : Nat) : Side → TimerKey
  | actor => .actorChurn slot
  | partner => .partnerChurn slot

/-- The side reports that it is in sync. -/
def inSync (p : Protocol) : Side → Bool
  | actor => p.actor.sync
  | partner => p.partner.state.sync

def flag (p : Protocol) : Side → Bool
  | actor => p.actorChurn
  | partner => p.partnerChurn

def withFlag (p : Protocol) (on : Bool) : Side → Protocol
  | actor => { p with actorChurn := on }
  | partner => { p with partnerChurn := on }

end Side

/-- The member is watched: it is enabled and selected, and its receive machine has started. -/
def isWatched (enabled : Bool) (p : Protocol) : Bool :=
  enabled && p.selection.isSelected && p.receive.isRunning

/-- Looks at one side of a watched member. -/
def updateSide (slot : Nat) (now : Nat) (side : Side) (p : Protocol) (t : Timers) :
    Protocol × Timers :=
  if side.inSync p then (side.withFlag p false, t.cancel (side.timer slot))
  else if side.flag p then (p, t)
  else (p, t.armIfIdle (side.timer slot) (Clock.after now detectionTime))

/-- Looks at both sides after a change. -/
def update (slot : Nat) (enabled : Bool) (p : Protocol) (t : Timers) (now : Nat) :
    Protocol × Timers :=
  if isWatched enabled p then
    let (p, t) := updateSide slot now .actor p t
    updateSide slot now .partner p t
  else
    ({ p with actorChurn := false, partnerChurn := false },
      (t.cancel (.actorChurn slot)).cancel (.partnerChurn slot))

end LinkAggregation.Churn
