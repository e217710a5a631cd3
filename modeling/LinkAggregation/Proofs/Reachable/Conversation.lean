import LinkAggregation.Cable
import LinkAggregation.Proofs.Engine.Action

/-!
# Two engines in conversation

Two engines are joined interface by interface, by name. A frame may come to an interface of one
side only after the other side has sent it from the interface of the same name, but any number of
times, at any later time and in any order, or never. Everything else may be asked of either side
at any time.
-/
namespace LinkAggregation

def Side.other : Side → Side
  | a => b
  | b => a

@[simp] theorem Side.other_other (s : Side) : s.other.other = s := by
  cases s <;> rfl

/-- What occurs at an engine. -/
inductive Occurrence where
  /-- A frame came to an interface. -/
  | delivered (interface : String) (frame : Frame)
  /-- A LACP message was accepted. -/
  | accepted (h : Hearing)
  /-- A frame was sent, and the mux of the interface was in this state after the action. An
  evaluation runs the mux before it sends, so this is its state at the time of sending too. -/
  | sent (interface : String) (frame : Frame) (mux : Option MuxState)
  deriving DecidableEq, Repr

namespace Engine

/-- The state of the mux of an interface. -/
def mux? (e : Engine) (name : String) : Option MuxState :=
  (e.interface? name).map (·.protocol.mux)

/-- The frame that an action takes. -/
def deliveries : Action → List Occurrence
  | .event (.frame name frame) => [.delivered name frame]
  | _ => []

/-- The frames that an action sends. -/
def sendings (e : Engine) (a : Action) : List Occurrence :=
  (Cable.sentFrames (e.act a).2).map fun s =>
    .sent s.interface s.frame ((e.act a).1.mux? s.interface)

/-- What occurs in an action: a frame comes, it is accepted, and others are sent. -/
def occurrences (e : Engine) (a : Action) : List Occurrence :=
  deliveries a ++ (e.hearings a).map .accepted ++ e.sendings a

/-- What occurs in a sequence of actions. -/
def trace (e : Engine) : List Action → List Occurrence
  | [] => []
  | a :: rest => e.occurrences a ++ (e.act a).1.trace rest

end Engine

/-- All that occurred on both sides, in order. -/
abbrev History := List (Side × Occurrence)

/-- The side has sent this frame from this interface. -/
def History.HasSent (history : History) (s : Side) (name : String) (frame : Frame) : Prop :=
  ∃ mux, (s, .sent name frame mux) ∈ history

/-- Two engines, and all that occurred. -/
structure Joint where
  engine : Side → Engine
  history : History := []

namespace Joint

/-- One side may be asked for this. Frames come from the other side. -/
def Permits (j : Joint) (s : Side) : Request → Prop
  | .receiveFrame name frame | .enqueueEvent (.frame name frame) =>
    j.history.HasSent s.other name frame
  | _ => True

/-- One side does what it is asked. -/
def perform (j : Joint) (s : Side) (request : Request) : Joint where
  engine t := if t = s then ((j.engine s).handle request).engine else j.engine t
  history := j.history ++
    ((j.engine s).trace ((j.engine s).actions request)).map fun o => (s, o)

/-- Two new engines, and whatever becomes of them. -/
inductive Reachable : Joint → Prop where
  | start (system : Side → SystemIdentity) (maxMembers : Side → Nat) (connected : Side → Bool) :
    Reachable { engine := fun s => Engine.new (system s) (maxMembers s) (connected s) }
  | perform {j : Joint} (s : Side) (request : Request) :
    Reachable j → j.Permits s request → Reachable (j.perform s request)

end Joint
end LinkAggregation
