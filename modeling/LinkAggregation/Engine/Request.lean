import LinkAggregation.Engine.Clock
import LinkAggregation.Engine.Pending

/-!
# Requests

Everything that can be asked of the engine and may change it, as data. A run is the requests of an
engine's life in order, with all effects in order.
-/
namespace LinkAggregation

/-- A request to the engine. -/
inductive Request where
  /-- Applies a table entry at once. -/
  | apply (table : Table) (entry : Entry)
  | setLink (interface : String) (up : Bool)
  | receiveFrame (interface : String) (frame : Frame)
  | advanceTo (time : Nat)
  /-- Queues entries of the table with this name. -/
  | enqueueEntries (table : String) (entries : List Entry)
  | enqueueEvent (event : Event)
  /-- Applies all that is queued. -/
  | work
  deriving DecidableEq, Repr

namespace Engine
variable [Clock]

/-- Does what is asked. -/
def handle (e : Engine) : Request → Outcome
  | .apply table entry => e.applyEntry table entry
  | .setLink interface up => .ok (e.setLink interface up)
  | .receiveFrame interface frame => e.receiveFrame interface frame
  | .advanceTo time => .ok (e.advanceTo time)
  | .enqueueEntries table entries => e.enqueueNamed table entries
  | .enqueueEvent event => .ok (e.enqueueEvent event, [])
  | .work => .ok e.work

/-- Does what is asked, one request after the other. -/
def run (e : Engine) (requests : List Request) : Step :=
  requests.foldl (fun (s : Step) r => s.next fun e => (e.handle r).step) (e, [])

@[simp] theorem run_nil (e : Engine) : e.run [] = (e, []) := rfl

end Engine
end LinkAggregation
