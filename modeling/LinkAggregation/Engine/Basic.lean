import LinkAggregation.Arena
import LinkAggregation.Config.SystemIdentity
import LinkAggregation.Interface
import LinkAggregation.Lag
import LinkAggregation.Queue.Entry

/-!
# The engine

The engine owns all interfaces and LAGs, their timers, the identity of the system and the queues
of pending work. What it does to the outside is a list of effects, in order.
-/
namespace LinkAggregation

/-- What the engine does to the outside: it sends frames and publishes or withdraws state. -/
inductive Effect where
  | transmit (interface : String) (frame : Frame)
  | writeRecord (interface : String) (record : Record)
  | removeRecord (interface : String)
  | writeLag (lag : String) (status : BondStatus)
  | removeLag (lag : String)
  deriving DecidableEq, Repr

/-- The interface or LAG that an effect is about. -/
def Effect.target : Effect → String
  | transmit interface _ | writeRecord interface _ | removeRecord interface => interface
  | writeLag lag _ | removeLag lag => lag

/-- The configuration tables. -/
inductive Table where
  | system
  | lag
  | member
  | port
  deriving DecidableEq, Repr

namespace Table

/-- In the order in which pending entries are applied. -/
def all : List Table := [system, lag, member, port]

def name : Table → String
  | system => "LACP_SYSTEM"
  | lag => "PORTCHANNEL"
  | member => "PORTCHANNEL_MEMBER"
  | port => "PORT"

def ofName? (s : String) : Option Table := all.find? (·.name == s)

end Table

/-- The state of the engine. -/
structure Engine where
  system : SystemIdentity := {}
  /-- How many members of a LAG may be selected at once. -/
  maxMembers : Nat := 8
  interfaces : Arena Interface := {}
  lags : Arena Lag := {}
  timers : Timers := {}
  /-- Milliseconds since the start. -/
  now : Nat := 0
  /-- Somebody receives the effects. Without it there are none, and nothing counts as sent. -/
  connected : Bool := false
  systemQueue : Queue Entry := { name := Table.system.name }
  lagQueue : Queue Entry := { name := Table.lag.name }
  memberQueue : Queue Entry := { name := Table.member.name }
  portQueue : Queue Entry := { name := Table.port.name }
  eventQueue : Queue Event := { name := "LACP_EVENTS", discipline := .fifo }
  deriving DecidableEq, Repr

instance : Inhabited Engine := ⟨{}⟩

namespace Engine

/-- A new engine. -/
def new (system : SystemIdentity) (maxMembers : Nat) (connected : Bool) : Engine :=
  { system, maxMembers, connected }

/-- The name under which the engine is known. -/
def name : String := "lacpmgr"

/-- The effects, if somebody receives them. -/
def emit (e : Engine) (effects : List Effect) : List Effect := if e.connected then effects else []

def modifyInterface (e : Engine) (slot : Nat) (f : Interface → Interface) : Engine :=
  { e with interfaces := e.interfaces.modify slot f }

def modifyLag (e : Engine) (slot : Nat) (f : Lag → Lag) : Engine :=
  { e with lags := e.lags.modify slot f }

/-- The interface of a name. -/
def interface? (e : Engine) (name : String) : Option Interface := e.interfaces.lookup? name

/-- The LAG of a name. -/
def lag? (e : Engine) (name : String) : Option Lag := e.lags.lookup? name

/-- The LAG of a name, which has to be there. -/
def requireLag (e : Engine) (name : String) : Except Error Lag :=
  match e.lag? name with
  | some lag => .ok lag
  | none => .error (.lagNotFound name)

/-- The members of a LAG with their slots. -/
def members (e : Engine) (lag : Lag) : List (Nat × Interface) :=
  lag.members.filterMap fun slot => (e.interfaces.get? slot).map fun i => (slot, i)

end Engine

/-- The engine after an operation, and the effects of the operation. -/
abbrev Step := Engine × List Effect

/-- Goes on with another operation. -/
def Step.next (s : Step) (f : Engine → Step) : Step :=
  let (e, effects) := f s.1
  (e, s.2 ++ effects)

/-- The engine after an operation that may fail. A failing operation has no effects. -/
structure Outcome where
  engine : Engine
  effects : List Effect := []
  error : Option Error := none

namespace Outcome

def ok (s : Step) : Outcome := { engine := s.1, effects := s.2 }

def fail (e : Engine) (error : Error) : Outcome := { engine := e, error := some error }

def step (o : Outcome) : Step := (o.engine, o.effects)

end Outcome
end LinkAggregation
