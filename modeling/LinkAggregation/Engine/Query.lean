import LinkAggregation.Engine.Receive

/-!
# Queries

What the engine tells about a LAG: its bond status, its counters, its members, and a snapshot of
everything.
-/
namespace LinkAggregation

/-- The names of a LAG's members. -/
structure MemberNames where
  configured : List String := []
  /-- Selected or standing by. -/
  eligible : List String := []
  /-- Collecting and distributing. -/
  participant : List String := []
  deriving DecidableEq, Repr

/-- A snapshot of a member. -/
structure MemberSnapshot where
  name : String
  actor : Endpoint
  protocol : Protocol
  counters : Counters
  deriving DecidableEq, Repr

/-- A snapshot of a LAG. -/
structure LagSnapshot where
  name : String
  key : UInt16
  system : SystemId
  settings : LagSettings
  fallback : Fallback.State
  bond : BondStatus
  counters : Counters
  members : List MemberSnapshot
  deriving DecidableEq, Repr

namespace Engine

/-- The last record published for an interface. -/
def record? (e : Engine) (name : String) : Option Record := (e.interface? name).bind (·.published)

/-- The names of all LAGs, ascending. -/
def lagNames (e : Engine) : List String := e.lags.names

/-- The bond status of a LAG, from its members. -/
def bondOf (e : Engine) (lag : Lag) : BondStatus :=
  lagBond ((e.members lag).filterMap fun (_, i) => i.protocol.bond)

def bond? (e : Engine) (name : String) : Option BondStatus := (e.lag? name).map e.bondOf

/-- The counters of a LAG's members, added up. -/
def countersOf (e : Engine) (lag : Lag) : Counters :=
  (e.members lag).foldl (fun total (_, i) => total + i.counters) {}

def counters (e : Engine) (name : String) : Except Error Counters :=
  (e.requireLag name).map e.countersOf

def memberNames (e : Engine) (name : String) : Except Error MemberNames := do
  let members := (e.members (← e.requireLag name)).map Prod.snd
  return {
    configured := members.map (·.name)
    eligible := (members.filter (·.protocol.selection.isEligible)).map (·.name)
    participant := (members.filter (·.protocol.mux.isForwarding)).map (·.name) }

def snapshot (e : Engine) (name : String) : Except Error LagSnapshot := do
  let lag ← e.requireLag name
  return {
    name := lag.name
    key := lag.key
    system := e.system.resolve lag.settings
    settings := lag.settings
    fallback := lag.fallback
    bond := e.bondOf lag
    counters := e.countersOf lag
    members := (e.members lag).map fun (slot, i) =>
      ⟨i.name, (e.endpoint? slot).getD {}, i.protocol, i.counters⟩ }

end Engine
end LinkAggregation
