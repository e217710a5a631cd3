import LinkAggregation.Bond
import LinkAggregation.Config.MemberSettings
import LinkAggregation.Config.PortStatus
import LinkAggregation.Machine.Receive
import LinkAggregation.Record
import LinkAggregation.Timer.Clock

/-!
# Interfaces

An interface has a port status, is a member of at most one LAG, and carries the protocol state of
that membership. The transmit window, the counters and the last published record outlive it.
-/
namespace LinkAggregation

/-- Messages sent since the start of the window. -/
structure TransmitWindow where
  start : Nat := 0
  sent : Nat := 0
  deriving DecidableEq, Repr, Inhabited

/-- Takes a place in the window, which starts anew after `interval`. No place is left once
`limit` messages have been sent in it. -/
def TransmitWindow.take? [Clock] (w : TransmitWindow) (now interval limit : Nat) :
    Bool × TransmitWindow :=
  let w := if Clock.after w.start interval ≤ now then ⟨now, 0⟩ else w
  if limit ≤ w.sent then (false, w) else (true, { w with sent := w.sent + 1 })

/-- An interface that the engine knows. -/
structure Interface where
  name : String
  port : PortStatus := {}
  /-- The slot of its LAG. -/
  lag : Option Nat := none
  settings : MemberSettings := {}
  /-- The port number if none is set. -/
  defaultNumber : UInt16
  protocol : Protocol := {}
  window : TransmitWindow := {}
  /-- The last record that was published. -/
  published : Option Record := none
  counters : Counters := {}
  deriving DecidableEq, Repr

namespace Interface

/-- A new interface in an arena slot. -/
def new (name : String) (slot : Nat) : Interface :=
  { name, defaultNumber := defaultPortNumber name slot }

def isEnabled (i : Interface) : Bool := i.port.isEnabled

def portId (i : Interface) : PortId :=
  ⟨i.settings.portPriority, i.settings.portNumber.getD i.defaultNumber⟩

/-- The aggregation key: the one that is set, else that of the LAG. -/
def key (i : Interface) (lagKey : UInt16) : UInt16 := i.settings.aggregationKey.getD lagKey

/-- Forgets the protocol state. -/
def reset (i : Interface) : Interface := { i with protocol := {} }

/-- This end of the link. -/
def endpoint (i : Interface) (system : SystemId) (lagKey : UInt16) : Endpoint :=
  ⟨system, i.key lagKey, i.portId, i.protocol.actor⟩

end Interface
end LinkAggregation
