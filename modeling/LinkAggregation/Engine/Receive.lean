import LinkAggregation.Engine.Configure

/-!
# Link reports and received frames

A link report changes the port status. A frame is counted once: as malformed, as dropped, as a
LACP message or as a marker. A LACP message goes to the receive machine; a marker that asks is
answered.
-/
namespace LinkAggregation.Engine
variable [Clock]

/-- The link of an interface came up or went down. -/
def setLink (e : Engine) (name : String) (up : Bool) : Step :=
  let (e, slot) := e.ensureInterface name
  match e.interfaces.get? slot with
  | none => (e, [])
  | some i => e.updatePort slot { i.port with link := .ofBool up }

/-- This end of a member's link. -/
def endpoint? (e : Engine) (slot : Nat) : Option Endpoint := do
  let i ← e.interfaces.get? slot
  let lag ← e.lags.get? (← i.lag)
  return i.endpoint (e.system.resolve lag.settings) lag.key

/-- Changes the counters of an interface. -/
def count (e : Engine) (slot : Nat) (f : Counters → Counters) : Engine :=
  e.modifyInterface slot fun i => { i with counters := f i.counters }

/-- A LACP message came to a member. -/
def receiveLacp (e : Engine) (slot lagSlot : Nat) (i : Interface) (pdu : Lacpdu) : Step :=
  if !(i.isEnabled && i.protocol.receive.isRunning) then
    (e.count slot fun c => { c with dropped := c.dropped + 1 }, [])
  else
    let e := e.count slot fun c => { c with received := c.received + 1 }
    match e.endpoint? slot with
    | none => (e, [])
    | some own =>
      let (p, timers, consequence) := Receive.record slot i.protocol own pdu e.timers e.now
      let p := { p with needToTransmit := p.needToTransmit || consequence.transmit }
      let e := { e.modifyInterface slot (fun i => { i with protocol := p }) with timers }
      e.evaluate lagSlot

/-- The address from which markers are answered. -/
def markerSource (e : Engine) (lagSlot : Nat) : MacAddress :=
  match e.lags.get? lagSlot with
  | some lag => (e.system.resolve lag.settings).mac
  | none => e.system.mac

/-- A marker came to a member. -/
def receiveMarker (e : Engine) (slot lagSlot : Nat) (i : Interface) (marker : Marker) : Step :=
  let e := e.count slot fun c => { c with markersReceived := c.markersReceived + 1 }
  if marker.kind = .information && i.isEnabled && e.connected then
    (e.count slot fun c => { c with markerResponsesSent := c.markerResponsesSent + 1 },
      [.transmit i.name (Frame.encodeMarker marker.response (e.markerSource lagSlot))])
  else (e, [])

/-- A frame came to an interface. -/
def receiveFrame (e : Engine) (name : String) (frame : Frame) : Outcome :=
  match e.interfaces.find? name with
  | none => .fail e (.interfaceNotFound name)
  | some slot =>
    match e.interfaces.get? slot with
    | none => .fail e (.interfaceNotFound name)
    | some i =>
      match Frame.decode frame, i.lag with
      | .error _, _ => .ok (e.count slot fun c => { c with errors := c.errors + 1 }, [])
      | .ok _, none => .ok (e.count slot fun c => { c with dropped := c.dropped + 1 }, [])
      | .ok (.lacp pdu), some lagSlot => .ok (e.receiveLacp slot lagSlot i pdu)
      | .ok (.marker marker), some lagSlot => .ok (e.receiveMarker slot lagSlot i marker)

end LinkAggregation.Engine
