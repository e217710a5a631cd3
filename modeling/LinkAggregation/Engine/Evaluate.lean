import LinkAggregation.Engine.Basic
import LinkAggregation.Machine.Churn
import LinkAggregation.Machine.Mux
import LinkAggregation.Machine.Periodic
import LinkAggregation.Selection.Decide

/-!
# Evaluation of a LAG

After every change the LAG concerned is evaluated once: fallback, selection, then for each member
the mux, periodic and churn machines, transmission and publication, and last the bond status of
the LAG itself.
-/
namespace LinkAggregation

/-- How many messages an interface may send within a fast interval. -/
def transmitLimit : Nat := 3

/-- What is the same for all members of a LAG during an evaluation. -/
structure Evaluation where
  lagKey : UInt16
  system : SystemId
  dynamic : Bool
  now : Nat
  connected : Bool
  deriving DecidableEq, Repr

namespace Evaluation
variable [Clock]

/-- Brings the periodic machine and its timer in line. A member that starts to send does so at
once. -/
def runPeriodic (now slot : Nat) (enabled running : Bool) (p : Protocol) (t : Timers) :
    Protocol × Timers :=
  let state := Periodic.state
    { portEnabled := enabled
      lacpEnabled := running
      excluded := p.selection.isConflict
      actorActive := p.actor.activity
      partnerActive := p.partner.state.activity
      actorShort := p.actor.timeout
      partnerShort := p.partner.state.timeout }
  if state = p.periodic then (p, t)
  else
    match Periodic.interval? state with
    | some interval =>
      ({ p with
          periodic := state
          needToTransmit := p.needToTransmit || !p.periodic.isRunning },
        t.arm (.periodic slot) (Clock.after now interval))
    | none => ({ p with periodic := state }, t.cancel (.periodic slot))

/-- Runs the machines of a member after selection. A change of the actor flags has to be sent. -/
def runMachines (ev : Evaluation) (slot : Nat) (selection : Selection) (i : Interface)
    (t : Timers) : Interface × Timers :=
  let p := { i.protocol with selection }
  let (p, t) := Mux.run slot (!ev.dynamic) p t ev.now
  let running := ev.dynamic && p.receive.isRunning
  let (p, t) := runPeriodic ev.now slot i.isEnabled running p t
  let (p, t) := if ev.dynamic then Churn.update slot i.isEnabled p t ev.now else (p, t)
  let changed := p.actor != i.protocol.actor && running
  ({ i with protocol := { p with needToTransmit := p.needToTransmit || changed } }, t)

/-- The message that a member sends now. -/
def message (ev : Evaluation) (i : Interface) : Lacpdu where
  actor := i.endpoint ev.system ev.lagKey
  partner :=
    if i.protocol.partnerKnown then i.protocol.partner else Receive.defaultPartner false

/-- The time at which a message that the limit holds back is sent: at the start of the next
window, or earlier if the periodic timer says so. -/
def postpone (slot : Nat) (w : TransmitWindow) (t : Timers) : Timers :=
  let retryAt := Clock.after w.start Periodic.fastInterval
  if (t.deadline? (.periodic slot)).all (retryAt < ·) then t.arm (.periodic slot) retryAt else t

/-- Sends a message, unless the limit holds it back. -/
def transmit (ev : Evaluation) (slot : Nat) (i : Interface) (t : Timers) :
    Interface × Timers × List Effect :=
  let (granted, window) := i.window.take? ev.now Periodic.fastInterval transmitLimit
  let i := { i with window }
  if granted then
    let sent := { i with protocol := { i.protocol with needToTransmit := false } }
    if ev.connected then
      ({ sent with counters := { sent.counters with sent := sent.counters.sent + 1 } }, t,
        [.transmit i.name (Frame.encodeLacp (ev.message i) ev.system.mac)])
    else (sent, t, [])
  else (i, postpone slot window t, [])

/-- Sends a message if one has to be sent and the member sends at all. -/
def transmitIfDue (ev : Evaluation) (slot : Nat) (i : Interface) (t : Timers) :
    Interface × Timers × List Effect :=
  if !i.protocol.needToTransmit then (i, t, [])
  else if i.protocol.periodic.isRunning then ev.transmit slot i t
  else ({ i with protocol := { i.protocol with needToTransmit := false } }, t, [])

/-- Sets the bond status, and publishes the record of a member if it has changed. -/
def publish (ev : Evaluation) (i : Interface) : Interface × List Effect :=
  let bond := some <| memberBond i.port.admin.isUp i.port.link.isUp i.protocol.selection
    i.protocol.mux
  let i := { i with protocol := { i.protocol with bond } }
  let record := Record.of (i.endpoint ev.system ev.lagKey) i.protocol.partner bond
  if i.published = some record then (i, [])
  else
    ({ i with published := some record },
      if ev.connected then [.writeRecord i.name record] else [])

/-- Evaluates one member. -/
def member (ev : Evaluation) (slot : Nat) (selection : Selection) (i : Interface) (t : Timers) :
    Interface × Timers × List Effect :=
  let (i, t) := ev.runMachines slot selection i t
  let (i, t, sent) := ev.transmitIfDue slot i t
  let (i, published) := ev.publish i
  (i, t, sent ++ published)

/-- Evaluates members in order. -/
def members (ev : Evaluation) (decision : Nat → Selection) :
    List (Nat × Interface) → Timers → List (Nat × Interface) × Timers × List Effect
  | [], t => ([], t, [])
  | (slot, i) :: rest, t =>
    let (i, t, effects) := ev.member slot (decision slot) i t
    let (rest, t, more) := ev.members decision rest t
    ((slot, i) :: rest, t, effects ++ more)

end Evaluation

/-- A member as fallback sees it. -/
def Interface.fallbackMember (i : Interface) (slot : Nat) : Fallback.Member :=
  ⟨slot, i.portId, i.isEnabled, i.protocol.receive == .defaulted⟩

/-- Gives or takes a fallback grant. The default partner depends on it. -/
def Interface.withGrant (i : Interface) (granted : Bool) : Interface :=
  if i.protocol.fallbackGranted = granted then i
  else
    { i with protocol :=
      { i.protocol with
        fallbackGranted := granted
        partner :=
          if i.protocol.receive = .defaulted then Receive.defaultPartner granted
          else i.protocol.partner } }

/-- A member as selection sees it. -/
def Interface.candidate (i : Interface) (slot : Nat) (lagKey : UInt16) : Candidate where
  slot
  enabled := i.isEnabled
  key := i.key lagKey
  port := i.portId
  partner :=
    if i.protocol.partnerKnown then some ⟨i.protocol.partner.system, i.protocol.partner.key⟩
    else none
  partnerPort := i.protocol.partner.port
  speed := i.port.speed

/-- The settings of a LAG that fallback depends on. -/
def LagSettings.fallbackSettings (s : LagSettings) : Fallback.Settings :=
  ⟨s.mode.isDynamic && s.fallback, s.fallbackMode, s.fallbackTimeoutMs⟩

namespace Engine
variable [Clock]

/-- Puts evaluated members back into their slots. -/
def putMembers (e : Engine) (members : List (Nat × Interface)) : Engine :=
  members.foldl (fun e (slot, i) => e.modifyInterface slot fun _ => i) e

/-- Evaluates the LAG in a slot. -/
def evaluate (e : Engine) (slot : Nat) : Step :=
  match e.lags.get? slot with
  | none => (e, [])
  | some lag =>
    let members := e.members lag
    let (fallback, timers, granted) := Fallback.evaluate slot lag.settings.fallbackSettings
      (members.map fun (s, i) => i.fallbackMember s) lag.fallback e.timers e.now
    let members := members.map fun (s, i) => (s, i.withGrant (granted.contains s))
    let output := select
      { lagKey := lag.key
        dynamic := lag.isDynamic
        maxMembers := e.maxMembers
        candidates := members.map fun (s, i) => i.candidate s lag.key }
    let ev : Evaluation :=
      ⟨lag.key, e.system.resolve lag.settings, lag.isDynamic, e.now, e.connected⟩
    let (members, timers, effects) := ev.members output.decision members timers
    let status := lagBond (members.filterMap fun (_, i) => i.protocol.bond)
    let e := { (e.putMembers members).modifyLag slot
      (fun lag => { lag with fallback, published := some status }) with timers }
    (e, effects ++ if lag.published = some status then [] else e.emit [.writeLag lag.name status])

/-- Evaluates the LAGs in several slots, one after the other. -/
def evaluateAll (e : Engine) (slots : List Nat) : Step :=
  slots.foldl (fun (s : Step) slot => s.next (·.evaluate slot)) (e, [])

end Engine
end LinkAggregation
