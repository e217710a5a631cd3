import LinkAggregation.Engine.Evaluate

/-!
# The clock

The engine learns the time from its caller. All timers that are due fire first; then the LAGs
they concern are evaluated, each once.
-/
namespace LinkAggregation
variable [Clock]

/-- A side was out of sync for too long. -/
def Interface.churnDetected (i : Interface) : Churn.Side → Interface
  | .actor =>
    { i with
      protocol := { i.protocol with actorChurn := true }
      counters := { i.counters with actorChurn := i.counters.actorChurn + 1 } }
  | .partner =>
    { i with
      protocol := { i.protocol with partnerChurn := true }
      counters := { i.counters with partnerChurn := i.counters.partnerChurn + 1 } }

/-- A timer of an interface fired. -/
def Interface.timerFired (i : Interface) (key : TimerKey) (t : Timers) (now : Nat) :
    Interface × Timers :=
  let p := i.protocol
  match key with
  | .periodic slot =>
    match Periodic.interval? p.periodic with
    | some interval =>
      ({ i with protocol := { p with needToTransmit := true } },
        t.arm (.periodic slot) (Clock.after now interval))
    | none => (i, t)
  | .currentWhile slot =>
    let (p, t, consequence) := Receive.currentWhileExpired slot p t now
    ({ i with
        protocol := { p with needToTransmit := p.needToTransmit || consequence.transmit } }, t)
  | .waitWhile _ => ({ i with protocol := { p with ready := true } }, t)
  | .actorChurn _ => (i.churnDetected .actor, t)
  | .partnerChurn _ => (i.churnDetected .partner, t)
  | .fallback _ => (i, t)

namespace Engine

/-- A timer fired. The second part is the slot of the LAG that it concerns. -/
def timerFired (e : Engine) (key : TimerKey) : Engine × Option Nat :=
  match key with
  | .fallback lag =>
    if (e.lags.get? lag).isSome then
      (e.modifyLag lag fun l => { l with fallback := Fallback.activate l.fallback }, some lag)
    else (e, none)
  | key =>
    match e.interfaces.get? key.slot with
    | none => (e, none)
    | some i =>
      match i.lag with
      | none => (e, none)
      | some lag =>
        let (i, timers) := i.timerFired key e.timers e.now
        ({ e.modifyInterface key.slot (fun _ => i) with timers }, some lag)

/-- Timers fired, in order. The slots of the LAGs that they concern are collected. -/
def timersFired (e : Engine) (keys : List TimerKey) : Engine × List Nat :=
  keys.foldl
    (fun (e, lags) key =>
      let (e, lag?) := e.timerFired key
      (e, match lag? with
        | some lag => Lag.insertSlot lag lags
        | none => lags))
    (e, [])

/-- The time is now at least this. -/
def advanceTo (e : Engine) (time : Nat) : Step :=
  let e := { e with now := max e.now time }
  let (keys, timers) := e.timers.expired e.now
  let (e, lags) := { e with timers }.timersFired keys
  e.evaluateAll lags

end Engine
end LinkAggregation
