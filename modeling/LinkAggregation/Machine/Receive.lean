import LinkAggregation.Machine.State
import LinkAggregation.Timer.Clock
import LinkAggregation.Timer.Schedule

/-!
# The receive machine

It records what the partner says, and lets it age: after a timeout the partner is asked for fast
messages (expired), after another one a default partner takes its place (defaulted).
-/
namespace LinkAggregation.Receive
variable [Clock]

/-- The wait for a partner that was asked for fast messages. -/
def shortTimeout : Nat := 3000

/-- The wait for a partner that was asked for slow messages. -/
def longTimeout : Nat := 90000

/-- The wait that the actor's timeout flag asks for. -/
def timeout (actor : Flags) : Nat := if actor.timeout then shortTimeout else longTimeout

/-- The partner that is assumed when none is known. With a fallback grant it seems to be in sync
and to forward. -/
def defaultPartner (granted : Bool) : Endpoint where
  state := { sync := granted, collecting := granted, distributing := granted }

/-- The actor flags that follow from the LAG's settings. -/
def withSettings (actor : Flags) (mode : Mode) (rate : Rate) : Flags :=
  { actor with activity := mode == .active, timeout := rate.isFast, aggregation := true }

/-- The port went down: all but the expired flag is forgotten. -/
def portDisabled (slot : Nat) (p : Protocol) (t : Timers) : Protocol × Timers :=
  ({ p with
      actor := { expired := p.actor.expired }
      partner := defaultPartner false
      partnerKnown := false
      viewMatches := false
      receive := .portDisabled
      periodic := .never
      ready := false
      needToTransmit := false },
    t.cancelInterface slot)

/-- The member of a static LAG has no protocol state. -/
def lacpDisabled (slot : Nat) (p : Protocol) (t : Timers) : Protocol × Timers :=
  ({ p with
      actor := {}
      partner := defaultPartner false
      partnerKnown := false
      viewMatches := false
      receive := .lacpDisabled
      periodic := .never
      needToTransmit := false },
    t.cancelInterface slot)

/-- The partner is asked for fast messages. -/
def enterExpired (slot : Nat) (p : Protocol) (t : Timers) (now : Nat) : Protocol × Timers :=
  ({ p with
      receive := .expired
      actor := { p.actor with expired := true, defaulted := false }
      partner :=
        { p.partner with state := { p.partner.state with sync := false, timeout := true } } },
    t.arm (.currentWhile slot) (Clock.after now shortTimeout))

/-- A default partner is assumed. -/
def enterDefaulted (p : Protocol) : Protocol :=
  { p with
    receive := .defaulted
    actor := { p.actor with expired := false, defaulted := true }
    partner := defaultPartner p.fallbackGranted
    partnerKnown := false
    viewMatches := false }

/-- The port came up as the member of a dynamic LAG. -/
def enable (slot : Nat) (p : Protocol) (mode : Mode) (rate : Rate) (t : Timers) (now : Nat) :
    Protocol × Timers :=
  enterExpired slot { p with actor := withSettings p.actor mode rate } t now

/-- What else has to happen after a step of the machine. -/
structure Consequence where
  /-- The partner is another one, so selection has to be run. -/
  reselect : Bool := false
  /-- The partner has to be told about this end. -/
  transmit : Bool := false
  deriving DecidableEq, Repr, Inhabited

/-- The wait for the partner is over. -/
def currentWhileExpired (slot : Nat) (p : Protocol) (t : Timers) (now : Nat) :
    Protocol × Timers × Consequence :=
  match p.receive with
  | .current =>
    let (p, t) := enterExpired slot p t now
    (p, t, {})
  | .expired => (enterDefaulted p, t, { reselect := true })
  | _ => (p, t, {})

/-- The partner describes the flags that matter to it otherwise than they are. -/
def isStale (described actual : Flags) : Bool :=
  described.activity != actual.activity || described.timeout != actual.timeout ||
    described.aggregation != actual.aggregation || described.sync != actual.sync

/-- Records a received message. `own` is this end as it is now. The partner counts as in sync only
if it knows who is at this end. -/
def record (slot : Nat) (p : Protocol) (own : Endpoint) (pdu : Lacpdu) (t : Timers) (now : Nat) :
    Protocol × Timers × Consequence :=
  let agrees := pdu.partner.sameEnd own
  let partner :=
    { pdu.actor with state := { pdu.actor.state with sync := pdu.actor.state.sync && agrees } }
  let next : Protocol :=
    { p with
      partner
      partnerKnown := true
      viewMatches := agrees
      receive := .current
      actor := { p.actor with expired := false, defaulted := false } }
  (next, t.arm (.currentWhile slot) (Clock.after now (timeout next.actor)),
    { reselect := !p.partnerKnown || !p.partner.sameEnd partner
      transmit := !agrees || isStale pdu.partner.state own.state })

/-- Starts a running wait anew after the rate has changed. -/
def rateChanged (slot : Nat) (p : Protocol) (t : Timers) (now : Nat) : Timers :=
  match p.receive with
  | .current => t.arm (.currentWhile slot) (Clock.after now (timeout p.actor))
  | .expired => t.arm (.currentWhile slot) (Clock.after now shortTimeout)
  | _ => t

end LinkAggregation.Receive
