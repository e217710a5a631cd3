import LinkAggregation.Engine.Clock
import LinkAggregation.Engine.Pending

/-!
# Two engines joined by cables

Each cable joins an interface of one engine with an interface of the other. Frames that were sent
wait on the cables until an exchange delivers them; a cut cable loses frames both ways.
-/
namespace LinkAggregation

/-- The two ends. -/
inductive Side where
  | a
  | b
  deriving DecidableEq, Repr

/-- A frame under way, with the interface that sent it. -/
structure Sent where
  interface : String
  frame : Frame
  deriving DecidableEq, Repr

/-- Two engines and the cables between them. -/
structure Cable where
  a : Engine
  b : Engine
  /-- An interface of `a` and the one of `b` that it is joined with; all others are joined with
  those of the same name. -/
  pairs : List (String × String) := []
  /-- The interfaces of `a` whose cable is cut. -/
  cut : List String := []
  fromA : List Sent := []
  fromB : List Sent := []
  time : Nat := 0

namespace Cable
variable [Clock]

/-- What happened at which end, in order. -/
abbrev Log := List (Side × Effect)

/-- The interface of `b` at the other end. -/
def farEndOfA (c : Cable) (interface : String) : String :=
  ((c.pairs.find? fun p => p.1 == interface).map Prod.snd).getD interface

/-- The interface of `a` at the other end. -/
def farEndOfB (c : Cable) (interface : String) : String :=
  ((c.pairs.find? fun p => p.2 == interface).map Prod.fst).getD interface

/-- The frames among effects. -/
def sentFrames (effects : List Effect) : List Sent :=
  effects.filterMap fun
    | .transmit interface frame => some ⟨interface, frame⟩
    | _ => none

/-- One end does something; the frames that it sends are under way then. -/
def act (c : Cable) (side : Side) (f : Engine → Step) : Cable × Log :=
  match side with
  | .a =>
    let (e, effects) := f c.a
    ({ c with a := e, fromA := c.fromA ++ sentFrames effects }, effects.map fun x => (.a, x))
  | .b =>
    let (e, effects) := f c.b
    ({ c with b := e, fromB := c.fromB ++ sentFrames effects }, effects.map fun x => (.b, x))

/-- One end does several things in order. -/
def actAll (c : Cable) (side : Side) (fs : List (Engine → Step)) : Cable × Log :=
  fs.foldl
    (fun (c, log) f =>
      let (c, more) := c.act side f
      (c, log ++ more))
    (c, [])

/-- Delivers a frame; a frame that the engine refuses is lost. -/
def deliver (interface : String) (frame : Frame) (e : Engine) : Step :=
  (e.receiveFrame interface frame).step

/-- Delivers all frames under way: those of `a` in order, then those of `b`. -/
def round (c : Cable) : Cable × Log :=
  let toB := (c.fromA.filter fun s => !c.cut.contains s.interface).map fun s =>
    deliver (c.farEndOfA s.interface) s.frame
  let toA := (c.fromB.filter fun s => !c.cut.contains (c.farEndOfB s.interface)).map fun s =>
    deliver (c.farEndOfB s.interface) s.frame
  let c := { c with fromA := [], fromB := [] }
  let (c, log) := c.actAll .b toB
  let (c, more) := c.actAll .a toA
  (c, log ++ more)

/-- Delivers frames until none is under way, but for at most `rounds` rounds. The number is that
of the rounds it took. -/
def exchangeFor : Nat → Cable → Cable × Log × Nat
  | 0, c => (c, [], 0)
  | rounds + 1, c =>
    if c.fromA.isEmpty && c.fromB.isEmpty then (c, [], 0)
    else
      let (c, log) := c.round
      let (c, more, n) := exchangeFor rounds c
      (c, log ++ more, n + 1)

/-- Delivers frames until none is under way, within 32 rounds. -/
def exchange (c : Cable) : Cable × Log × Nat := exchangeFor 32 c

/-- The time moves on by `tick` for both ends, which then exchange frames. -/
def tickBy (c : Cable) (tick : Nat) : Cable × Log × Nat :=
  let c := { c with time := c.time + tick }
  let time := c.time
  let (c, first) := c.act .a (·.advanceTo time)
  let (c, second) := c.act .b (·.advanceTo time)
  let (c, rest, n) := c.exchange
  (c, first ++ second ++ rest, n)

/-- The time moves on by at least `span` in ticks. Each tick's log goes with its time. -/
def advance (tick : Nat) (span : Nat) (c : Cable) : Cable × List (Nat × Log) × Nat :=
  if _h : 0 < span ∧ 0 < tick then
    let (c, log, n) := c.tickBy tick
    let time := c.time
    let (c, logs, m) := advance tick (span - tick) c
    (c, (time, log) :: logs, n + m)
  else (c, [], 0)
termination_by span

/-- Cuts the cable of an interface of `a`; the flag tells whether it was whole. -/
def cutAt (c : Cable) (interface : String) : Cable × Bool :=
  if c.cut.contains interface then (c, false)
  else ({ c with cut := interface :: c.cut }, true)

/-- Joins the cable of an interface of `a` again; the flag tells whether it was cut. -/
def joinAt (c : Cable) (interface : String) : Cable × Bool :=
  if c.cut.contains interface then ({ c with cut := c.cut.filter (· != interface) }, true)
  else (c, false)

end Cable
end LinkAggregation
