import LinkAggregation.Binary64.Rounding
import LinkAggregation.Text.Numeral

/-!
# Shortest decimals

The decimal with the fewest digits that is read back as a given number, and of those the nearest
one. For each count of digits the two decimals next to the number are tried.
-/
namespace LinkAggregation.Binary64

/-- A decimal `digits * 10 ^ exponent`. -/
structure Decimal where
  digits : Nat
  exponent : Int
  deriving DecidableEq, Repr, Inhabited

/-- Takes up to `count` zeros off the end of the digits. -/
def Decimal.strip : Nat → Decimal → Decimal
  | 0, d => d
  | count + 1, d =>
    if d.digits ≠ 0 ∧ d.digits % 10 = 0 then strip count ⟨d.digits / 10, d.exponent + 1⟩ else d

/-- The place of the decimal point: `10 ^ (p - 1) ≤ num / den < 10 ^ p`. -/
def pointPlace (num den : Nat) : Int :=
  if den ≤ num then (Text.decimalDigits (num / den)).length
  else 1 - (((List.range 400).find? fun j => den ≤ num * Nat.pow 10 j).getD 0 : Nat)

/-- The numbers that round to `x`, in units of a quarter of the last place over `den`. -/
structure Neighbourhood where
  low : Nat
  value : Nat
  high : Nat
  den : Nat
  /-- Both ends belong to it. -/
  closed : Bool

def neighbourhood (x : Binary64) : Neighbourhood :=
  let unit := Nat.pow 2 x.exponent.toNat
  let below := if x.mantissa = Nat.pow 2 52 && minExponent < x.exponent then 1 else 2
  { low := (4 * x.mantissa - below) * unit
    value := 4 * x.mantissa * unit
    high := (4 * x.mantissa + 2) * unit
    den := 4 * Nat.pow 2 (-x.exponent).toNat
    closed := x.mantissa % 2 == 0 }

/-- `digits * 10 ^ k` and a bound, over a common denominator. -/
def Neighbourhood.compareWith (n : Neighbourhood) (digits : Nat) (k : Int) (bound : Nat) :
    Nat × Nat :=
  (digits * n.den * Nat.pow 10 k.toNat, bound * Nat.pow 10 (-k).toNat)

/-- The decimal is read back as the number. -/
def Neighbourhood.contains (n : Neighbourhood) (d : Decimal) : Bool :=
  let (x, low) := n.compareWith d.digits d.exponent n.low
  let (_, high) := n.compareWith d.digits d.exponent n.high
  if n.closed then low ≤ x && x ≤ high else low < x && x < high

/-- How far the decimal is from the number. -/
def Neighbourhood.distance (n : Neighbourhood) (d : Decimal) : Nat :=
  let (x, value) := n.compareWith d.digits d.exponent n.value
  (x - value) + (value - x)

/-- The nearest decimal with so many digits, if it is read back as the number. -/
def withDigits? (n : Neighbourhood) (place : Int) (count : Nat) : Option Decimal :=
  let k := place - count
  let (one, value) := n.compareWith 1 k n.value
  let below : Decimal := ⟨value / one, k⟩
  let above : Decimal := ⟨value / one + 1, k⟩
  match n.contains below, n.contains above with
  | false, false => none
  | true, false => some below
  | false, true => some above
  | true, true =>
    let b := n.distance below
    let a := n.distance above
    some (if b < a || b == a && below.digits % 2 == 0 then below else above)

/-- The shortest decimal of a number that is not zero; 17 digits are always enough. -/
def shortest (x : Binary64) : Decimal :=
  let place := pointPlace x.ratio.1 x.ratio.2
  let found := (List.range 17).findSome? fun i => withDigits? x.neighbourhood place (i + 1)
  (found.getD ⟨0, 0⟩).strip 17

end LinkAggregation.Binary64
