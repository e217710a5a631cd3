/-!
# Binary floating point

A finite number of the binary format with 53 significant bits is `mantissa * 2 ^ exponent`. All
arithmetic is exact on natural numbers and then rounded to the nearest such number, a tie going
to the even mantissa.
-/
namespace LinkAggregation

/-- A magnitude below `2 ^ 1024` with 53 significant bits. -/
structure Binary64 where
  mantissa : Nat
  exponent : Int
  deriving DecidableEq, Repr, Inhabited

namespace Binary64

/-- The least exponent. -/
def minExponent : Int := -1074

/-- The largest exponent. -/
def maxExponent : Int := 971

/-- The quotient to the nearest whole number, a tie to the even one. -/
def roundDiv (num den : Nat) : Nat :=
  let q := num / den
  let r := num % den
  if den < 2 * r || den == 2 * r && q % 2 == 1 then q + 1 else q

/-- The quotient `num / den / 2 ^ q` as a ratio of natural numbers. -/
def scale (num den : Nat) (q : Int) : Nat × Nat :=
  if 0 ≤ q then (num, den * Nat.pow 2 q.toNat) else (num * Nat.pow 2 (-q).toNat, den)

/-- The number nearest to a quotient; none if that is too large. -/
def ofRatio? (num den : Nat) : Option Binary64 :=
  if num = 0 then some ⟨0, minExponent⟩
  else
    let low := max ((num.log2 : Int) - den.log2 - 53) minExponent
    let (n, d) := scale num den low
    let q := if Nat.pow 2 53 ≤ n / d then low + 1 else low
    let (n, d) := scale num den q
    let m := roundDiv n d
    let x : Binary64 := if m = Nat.pow 2 53 then ⟨Nat.pow 2 52, q + 1⟩ else ⟨m, q⟩
    if maxExponent < x.exponent then none else some x

/-- The number as a ratio of natural numbers. -/
def ratio (x : Binary64) : Nat × Nat :=
  (x.mantissa * Nat.pow 2 x.exponent.toNat, Nat.pow 2 (-x.exponent).toNat)

def isZero (x : Binary64) : Bool := x.mantissa == 0

def mul? (x y : Binary64) : Option Binary64 :=
  ofRatio? (x.ratio.1 * y.ratio.1) (x.ratio.2 * y.ratio.2)

/-- A quotient; the divisor must not be zero. -/
def div? (x y : Binary64) : Option Binary64 :=
  ofRatio? (x.ratio.1 * y.ratio.2) (x.ratio.2 * y.ratio.1)

end Binary64
end LinkAggregation
