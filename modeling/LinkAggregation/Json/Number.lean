import LinkAggregation.Binary64.Shortest

/-!
# JSON numbers

A number without fraction and exponent is an integer if it fits into 64 bits. Any other is a
floating point number, made from up to 64 bits of leading digits and a power of ten, each rounded
by itself. Integers are written as they are; floating point numbers have the fewest digits that
read back and always a point or an exponent.
-/
namespace LinkAggregation.Json
open Text

/-- The largest unsigned integer of 64 bits. -/
def maxUnsigned : Nat := 18446744073709551615

/-- How far a negative integer of 64 bits can be from zero. -/
def maxNegative : Nat := 9223372036854775808

/-- A number as it is told apart in documents. -/
inductive Number where
  | integer (value : Int)
  | float (negative : Bool) (magnitude : Binary64)
  deriving DecidableEq, Repr

instance : Inhabited Number := ⟨.integer 0⟩

/-- The parts of a numeral. -/
structure Numeral where
  negative : Bool
  whole : List Nat
  fraction : Option (List Nat)
  /-- The exponent's sign and digits. -/
  exponent : Option (Bool × List Nat)
  deriving DecidableEq, Repr

/-- Splits off a run of digits. -/
def takeDigits : List Char → List Nat × List Char
  | [] => ([], [])
  | c :: rest =>
    match digit? c with
    | some d =>
      let (ds, rest) := takeDigits rest
      (d :: ds, rest)
    | none => ([], c :: rest)

/-- The fraction of a numeral, which has a digit. -/
def fractionPart? (cs : List Char) : Option (Option (List Nat) × List Char) :=
  match cs with
  | '.' :: rest =>
    match takeDigits rest with
    | ([], _) => none
    | (ds, rest) => some (some ds, rest)
  | cs => some (none, cs)

/-- The exponent of a numeral, which has a digit and ends it. -/
def exponentPart? (cs : List Char) : Option (Option (Bool × List Nat)) :=
  let digits (negative : Bool) (cs : List Char) : Option (Option (Bool × List Nat)) :=
    match takeDigits cs with
    | (d :: ds, []) => some (some (negative, d :: ds))
    | _ => none
  match cs with
  | [] => some none
  | e :: rest =>
    if e ≠ 'e' ∧ e ≠ 'E' then none
    else match rest with
      | '+' :: rest => digits false rest
      | '-' :: rest => digits true rest
      | rest => digits false rest

/-- The whole part is zero, or does not begin with zero. -/
def Numeral.ofChars? (cs : List Char) : Option Numeral := do
  let (negative, cs) := match cs with
    | '-' :: rest => (true, rest)
    | cs => (false, cs)
  let (whole, cs) := takeDigits cs
  guard (whole ≠ [] ∧ (whole.head? = some 0 → whole.length = 1))
  let (fraction, cs) ← fractionPart? cs
  let exponent ← exponentPart? cs
  return { negative, whole, fraction, exponent }

/-- Takes digits into a significand as long as it has 64 bits; the second part is the digits
left over. -/
def accumulate (significand : Nat) : List Nat → Nat × List Nat
  | [] => (significand, [])
  | d :: ds =>
    if maxUnsigned < significand * 10 + d then (significand, d :: ds)
    else accumulate (significand * 10 + d) ds

/-- The value of an exponent's digits; none if it does not have 31 bits. -/
def exponentValue? (digits : List Nat) : Option Nat :=
  let n := digits.foldl (fun n d => n * 10 + d) 0
  if n ≤ 2147483647 then some n else none

/-- A power of ten, rounded. -/
def powerOfTen? (k : Nat) : Option Binary64 := Binary64.ofRatio? (Nat.pow 10 k) 1

/-- Divides by powers of ten whose exponents are at most 308 each. -/
def divideByPower? : Nat → Binary64 → Nat → Option Binary64
  | 0, x, _ => some x
  | fuel + 1, x, k =>
    if k ≤ 308 then do x.div? (← powerOfTen? k)
    else if x.isZero then some x
    else do divideByPower? fuel (← x.div? (← powerOfTen? 308)) (k - 308)

/-- A significand times a power of ten; none if it is too large. -/
def magnitude? (significand : Nat) (exponent : Int) : Option Binary64 := do
  let x ← Binary64.ofRatio? significand 1
  if exponent < 0 then
    let k := (-exponent).toNat
    divideByPower? (k + 1) x k
  else if exponent ≤ 308 then x.mul? (← powerOfTen? exponent.toNat)
  else if x.isZero then some x
  else none

/-- The value of a numeral; none if it is too large. -/
def Numeral.value? (n : Numeral) : Option Number :=
  let (significand, skipped) := accumulate 0 n.whole
  match skipped, n.fraction, n.exponent with
  | [], none, none =>
    if !n.negative then some (.integer significand)
    else if significand = 0 || maxNegative < significand then
      (Binary64.ofRatio? significand 1).map (.float true)
    else some (.integer (-significand))
  | skipped, fraction, exponent =>
    let digits := fraction.getD []
    let (significand, rest) := accumulate significand digits
    let point : Int := (skipped.length : Int) - (digits.length - rest.length : Nat)
    match exponent with
    | none => (magnitude? significand point).map (.float n.negative)
    | some (negative, digits) =>
      match exponentValue? digits with
      | some e =>
        (magnitude? significand (if negative then point - e else point + e)).map
          (.float n.negative)
      | none =>
        if significand ≠ 0 && !negative then none
        else (Binary64.ofRatio? 0 1).map (.float n.negative)

/-- Reads a number. -/
def Number.ofChars? (cs : List Char) : Option Number := do (← Numeral.ofChars? cs).value?

/-- A floating point number: positional if the point is near the digits, else with an exponent,
which always has a sign. -/
def floatChars (x : Binary64) : List Char :=
  if x.isZero then ['0', '.', '0']
  else
    let d := x.shortest
    let digits := decimalDigits d.digits
    let point := (digits.length : Int) + d.exponent
    if 0 ≤ d.exponent ∧ point ≤ 16 then
      digits ++ List.replicate d.exponent.toNat '0' ++ ['.', '0']
    else if 0 < point ∧ point ≤ 16 then
      digits.take point.toNat ++ '.' :: digits.drop point.toNat
    else if -5 < point ∧ point ≤ 0 then
      ['0', '.'] ++ List.replicate (-point).toNat '0' ++ digits
    else
      let exponent := point - 1
      let sign := if exponent < 0 then '-' else '+'
      let fraction := match digits.drop 1 with
        | [] => []
        | ds => '.' :: ds
      digits.take 1 ++ fraction ++ 'e' :: sign :: decimalDigits exponent.natAbs

def Number.chars : Number → List Char
  | integer value =>
    if value < 0 then '-' :: decimalDigits value.natAbs else decimalDigits value.natAbs
  | float negative magnitude => (if negative then ['-'] else []) ++ floatChars magnitude

end LinkAggregation.Json
