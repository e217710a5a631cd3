import LinkAggregation.Binary64.Rounding
import LinkAggregation.Document.Basic
import LinkAggregation.Text.Numeral
import LinkAggregation.Text.Split

/-!
# TOML scalars

A scalar that is not a string is one word: a truth value, a number, or a moment in time. A number
may have single underscores between its digits. The word decides whether it is an integer or a
floating point number; one whose digits make no number, or a number out of range, is a bad number,
and it is for the reader of the document to refuse it.
-/
namespace LinkAggregation.Toml
open Text

/-- The number with these digits. -/
def digitsNumber (base : Nat) (digits : List Nat) : Nat :=
  digits.foldl (fun n d => n * base + d) 0

/-- The digit of a base. -/
def baseDigit? (base : Nat) (c : Char) : Option Nat := (hexDigit? c).filter (· < base)

def isDecimal (c : Char) : Bool := (digit? c).isSome

def isHexadecimal (c : Char) : Bool := (hexDigit? c).isSome

/-- The sign of a number and the rest; the flag tells that it is negative. -/
def takeSign : List Char → Bool × List Char
  | '+' :: rest => (false, rest)
  | '-' :: rest => (true, rest)
  | cs => (false, cs)

/-- The pieces of a number between its underscores fit: there is a digit on both sides of every
underscore, or a lone sign before it. -/
def piecesFit (isDigit : Char → Bool) : List (List Char) → Bool
  | before :: after :: rest =>
    (before.length == 1 || before.getLast?.any isDigit) && after.head?.any isDigit &&
      piecesFit isDigit (after :: rest)
  | _ => true

/-! ## Integers -/

/-- The least signed integer of 128 bits. -/
def minInteger : Int := -170141183460469231731687303715884105728

/-- The largest unsigned integer of 128 bits. -/
def maxInteger : Int := 340282366920938463463374607431768211455

/-- The integer with this sign and these digits, if they are digits and it fits into 128 bits. -/
def integerValue? (base : Nat) (cs : List Char) : Option Int := do
  let (negative, digits) := takeSign cs
  guard (digits ≠ [])
  let magnitude ← appendDigits? base (baseDigit? base) 0 digits
  let value : Int := if negative then -magnitude else magnitude
  guard (minInteger ≤ value ∧ value ≤ maxInteger)
  return value

/-- An integer, or a bad number. -/
def integer (base : Nat) (cs : List Char) : Document :=
  match integerValue? base cs with
  | some value => .integer value
  | none => .badNumber

/-- An integer in base 16, 8 or 2, from its digits. They may be missing, which makes it bad. -/
def basedInteger? (base : Nat) (cs : List Char) : Option Document := do
  let pieces := splitOn '_' cs
  guard (pieces.flatten.all fun c => (baseDigit? base c).isSome)
  guard (piecesFit isHexadecimal pieces)
  return integer base pieces.flatten

/-- A decimal integer, which is zero or does not begin with zero. `unsigned` is the word without
its sign. After an underscore other characters than digits can follow, which make it bad. -/
def decimalInteger? (word unsigned : List Char) : Option Document := do
  guard (unsigned ≠ [] ∧ (unsigned.head? = some '0' → unsigned = ['0']))
  let pieces := splitOn '_' word
  guard (piecesFit isHexadecimal pieces)
  return integer 10 pieces.flatten

/-! ## Floating point numbers -/

/-- Digits with a point or an exponent, which is `digits * 10 ^ exponent`; bad if too large. -/
def float (digits : List Nat) (exponent : Int) : Document :=
  let n := digitsNumber 10 digits
  let place := (digits.dropWhile (· == 0)).length + exponent
  if n = 0 ∨ place < -400 then .float
  else if 400 < place then .badNumber
  else
    match Binary64.ofRatio? (n * Nat.pow 10 exponent.toNat) (Nat.pow 10 (-exponent).toNat) with
    | some _ => .float
    | none => .badNumber

/-- Takes a run of digits and underscores, with at least one digit, off the front. -/
def digitRun? (cs : List Char) : Option (List Nat × List Char) :=
  let run := cs.takeWhile fun c => isDecimal c || c == '_'
  match run.filterMap digit? with
  | [] => none
  | digits => some (digits, cs.drop run.length)

/-- Takes the digits after the point, if there is one. -/
def fraction? : List Char → Option (List Nat × List Char)
  | '.' :: rest => digitRun? rest
  | cs => some ([], cs)

/-- The exponent, if there is one; it ends the number. -/
def exponent? : List Char → Option Int
  | [] => some 0
  | c :: rest => do
    guard (c = 'e' ∨ c = 'E')
    let (negative, rest) := takeSign rest
    match ← digitRun? rest with
    | (digits, []) =>
      let n := digitsNumber 10 digits
      return if negative then -n else n
    | _ => none

/-- A floating point number. Its whole part is zero or does not begin with zero. -/
def float? (word unsigned : List Char) : Option Document := do
  let (whole, rest) ← digitRun? unsigned
  guard (unsigned.head? = some '0' → whole.length = 1)
  let (fraction, rest) ← fraction? rest
  let exponent ← exponent? rest
  guard (piecesFit isDecimal (splitOn '_' word))
  return float (whole ++ fraction) (exponent - fraction.length)

/-! ## Moments -/

/-- How many days a month has. -/
def daysIn (year month : Nat) : Nat :=
  if month = 2 then
    if year % 4 = 0 ∧ (year % 100 ≠ 0 ∨ year % 400 = 0) then 29 else 28
  else if month ∈ [4, 6, 9, 11] then 30
  else 31

/-- Takes a day, written as four, two and two digits, off the front. -/
def day? : List Char → Option (List Char)
  | a :: b :: c :: d :: '-' :: e :: f :: '-' :: g :: h :: rest => do
    let year ← digitsValue? [a, b, c, d]
    let month ← digitsValue? [e, f]
    let day ← digitsValue? [g, h]
    guard (1 ≤ month ∧ month ≤ 12 ∧ 1 ≤ day ∧ day ≤ daysIn year month)
    return rest
  | _ => none

/-- Takes the parts of a second off the front, if there are any. -/
def secondParts? : List Char → Option (List Char)
  | '.' :: rest =>
    let run := rest.takeWhile fun c => (digit? c).isSome
    if run.isEmpty then none else some (rest.drop run.length)
  | cs => some cs

/-- Takes a time of day off the front: hours, minutes, and perhaps seconds. -/
def time? : List Char → Option (List Char)
  | a :: b :: ':' :: c :: d :: rest => do
    let hour ← digitsValue? [a, b]
    let minute ← digitsValue? [c, d]
    guard (hour ≤ 23 ∧ minute ≤ 59)
    match rest with
    | ':' :: e :: f :: rest =>
      let second ← digitsValue? [e, f]
      guard (second ≤ 60)
      secondParts? rest
    | rest => some rest
  | _ => none

/-- What may follow a time of a day: nothing, or the offset from universal time. -/
def isOffset : List Char → Bool
  | [] => true
  | [c] => c == 'Z' || c == 'z'
  | [sign, a, b, ':', c, d] =>
    (sign == '+' || sign == '-') && (digitsValue? [a, b]).any (· ≤ 23) &&
      (digitsValue? [c, d]).any (· ≤ 59)
  | _ => false

/-- A day, a time, or both, joined by a letter or a blank. -/
def moment? (cs : List Char) : Option Document :=
  match day? cs with
  | some [] => some .moment
  | some (c :: rest) =>
    if c = 'T' ∨ c = 't' ∨ c = ' ' then
      match time? rest with
      | some offset => if isOffset offset then some .moment else none
      | none => none
    else none
  | none => if time? cs = some [] then some .moment else none

/-! ## Words -/

/-- A number or a moment. What follows the first digits tells which; an integer in base 16, 8 or 2
has no sign. -/
def numberOrMoment? : List Char → Option Document
  | '0' :: 'x' :: rest => basedInteger? 16 rest
  | '0' :: 'o' :: rest => basedInteger? 8 rest
  | '0' :: 'b' :: rest => basedInteger? 2 rest
  | word =>
    let (_, unsigned) := takeSign word
    match unsigned.dropWhile isDecimal with
    | [] => decimalInteger? word unsigned
    | c :: rest =>
      if c = '-' ∨ c = ':' then moment? word
      else if (c :: rest).any fun c => c == '.' || c == 'e' || c == 'E' then float? word unsigned
      else if c = '_' then decimalInteger? word unsigned
      else none

/-- The value of a word. -/
def scalar? (word : List Char) : Option Document :=
  let (_, unsigned) := takeSign word
  if word = "true".toList then some (.bool true)
  else if word = "false".toList then some (.bool false)
  else if unsigned = "inf".toList ∨ unsigned = "nan".toList then some .float
  else numberOrMoment? word

end LinkAggregation.Toml
