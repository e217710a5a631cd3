/-!
# Numerals

Decimal and hexadecimal numerals as lists of characters. `unsigned?` reads a decimal numeral with
an optional plus sign and a bound; `decimal` writes one. Reading what `decimal` wrote gives the
number back (`digitsValue?_decimalDigits`).
-/
namespace LinkAggregation.Text

/-- The value of an ASCII decimal digit. -/
def digit? (c : Char) : Option Nat :=
  if '0' ≤ c ∧ c ≤ '9' then some (c.toNat - '0'.toNat) else none

/-- The value of an ASCII hexadecimal digit of either case. -/
def hexDigit? (c : Char) : Option Nat :=
  if '0' ≤ c ∧ c ≤ '9' then some (c.toNat - '0'.toNat)
  else if 'a' ≤ c ∧ c ≤ 'f' then some (c.toNat - 'a'.toNat + 10)
  else if 'A' ≤ c ∧ c ≤ 'F' then some (c.toNat - 'A'.toNat + 10)
  else none

/-- Appends digits to a value read so far; `none` at the first character that is no digit. -/
def appendDigits? (base : Nat) (digit : Char → Option Nat) (value : Nat) :
    List Char → Option Nat
  | [] => some value
  | c :: rest => do
    let d ← digit c
    appendDigits? base digit (value * base + d) rest

/-- The value of a nonempty run of digits. -/
def digitsValue? : List Char → Option Nat
  | [] => none
  | cs => appendDigits? 10 digit? 0 cs

/-- A decimal numeral with an optional plus sign, if its value is at most `limit`. -/
def unsigned? (limit : Nat) (cs : List Char) : Option Nat :=
  let digits := match cs with
    | '+' :: rest => rest
    | cs => cs
  (digitsValue? digits).filter (· ≤ limit)

/-- The digit of a value below sixteen, in lower case. -/
def digitChar (n : Nat) : Char :=
  if n < 10 then Char.ofNat (48 + n) else Char.ofNat (87 + n)

/-- The decimal digits of a number, without leading zeros. -/
def decimalDigits (n : Nat) : List Char :=
  if n < 10 then [digitChar n] else decimalDigits (n / 10) ++ [digitChar (n % 10)]

/-- The hexadecimal digits of a number in lower case, without leading zeros. -/
def hexDigits (n : Nat) : List Char :=
  if n < 16 then [digitChar n] else hexDigits (n / 16) ++ [digitChar (n % 16)]

/-- The two hexadecimal digits of an octet. -/
def octetDigits (b : UInt8) : List Char :=
  [digitChar (b.toNat / 16), digitChar (b.toNat % 16)]

/-- The hexadecimal digits of a number, filled up with zeros to at least `width`. -/
def hexPadded (width n : Nat) : List Char :=
  let ds := hexDigits n
  List.replicate (width - ds.length) '0' ++ ds

/-- The decimal text of a number. -/
def decimal (n : Nat) : String := String.ofList (decimalDigits n)

theorem digit?_digitChar {n : Nat} (h : n < 10) : digit? (digitChar n) = some n :=
  (by decide : ∀ k < 10, digit? (digitChar k) = some k) n h

theorem hexDigit?_digitChar {n : Nat} (h : n < 16) : hexDigit? (digitChar n) = some n :=
  (by decide : ∀ k < 16, hexDigit? (digitChar k) = some k) n h

theorem appendDigits?_append (base : Nat) (digit : Char → Option Nat) (value : Nat)
    (cs ds : List Char) :
    appendDigits? base digit value (cs ++ ds) =
      (appendDigits? base digit value cs).bind fun v => appendDigits? base digit v ds := by
  induction cs generalizing value with
  | nil => rfl
  | cons c rest ih =>
    simp only [List.cons_append, appendDigits?]
    cases digit c <;> simp [ih]

theorem decimalDigits_ne_nil (n : Nat) : decimalDigits n ≠ [] := by
  rw [decimalDigits]
  split <;> simp

theorem appendDigits?_decimalDigits (n : Nat) :
    appendDigits? 10 digit? 0 (decimalDigits n) = some n := by
  induction n using Nat.strongRecOn with
  | _ n ih =>
    rw [decimalDigits]
    split
    · next h => simp [appendDigits?, digit?_digitChar h]
    · next h =>
      rw [appendDigits?_append, ih (n / 10) (by omega)]
      simp only [Option.bind_some, appendDigits?, digit?_digitChar (Nat.mod_lt n (by omega))]
      simp only [Option.bind_eq_bind, Option.bind_some, Option.some.injEq]
      omega

/-- A number is read back from its decimal digits. -/
theorem digitsValue?_decimalDigits (n : Nat) : digitsValue? (decimalDigits n) = some n := by
  have h := appendDigits?_decimalDigits n
  cases hd : decimalDigits n with
  | nil => exact absurd hd (decimalDigits_ne_nil n)
  | cons c r => rw [hd] at h; simpa [digitsValue?] using h

end LinkAggregation.Text
