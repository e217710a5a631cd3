import LinkAggregation.Text.Numeral
import Mathlib.Data.Nat.Digits.Lemmas

/-!
# The value of a decimal numeral

A numeral is a nonempty run of ASCII digits. It may have any length and any number of leading
zeros, and its value is the sum of its digits times powers of ten. Exactly the numerals are read,
each as its value. A reader that keeps the value within a limit, and gives up at the first digit
that takes it beyond, reads the numerals whose value is within the limit.
-/
namespace LinkAggregation.Text

/-- The number that digits stand for, with the ones last. -/
def decimalValue (cs : List Char) : Nat :=
  Nat.ofDigits 10 (cs.reverse.map fun c => c.toNat - '0'.toNat)

/-- A nonempty run of ASCII digits. -/
def Numeral (cs : List Char) : Prop := cs ≠ [] ∧ ∀ c ∈ cs, c.isDigit

instance (cs : List Char) : Decidable (Numeral cs) :=
  inferInstanceAs (Decidable (cs ≠ [] ∧ ∀ c ∈ cs, c.isDigit))

variable {c : Char} {cs : List Char} {limit n value : Nat}

@[simp] theorem decimalValue_nil : decimalValue [] = 0 := rfl

/-- The first digit counts for as many tens as digits follow. -/
theorem decimalValue_cons (c : Char) (cs : List Char) :
    decimalValue (c :: cs) = (c.toNat - '0'.toNat) * 10 ^ cs.length + decimalValue cs := by
  simp only [decimalValue, List.reverse_cons, List.map_append, List.map_cons, List.map_nil,
    Nat.ofDigits_append, Nat.ofDigits_singleton, List.length_map, List.length_reverse]
  ring

theorem isDigit_iff : c.isDigit ↔ '0' ≤ c ∧ c ≤ '9' := by
  rw [Char.isDigit, Bool.and_eq_true, decide_eq_true_iff, decide_eq_true_iff]
  exact Iff.rfl

theorem digit?_eq_some_iff : digit? c = some n ↔ c.isDigit ∧ c.toNat - '0'.toNat = n := by
  rw [isDigit_iff, digit?]
  split <;> simp_all

theorem isSome_digit? : (digit? c).isSome = c.isDigit := by
  rw [Bool.eq_iff_iff, isDigit_iff, digit?]
  split <;> simp_all

/-- Digits are appended if all of them are digits, and what was read before counts for as many
tens as digits follow. -/
theorem appendDigits?_eq_some_iff : appendDigits? 10 digit? value cs = some n ↔
    (∀ c ∈ cs, c.isDigit) ∧ value * 10 ^ cs.length + decimalValue cs = n := by
  induction cs generalizing value with
  | nil => simp [appendDigits?]
  | cons c rest ih =>
    have hvalue : (value * 10 + (c.toNat - '0'.toNat)) * 10 ^ rest.length + decimalValue rest =
        value * 10 ^ (c :: rest).length + decimalValue (c :: rest) := by
      rw [decimalValue_cons, List.length_cons]
      ring
    simp only [appendDigits?, Option.bind_eq_bind, Option.bind_eq_some_iff, digit?_eq_some_iff, ih,
      List.forall_mem_cons]
    constructor
    · rintro ⟨_, ⟨hc, rfl⟩, hrest, hn⟩
      exact ⟨⟨hc, hrest⟩, hvalue.symm.trans hn⟩
    · rintro ⟨⟨hc, hrest⟩, hn⟩
      exact ⟨_, ⟨hc, rfl⟩, hrest, hvalue.trans hn⟩

/-- Numerals are read as their values, and nothing else is read. -/
theorem digitsValue?_eq_some_iff :
    digitsValue? cs = some n ↔ Numeral cs ∧ decimalValue cs = n := by
  cases cs with
  | nil => simp [digitsValue?, Numeral]
  | cons c rest =>
    rw [digitsValue?, appendDigits?_eq_some_iff, zero_mul, zero_add]
    · simp [Numeral]
    · simp

theorem digitsValue?_eq_none_iff : digitsValue? cs = none ↔ ¬ Numeral cs := by
  constructor
  · intro hnone hcs
    have hsome := digitsValue?_eq_some_iff.mpr ⟨hcs, rfl⟩
    rw [hnone] at hsome
    cases hsome
  · intro hcs
    cases h : digitsValue? cs with
    | none => rfl
    | some n => exact absurd (digitsValue?_eq_some_iff.mp h).1 hcs

/-! ## Reading within a limit -/

/-- Appends digits to a value read so far; `none` at the first character that is no digit or takes
the value beyond the limit. -/
def appendWithin? (limit value : Nat) : List Char → Option Nat
  | [] => some value
  | c :: rest => do
    let d ← digit? c
    if value * 10 + d ≤ limit then appendWithin? limit (value * 10 + d) rest else none

/-- The value of a nonempty run of digits, read within a limit. -/
def digitsWithin? (limit : Nat) : List Char → Option Nat
  | [] => none
  | cs => appendWithin? limit 0 cs

theorem le_of_appendDigits? (h : appendDigits? 10 digit? value cs = some n) : value ≤ n := by
  have hn := (appendDigits?_eq_some_iff.mp h).2
  have : value ≤ value * 10 ^ cs.length := Nat.le_mul_of_pos_right _ (by positivity)
  omega

/-- A value that has passed the limit does not come back, so a check at each digit refuses what a
check at the end refuses. -/
theorem appendWithin?_eq (h : value ≤ limit) : appendWithin? limit value cs =
    (appendDigits? 10 digit? value cs).filter (· ≤ limit) := by
  induction cs generalizing value with
  | nil => simp [appendWithin?, appendDigits?, Option.filter, h]
  | cons c rest ih =>
    simp only [appendWithin?, appendDigits?]
    cases hd : digit? c with
    | none => rfl
    | some d =>
      simp only [Option.bind_eq_bind, Option.bind_some]
      split
      · next hle => exact ih hle
      · next hle =>
        refine Eq.symm (Option.filter_eq_none_iff.mpr fun n hn => ?_)
        have := le_of_appendDigits? hn
        simp only [decide_eq_true_eq]
        omega

theorem digitsWithin?_eq (limit : Nat) (cs : List Char) :
    digitsWithin? limit cs = (digitsValue? cs).filter (· ≤ limit) := by
  cases cs with
  | nil => rfl
  | cons c rest => exact appendWithin?_eq (Nat.zero_le limit)

/-- The numerals are read whose value is within the limit. -/
theorem digitsWithin?_eq_some_iff : digitsWithin? limit cs = some n ↔
    Numeral cs ∧ decimalValue cs = n ∧ n ≤ limit := by
  rw [digitsWithin?_eq, Option.filter_eq_some_iff, digitsValue?_eq_some_iff, decide_eq_true_iff,
    and_assoc]

end LinkAggregation.Text
