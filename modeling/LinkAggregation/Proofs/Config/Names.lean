import LinkAggregation.Proofs.Config.Validity
import LinkAggregation.Proofs.Text.Decimal
import Mathlib.Data.List.DropRight

/-!
# The numbers in names

The name of a LAG is one of two stems and a numeral of any length, whose value is the LAG's key.
The name of an interface may end in digits, and the number after theirs is the interface's port
number by default. A value that does not fit is told from one that does at every length, however
many zeros it begins with.
-/
namespace LinkAggregation
open Text

variable {name : String} {stem digits : List Char}

/-! ## Keys -/

/-- The name is one of the two stems and what follows. -/
def LagStem (name : String) (rest : List Char) : Prop :=
  name.toList = "PortChannel".toList ++ rest ∨ name.toList = "lag".toList ++ rest

/-- No name begins with both stems. -/
theorem lagDigits?_eq_some_iff : lagDigits? name = some digits ↔ LagStem name digits := by
  rw [lagDigits?, LagStem]
  cases hlong : dropStart? "PortChannel".toList name.toList with
  | none =>
    have hname : name.toList ≠ "PortChannel".toList ++ digits := fun hname => by
      rw [dropStart?_eq_some_iff.mpr hname] at hlong
      cases hlong
    rw [or_iff_right hname]
    exact dropStart?_eq_some_iff
  | some rest =>
    have hname := dropStart?_eq_some_iff.mp hlong
    have hshort : name.toList ≠ "lag".toList ++ digits := by
      rw [hname]
      exact fun heq => absurd (List.cons.inj heq).1 (by decide)
    rw [or_iff_left hshort, hname, List.append_right_inj]
    exact Option.some_inj

theorem LagStem.unique {digits' : List Char} (h : LagStem name digits)
    (h' : LagStem name digits') : digits = digits' := by
  rw [← lagDigits?_eq_some_iff] at h h'
  exact Option.some.inj (h.symm.trans h')

/-- The key as a reader of 16 bits finds it, which gives up at the first digit that does not fit. -/
def narrowKey? (name : String) : Option Nat :=
  ((lagDigits? name).bind (digitsWithin? 65535)).filter fun n => 1 ≤ n ∧ n ≤ 9999

theorem narrowKey?_eq_some_iff {n : Nat} : narrowKey? name = some n ↔
    ∃ digits, LagStem name digits ∧ Numeral digits ∧ decimalValue digits = n ∧
      1 ≤ n ∧ n ≤ 9999 := by
  simp only [narrowKey?, Option.filter_eq_some_iff, Option.bind_eq_some_iff,
    lagDigits?_eq_some_iff, digitsWithin?_eq_some_iff, decide_eq_true_iff]
  constructor
  · rintro ⟨⟨digits, hstem, hnumeral, hvalue, -⟩, hrange⟩
    exact ⟨digits, hstem, hnumeral, hvalue, hrange⟩
  · rintro ⟨digits, hstem, hnumeral, hvalue, hrange⟩
    exact ⟨⟨digits, hstem, hnumeral, hvalue, by omega⟩, hrange⟩

/-- What follows the stem decides. -/
theorem lagKey_of_stem (h : LagStem name digits) : lagKey name =
    if Numeral digits then
      if 1 ≤ decimalValue digits ∧ decimalValue digits ≤ 9999 then
        .ok (UInt16.ofNat (decimalValue digits))
      else .error (.invalidConfig "lag" (.lagNumberRange name 9999))
    else .error (.invalidConfig "lag" (.lagNumberMissing name)) := by
  by_cases hnumeral : Numeral digits
  · rw [lagKey, lagDigits?_eq_some_iff.mpr h, if_pos hnumeral]
    simp only [digitsValue?_eq_some_iff.mpr ⟨hnumeral, rfl⟩]
    rfl
  · rw [lagKey, lagDigits?_eq_some_iff.mpr h, if_neg hnumeral]
    simp only [digitsValue?_eq_none_iff.mpr hnumeral]

theorem lagKey_of_no_stem (h : ∀ digits, ¬ LagStem name digits) :
    lagKey name = .error (.invalidConfig "lag" (.lagNameForm name)) := by
  have hnone : lagDigits? name = none := Option.eq_none_iff_forall_not_mem.mpr fun digits hdigits =>
    h digits (lagDigits?_eq_some_iff.mp hdigits)
  rw [lagKey, hnone]

/-- What the grammar of LAG names promises about a name. -/
structure NamesLag (name : String) : Prop where
  /-- A key is found in a stem and a numeral of the key's value, which is from 1 to 9999. -/
  accepted : ∀ key : UInt16, lagKey name = .ok key ↔
    ∃ digits, LagStem name digits ∧ Numeral digits ∧ decimalValue digits = key.toNat ∧
      1 ≤ key.toNat ∧ key.toNat ≤ 9999
  /-- Each value from 1 to 9999 is some key. -/
  complete : ∀ digits, LagStem name digits → Numeral digits → 1 ≤ decimalValue digits →
    decimalValue digits ≤ 9999 → ∃ key, lagKey name = .ok key ∧ key.toNat = decimalValue digits
  /-- Any other value is out of range. -/
  range : ∀ digits, LagStem name digits → Numeral digits →
    decimalValue digits = 0 ∨ 9999 < decimalValue digits →
    lagKey name = .error (.invalidConfig "lag" (.lagNumberRange name 9999))
  /-- After a stem there is a numeral. -/
  missing : ∀ digits, LagStem name digits → ¬ Numeral digits →
    lagKey name = .error (.invalidConfig "lag" (.lagNumberMissing name))
  /-- A name has one of the stems. -/
  form : (∀ digits, ¬ LagStem name digits) →
    lagKey name = .error (.invalidConfig "lag" (.lagNameForm name))
  /-- Any name without a key is an invalid setting. -/
  refused : (∀ key, lagKey name ≠ .ok key) →
    ∃ reason, lagKey name = .error (.invalidConfig "lag" reason)
  /-- A name has at most one stem. -/
  stem : ∀ digits digits', LagStem name digits → LagStem name digits' → digits = digits'
  /-- Reading in 16 bits finds the same keys. -/
  narrow : ∀ key : UInt16, lagKey name = .ok key ↔ narrowKey? name = some key.toNat

theorem lagKey_eq_ok_iff {key : UInt16} : lagKey name = .ok key ↔
    ∃ digits, LagStem name digits ∧ Numeral digits ∧ decimalValue digits = key.toNat ∧
      1 ≤ key.toNat ∧ key.toNat ≤ 9999 := by
  constructor
  · intro hkey
    obtain ⟨digits, hstem⟩ : ∃ digits, LagStem name digits := by
      by_contra hnone
      rw [lagKey_of_no_stem (not_exists.mp hnone)] at hkey
      cases hkey
    rw [lagKey_of_stem hstem] at hkey
    split_ifs at hkey with hnumeral hrange
    obtain rfl := Except.ok.inj hkey
    rw [UInt16.toNat_ofNat_of_lt' (show _ < 65536 by omega)]
    exact ⟨digits, hstem, hnumeral, rfl, hrange⟩
  · rintro ⟨digits, hstem, hnumeral, hvalue, hrange⟩
    rw [lagKey_of_stem hstem, if_pos hnumeral, hvalue, if_pos hrange, UInt16.ofNat_toNat]

/-- A name has a key exactly if it is a stem and a numeral within the range. -/
theorem lagKey_names (name : String) : NamesLag name where
  accepted _ := lagKey_eq_ok_iff
  complete digits hstem hnumeral hone hmax :=
    ⟨_, by rw [lagKey_of_stem hstem, if_pos hnumeral, if_pos ⟨hone, hmax⟩],
      UInt16.toNat_ofNat_of_lt' (show _ < 65536 by omega)⟩
  range digits hstem hnumeral hout := by
    rw [lagKey_of_stem hstem, if_pos hnumeral, if_neg (by omega)]
  missing digits hstem hnumeral := by rw [lagKey_of_stem hstem, if_neg hnumeral]
  form := lagKey_of_no_stem
  refused hnone := by
    by_cases hform : ∀ digits, ¬ LagStem name digits
    · exact ⟨_, lagKey_of_no_stem hform⟩
    · push Not at hform
      obtain ⟨digits, hstem⟩ := hform
      rw [lagKey_of_stem hstem] at hnone ⊢
      split_ifs at hnone ⊢
      · exact absurd rfl (hnone _)
      · exact ⟨_, rfl⟩
      · exact ⟨_, rfl⟩
  stem _ _ := LagStem.unique
  narrow _ := by rw [lagKey_eq_ok_iff, narrowKey?_eq_some_iff]

/-- Zeros before the number do not count, and a number of any length can be too large. -/
example : lagKey "lag00000000000000000000000010" = .ok 10 ∧
    lagKey "lag100000000000000000000000010" =
      .error (.invalidConfig "lag" (.lagNumberRange "lag100000000000000000000000010" 9999)) := by
  decide

/-! ## Port numbers -/

/-- The name is a stem that does not end in a digit, and the digits after it. -/
structure Ends (name : String) (stem digits : List Char) : Prop where
  name : name.toList = stem ++ digits
  stem : ∀ h : stem ≠ [], ¬ (stem.getLast h).isDigit
  digits : ∀ c ∈ digits, c.isDigit

theorem trailingDigits_eq (cs : List Char) : trailingDigits cs = cs.rtakeWhile Char.isDigit := by
  rw [trailingDigits, List.rtakeWhile]
  simp only [isSome_digit?]

/-- A name ends in its trailing digits. -/
theorem ends_trailingDigits (name : String) :
    Ends name (name.toList.rdropWhile Char.isDigit) (trailingDigits name.toList) where
  name := by rw [trailingDigits_eq, List.rdropWhile_append_rtakeWhile]
  stem := List.rdropWhile_last_not _ _
  digits := by
    rw [trailingDigits_eq]
    exact fun _ => List.mem_rtakeWhile_imp

theorem Ends.trailingDigits_eq (h : Ends name stem digits) :
    trailingDigits name.toList = digits := by
  have hstem : stem.rtakeWhile Char.isDigit = [] := List.rtakeWhile_eq_nil_iff.mpr h.stem
  rw [List.rtakeWhile, List.reverse_eq_nil_iff] at hstem
  rw [LinkAggregation.trailingDigits_eq, h.name, List.rtakeWhile, List.reverse_append,
    List.takeWhile_append_of_pos (fun c hc => h.digits c (List.mem_reverse.mp hc)), hstem,
    List.append_nil, List.reverse_reverse]

theorem Ends.unique {stem' digits' : List Char} (h : Ends name stem digits)
    (h' : Ends name stem' digits') : stem = stem' ∧ digits = digits' := by
  have hdigits : digits = digits' := h.trailingDigits_eq.symm.trans h'.trailingDigits_eq
  have hname := h.name.symm.trans h'.name
  rw [hdigits] at hname
  exact ⟨List.append_cancel_right hname, hdigits⟩

/-- The digits are the longest run that ends the name. -/
theorem Ends.longest {before run : List Char} (h : Ends name stem digits)
    (hname : name.toList = before ++ run) (hrun : ∀ c ∈ run, c.isDigit) : run <:+ digits := by
  rw [← h.trailingDigits_eq, LinkAggregation.trailingDigits_eq, hname, List.rtakeWhile,
    List.reverse_append,
    List.takeWhile_append_of_pos (fun c hc => hrun c (List.mem_reverse.mp hc)),
    List.reverse_append, List.reverse_reverse]
  exact List.suffix_append _ _

/-- The number after that of the digits: they are read in 32 bits, one is added if the sum is one
of 32 bits, and the sum is taken if it is one of 16 bits. -/
def nextNumber? (digits : List Char) : Option Nat :=
  (((digitsWithin? (2 ^ 32 - 1) digits).map (· + 1)).filter (· ≤ 2 ^ 32 - 1)).filter
    (· ≤ 2 ^ 16 - 1)

theorem nextNumber?_eq_some_iff {n : Nat} : nextNumber? digits = some n ↔
    Numeral digits ∧ decimalValue digits ≤ 65534 ∧ n = decimalValue digits + 1 := by
  simp only [nextNumber?, Option.filter_eq_some_iff, Option.map_eq_some_iff,
    digitsWithin?_eq_some_iff, decide_eq_true_iff]
  constructor
  · rintro ⟨⟨⟨_, ⟨hnumeral, rfl, -⟩, rfl⟩, -⟩, hnarrow⟩
    exact ⟨hnumeral, by omega, rfl⟩
  · rintro ⟨hnumeral, hvalue, rfl⟩
    exact ⟨⟨⟨_, ⟨hnumeral, rfl, by omega⟩, rfl⟩, by omega⟩, by omega⟩

theorem Ends.defaultPortNumber_of_le (h : Ends name stem digits) (hdigits : digits ≠ [])
    (hvalue : decimalValue digits ≤ 65534) (slot : Nat) :
    (defaultPortNumber name slot).toNat = decimalValue digits + 1 := by
  have hread : digitsValue? digits = some (decimalValue digits) :=
    digitsValue?_eq_some_iff.mpr ⟨⟨hdigits, h.digits⟩, rfl⟩
  rw [defaultPortNumber, h.trailingDigits_eq, hread]
  simp only [if_pos hvalue]
  exact UInt16.toNat_ofNat_of_lt' (show _ < 65536 by omega)

theorem Ends.defaultPortNumber_of_lt (h : Ends name stem digits)
    (hvalue : digits = [] ∨ 65534 < decimalValue digits) (slot : Nat) :
    (defaultPortNumber name slot).toNat = min (slot + 1) 65535 := by
  have hslot : (UInt16.ofNat (min (slot + 1) 65535)).toNat = min (slot + 1) 65535 :=
    UInt16.toNat_ofNat_of_lt' (show _ < 65536 by omega)
  rw [defaultPortNumber, h.trailingDigits_eq]
  split
  · next n hread =>
    obtain ⟨hnumeral, rfl⟩ := digitsValue?_eq_some_iff.mp hread
    rw [if_neg (by have := hvalue.resolve_left hnumeral.1; omega), hslot]
  · exact hslot

/-- What is promised about the port number that an interface of this name has by default, in
whatever slot. -/
structure NumbersPort (name : String) (slot : Nat) : Prop where
  /-- A name is in one way a stem and the digits that end it. -/
  ends : ∃! split : List Char × List Char, Ends name split.1 split.2
  /-- These are the longest run of digits that ends the name. -/
  longest : ∀ stem digits, Ends name stem digits → ∀ before run, name.toList = before ++ run →
    (∀ c ∈ run, c.isDigit) → run <:+ digits
  /-- One more than the number of the digits, if there are any and it fits. -/
  number : ∀ stem digits, Ends name stem digits → digits ≠ [] → decimalValue digits ≤ 65534 →
    (defaultPortNumber name slot).toNat = decimalValue digits + 1
  /-- Otherwise one more than the slot, but at most the largest number. -/
  place : ∀ stem digits, Ends name stem digits → digits = [] ∨ 65534 < decimalValue digits →
    (defaultPortNumber name slot).toNat = min (slot + 1) 65535
  /-- No port has the number zero. -/
  positive : defaultPortNumber name slot ≠ 0
  /-- A number from the name is the same in any slot. -/
  same : ∀ stem digits, Ends name stem digits → digits ≠ [] → decimalValue digits ≤ 65534 →
    ∀ other, defaultPortNumber name slot = defaultPortNumber name other
  /-- Names with different numbers that fit give different ports, with one stem or with two. -/
  distinct : ∀ stem digits, Ends name stem digits → digits ≠ [] → decimalValue digits ≤ 65534 →
    ∀ name' stem' digits', Ends name' stem' digits' → digits' ≠ [] →
    decimalValue digits' ≤ 65534 → decimalValue digits ≠ decimalValue digits' →
    ∀ slot', defaultPortNumber name slot ≠ defaultPortNumber name' slot'
  /-- Reading in 32 bits and narrowing to 16 finds the same number. -/
  narrow : defaultPortNumber name slot =
    UInt16.ofNat ((nextNumber? (trailingDigits name.toList)).getD (min (slot + 1) 65535))

theorem defaultPortNumber_eq_getD (name : String) (slot : Nat) : defaultPortNumber name slot =
    UInt16.ofNat ((nextNumber? (trailingDigits name.toList)).getD (min (slot + 1) 65535)) := by
  have hends := ends_trailingDigits name
  by_cases hnumber : trailingDigits name.toList ≠ [] ∧
      decimalValue (trailingDigits name.toList) ≤ 65534
  · have hnext := nextNumber?_eq_some_iff.mpr ⟨⟨hnumber.1, hends.digits⟩, hnumber.2, rfl⟩
    rw [hnext, Option.getD_some, ← hends.defaultPortNumber_of_le hnumber.1 hnumber.2 slot,
      UInt16.ofNat_toNat]
  · have hnext : nextNumber? (trailingDigits name.toList) = none := by
      refine Option.eq_none_iff_forall_not_mem.mpr fun n hn => hnumber ?_
      obtain ⟨hnumeral, hvalue, -⟩ := nextNumber?_eq_some_iff.mp hn
      exact ⟨hnumeral.1, hvalue⟩
    rw [not_and_or, not_not, not_le] at hnumber
    rw [hnext, Option.getD_none, ← hends.defaultPortNumber_of_lt hnumber slot,
      UInt16.ofNat_toNat]

/-- The port number comes from the name if the name ends in a number that fits, and from the slot
otherwise. -/
theorem defaultPortNumber_numbers (name : String) (slot : Nat) : NumbersPort name slot where
  ends := ⟨(_, _), ends_trailingDigits name, fun _ h =>
    Prod.ext_iff.mpr (h.unique (ends_trailingDigits name))⟩
  longest _ _ hends _ _ := hends.longest
  number _ _ hends hdigits hvalue := hends.defaultPortNumber_of_le hdigits hvalue slot
  place _ _ hends hvalue := hends.defaultPortNumber_of_lt hvalue slot
  positive := defaultPortNumber_ne_zero name slot
  same _ _ hends hdigits hvalue other := by
    rw [← UInt16.toNat_inj, hends.defaultPortNumber_of_le hdigits hvalue,
      hends.defaultPortNumber_of_le hdigits hvalue]
  distinct _ _ hends hdigits hvalue _ _ _ hends' hdigits' hvalue' hne slot' := by
    rw [ne_eq, ← UInt16.toNat_inj, hends.defaultPortNumber_of_le hdigits hvalue,
      hends'.defaultPortNumber_of_le hdigits' hvalue']
    omega
  narrow := defaultPortNumber_eq_getD name slot

end LinkAggregation
