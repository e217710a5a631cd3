import LinkAggregation.Mac
import Mathlib.Data.List.Forall2

/-!
# The texts that are MAC addresses

A text is read as an address if it is six groups, all joined by colons or all by hyphens, and each
group is two hexadecimal digits or a plus sign before one digit. Without a plus sign these are the
texts of the usual syntax, and such a text is written back in lower case with colons. Every other
text is refused.
-/
namespace LinkAggregation.Text

/-- Splitting is the library's. -/
theorem splitOn_eq (sep : Char) (cs : List Char) : splitOn sep cs = cs.splitOn sep := by
  induction cs with
  | nil => simp [splitOn]
  | cons c rest ih =>
    rw [List.splitOn, List.splitOnP_cons_eq_if_modifyHead, ← List.splitOn, ← ih]
    by_cases hc : c = sep
    · simp [splitOn, hc]
    · cases hs : splitOn sep rest with
      | nil => exact absurd (ih.symm.trans hs) (List.splitOnP_ne_nil _ _)
      | cons piece pieces => simp [splitOn, hc, hs]

/-- A hexadecimal digit of either case and its value, which is its place in lower case. -/
def HexDigit (c : Char) (value : Nat) : Prop :=
  "0123456789abcdef".toList[value]? = some c.toLower

instance (c : Char) (value : Nat) : Decidable (HexDigit c value) := by
  unfold HexDigit
  infer_instance

theorem HexDigit.lt {c : Char} {value : Nat} (h : HexDigit c value) : value < 16 :=
  (List.getElem?_eq_some_iff.mp h).1

/-- In lower case a digit is the one that is written for its value. -/
theorem HexDigit.toLower_eq {c : Char} {value : Nat} (h : HexDigit c value) :
    c.toLower = digitChar value := by
  have hlt := h.lt
  have hdigit : ∀ v < 16, "0123456789abcdef".toList[v]? = some (digitChar v) := by decide
  rw [HexDigit, hdigit value hlt] at h
  exact (Option.some.inj h).symm

theorem HexDigit.toNat_lt {c : Char} {value : Nat} (h : HexDigit c value) : c.toNat < 128 := by
  have hdigit : ∀ v < 16, (digitChar v).toNat < 128 := by decide
  have hlower := hdigit value h.lt
  rw [← h.toLower_eq] at hlower
  by_cases hcase : c.val ≥ 'A'.val ∧ c.val ≤ 'Z'.val
  · have hle : c.toNat ≤ 90 := hcase.2
    omega
  · have hsame : c.toLower = c := dif_neg hcase
    rwa [hsame] at hlower

theorem lt_of_hexDigit? {c : Char} {value : Nat} (h : hexDigit? c = some value) :
    value < 16 ∧ c.toNat < 128 := by
  have hle : ∀ a b : Char, a ≤ b ↔ a.toNat ≤ b.toNat := fun _ _ => Iff.rfl
  have hnames : '0'.toNat = 48 ∧ '9'.toNat = 57 ∧ 'a'.toNat = 97 ∧ 'f'.toNat = 102 ∧
    'A'.toNat = 65 ∧ 'F'.toNat = 70 := by decide
  unfold hexDigit? at h
  simp only [hle] at h
  split_ifs at h
  all_goals
    cases h
    omega

/-- A character is read as a digit if it is one, with its value. -/
theorem hexDigit?_eq_some_iff {c : Char} {value : Nat} :
    hexDigit? c = some value ↔ HexDigit c value := by
  have hascii : ∀ n < 128, ∀ v < 16,
      hexDigit? (Char.ofNat n) = some v ↔ HexDigit (Char.ofNat n) v := by decide +kernel
  have hchar (hc : c.toNat < 128) (hvalue : value < 16) :
      hexDigit? c = some value ↔ HexDigit c value := by
    have := hascii c.toNat hc value hvalue
    rwa [Char.ofNat_toNat] at this
  constructor
  · intro h
    obtain ⟨hvalue, hc⟩ := lt_of_hexDigit? h
    exact (hchar hc hvalue).mp h
  · intro h
    exact (hchar h.toNat_lt h.lt).mpr h

end LinkAggregation.Text

namespace LinkAggregation.MacAddress
open Text

/-- Two hexadecimal digits and the octet they stand for. -/
def Pair (cs : List Char) (octet : UInt8) : Prop :=
  ∃ c d, cs = [c, d] ∧ HexDigit c (octet.toNat / 16) ∧ HexDigit d (octet.toNat % 16)

/-- A plus sign before a digit, and the octet of that value. -/
def Signed (cs : List Char) (octet : UInt8) : Prop :=
  ∃ d, cs = ['+', d] ∧ HexDigit d octet.toNat

/-- What stands for an octet where an address is read. -/
def Group (cs : List Char) (octet : UInt8) : Prop := Pair cs octet ∨ Signed cs octet

/-- The text is one group for each octet, all joined by colons or all by hyphens. -/
def Spelled (group : List Char → UInt8 → Prop) (s : String) (m : MacAddress) : Prop :=
  ∃ sep, (sep = ':' ∨ sep = '-') ∧
    ∃ groups, List.Forall₂ group groups m.octets ∧ s.toList = [sep].intercalate groups

theorem Spelled.mono {s : String} {m : MacAddress} (h : Spelled Pair s m) :
    Spelled Group s m := by
  obtain ⟨sep, hsep, groups, hgroups, hs⟩ := h
  exact ⟨sep, hsep, groups, hgroups.imp fun _ _ => Or.inl, hs⟩

/-- How a character of an address is written back. -/
def written (c : Char) : Char := if c = '-' then ':' else c.toLower

variable {c sep : Char} {cs : List Char} {octet : UInt8} {value : Nat} {m : MacAddress}
  {groups : List (List Char)}

theorem not_mem_of_hexDigit (h : HexDigit c value) : c ∉ ['+', ':', '-'] := by
  have hdigit : c.toLower ∈ "0123456789abcdef".toList := List.mem_of_getElem? h
  have hmarks : '+'.toLower ∉ "0123456789abcdef".toList ∧
      ':'.toLower ∉ "0123456789abcdef".toList ∧ '-'.toLower ∉ "0123456789abcdef".toList := by
    decide
  intro hmark
  simp only [List.mem_cons, List.not_mem_nil, or_false] at hmark
  rcases hmark with rfl | rfl | rfl
  · exact hmarks.1 hdigit
  · exact hmarks.2.1 hdigit
  · exact hmarks.2.2 hdigit

theorem group?_eq_some_iff : group? cs = some octet ↔ Group cs octet := by
  have hoctet := octet.toNat_lt
  constructor
  · intro h
    match cs with
    | [c, d] =>
      simp only [group?, Option.bind_eq_bind, Option.bind_eq_some_iff, hexDigit?_eq_some_iff] at h
      obtain ⟨low, hlow, h⟩ := h
      have := hlow.lt
      split_ifs at h with hplus
      · cases h
        right
        rw [hplus]
        exact ⟨d, rfl, by simpa [Nat.mod_eq_of_lt (show low < 256 by omega)] using hlow⟩
      · obtain ⟨high, hhigh, h⟩ := Option.bind_eq_some_iff.mp h
        rw [hexDigit?_eq_some_iff] at hhigh
        have := hhigh.lt
        cases h
        left
        have hvalue : (UInt8.ofNat (high * 16 + low)).toNat = high * 16 + low := by
          rw [UInt8.toNat_ofNat']
          omega
        refine ⟨c, d, rfl, ?_, ?_⟩
        · rwa [hvalue, show (high * 16 + low) / 16 = high by omega]
        · rwa [hvalue, show (high * 16 + low) % 16 = low by omega]
    | [] | [_] | _ :: _ :: _ :: _ => simp [group?] at h
  · rintro (⟨c, d, rfl, hc, hd⟩ | ⟨d, rfl, hd⟩)
    · have hplus : c ≠ '+' := fun hplus => not_mem_of_hexDigit hc (by simp [hplus])
      simp only [group?, hexDigit?_eq_some_iff.mpr hc, hexDigit?_eq_some_iff.mpr hd, if_neg hplus,
        Option.bind_eq_bind, Option.bind_some]
      rw [Nat.div_add_mod', UInt8.ofNat_toNat]
    · simp [group?, hexDigit?_eq_some_iff.mpr hd]

/-- A group holds no separator. -/
theorem Group.not_mem (hg : Group cs octet) (hsep : sep = ':' ∨ sep = '-') :
    sep ∉ cs := by
  have hdigit : ∀ {c value}, HexDigit c value → sep ≠ c := by
    intro c value h heq
    have := not_mem_of_hexDigit h
    rcases hsep with rfl | rfl <;> simp [← heq] at this
  rcases hg with ⟨c, d, rfl, hc, hd⟩ | ⟨d, rfl, hd⟩
  · simp [hdigit hc, hdigit hd]
  · have hplus : sep ≠ '+' := by rcases hsep with rfl | rfl <;> decide
    simp [hplus, hdigit hd]

/-- A list that goes with the octets has six elements. -/
theorem forall₂_octets {R : List Char → UInt8 → Prop} (h : List.Forall₂ R groups m.octets) :
    ∃ a b c d e f, groups = [a, b, c, d, e, f] ∧
      R a m.o1 ∧ R b m.o2 ∧ R c m.o3 ∧ R d m.o4 ∧ R e m.o5 ∧ R f m.o6 := by
  match groups, h with
  | [a, b, c, d, e, f], h =>
    simp only [octets, List.forall₂_cons, List.Forall₂.nil, and_true] at h
    exact ⟨a, b, c, d, e, f, rfl, h⟩

/-- An address is read off six groups. -/
theorem ofChars?_eq_some_iff : ofChars? cs = some m ↔
    List.Forall₂ Group (cs.splitOn (separator cs)) m.octets := by
  rw [← splitOn_eq]
  constructor
  · intro h
    unfold ofChars? at h
    split at h
    · next hs =>
      simp only [Option.bind_eq_bind, Option.bind_eq_some_iff, group?_eq_some_iff] at h
      obtain ⟨o1, h1, o2, h2, o3, h3, o4, h4, o5, h5, o6, h6, hm⟩ := h
      cases hm
      rw [hs]
      simp [octets, h1, h2, h3, h4, h5, h6]
    · cases h
  · intro h
    obtain ⟨a, b, c, d, e, f, hs, h1, h2, h3, h4, h5, h6⟩ := forall₂_octets h
    rw [← group?_eq_some_iff] at h1 h2 h3 h4 h5 h6
    simp only [ofChars?, hs, h1, h2, h3, h4, h5, h6, Option.bind_eq_bind, Option.bind_some]

/-- Six joined groups are cut where they are joined. -/
theorem separator_intercalate (hsep : sep = ':' ∨ sep = '-')
    (hgroups : List.Forall₂ Group groups m.octets) :
    separator ([sep].intercalate groups) = sep := by
  obtain ⟨a, b, c, d, e, f, rfl, h1, h2, h3, h4, h5, h6⟩ := forall₂_octets hgroups
  have hcolon {g : List Char} {o : UInt8} (hg : Group g o) : ':' ∉ g := hg.not_mem (.inl rfl)
  rcases hsep with rfl | rfl
  · simp [separator, List.intercalate]
  · simp [separator, List.intercalate, hcolon h1, hcolon h2, hcolon h3, hcolon h4, hcolon h5,
      hcolon h6]

/-- Addresses are read from the texts that spell them. -/
theorem parse_eq_ok_iff {s : String} : parse s = .ok m ↔ Spelled Group s m := by
  have hparse : parse s = .ok m ↔ ofChars? s.toList = some m := by
    rw [parse]
    cases ofChars? s.toList <;> simp
  rw [hparse, ofChars?_eq_some_iff]
  constructor
  · intro h
    have hsep : separator s.toList = ':' ∨ separator s.toList = '-' := by
      unfold separator
      split_ifs <;> simp
    exact ⟨_, hsep, _, h, (List.intercalate_splitOn _).symm⟩
  · rintro ⟨sep, hsep, groups, hgroups, hs⟩
    obtain ⟨a, b, c, d, e, f, hlist, h1, h2, h3, h4, h5, h6⟩ := forall₂_octets hgroups
    have hfree : ∀ g ∈ groups, sep ∉ g := by
      simp only [hlist, List.forall_mem_cons]
      exact ⟨h1.not_mem hsep, h2.not_mem hsep, h3.not_mem hsep, h4.not_mem hsep, h5.not_mem hsep,
        h6.not_mem hsep, by simp⟩
    rw [hs, separator_intercalate hsep hgroups, List.splitOn_intercalate _ hfree (by simp [hlist])]
    exact hgroups

/-- A pair of digits is written back as the digits of its octet. -/
theorem Pair.map_written (h : Pair cs octet) : cs.map written = octetDigits octet := by
  obtain ⟨c, d, rfl, hc, hd⟩ := h
  have hwritten {c : Char} {v : Nat} (hc : HexDigit c v) : written c = digitChar v := by
    have hhyphen : c ≠ '-' := fun heq => not_mem_of_hexDigit hc (by simp [heq])
    rw [written, if_neg hhyphen, hc.toLower_eq]
  simp only [List.map_cons, List.map_nil, hwritten hc, hwritten hd, octetDigits]

/-- A text of pairs of digits is written back in lower case with colons. -/
theorem Spelled.text_eq {s : String} (h : Spelled Pair s m) :
    m.text = String.ofList (s.toList.map written) := by
  obtain ⟨sep, hsep, groups, hgroups, hs⟩ := h
  obtain ⟨a, b, c, d, e, f, rfl, h1, h2, h3, h4, h5, h6⟩ := forall₂_octets hgroups
  have hcolon : written sep = ':' := by
    rcases hsep with rfl | rfl <;> decide
  simp [hs, List.intercalate, text, chars, hcolon, h1.map_written, h2.map_written, h3.map_written,
    h4.map_written, h5.map_written, h6.map_written]

/-- A text of pairs of digits has no sign. -/
theorem Spelled.plus_not_mem {s : String} (h : Spelled Pair s m) : '+' ∉ s.toList := by
  obtain ⟨sep, hsep, groups, hgroups, hs⟩ := h
  obtain ⟨a, b, c, d, e, f, rfl, h1, h2, h3, h4, h5, h6⟩ := forall₂_octets hgroups
  have hplus {g : List Char} {o : UInt8} (hg : Pair g o) : '+' ∉ g := by
    obtain ⟨c, d, rfl, hc, hd⟩ := hg
    have hdigit {c : Char} {v : Nat} (hc : HexDigit c v) : '+' ≠ c :=
      fun heq => not_mem_of_hexDigit hc (by simp [← heq])
    simp [hdigit hc, hdigit hd]
  have hsep : '+' ≠ sep := by
    rcases hsep with rfl | rfl <;> decide
  simp [hs, List.intercalate, hsep, hplus h1, hplus h2, hplus h3, hplus h4, hplus h5, hplus h6]

/-- A text without a sign has pairs of digits for all its groups. -/
theorem Spelled.pairs {s : String} (hplus : '+' ∉ s.toList)
    (h : Spelled Group s m) : Spelled Pair s m := by
  obtain ⟨sep, hsep, groups, hgroups, hs⟩ := h
  refine ⟨sep, hsep, groups, ?_, hs⟩
  obtain ⟨a, b, c, d, e, f, rfl, h1, h2, h3, h4, h5, h6⟩ := forall₂_octets hgroups
  have hpair {g : List Char} {o : UInt8} (hg : Group g o) (hfree : '+' ∉ g) :
      Pair g o := by
    rcases hg with hg | ⟨d, rfl, -⟩
    · exact hg
    · simp at hfree
  simp only [hs, List.intercalate, List.intersperse, List.flatten_cons, List.mem_append,
    not_or] at hplus
  obtain ⟨ha, -, hb, -, hc, -, hd, -, he, -, hf, -⟩ := hplus
  simp [octets, hpair h1 ha, hpair h2 hb, hpair h3 hc, hpair h4 hd, hpair h5 he, hpair h6 hf]

/-- What reading a text as an address promises. -/
structure Reads (s : String) : Prop where
  /-- An address is read from the texts that have a group for each of its octets in order. -/
  read : ∀ m, parse s = .ok m ↔ Spelled Group s m
  /-- Of the texts without a plus sign these are six pairs of digits. -/
  pairs : '+' ∉ s.toList → ∀ m, parse s = .ok m ↔ Spelled Pair s m
  /-- What was read from pairs of digits is written as the text in lower case with colons. -/
  text : ∀ m, Spelled Pair s m → m.text = String.ofList (s.toList.map written)
  /-- Any other text is refused with an error that has the text. -/
  refused : (¬ ∃ m, Spelled Group s m) → parse s = .error ⟨.mac, s⟩

/-- Reading accepts the syntax of addresses, and a plus sign in place of a group's first digit. -/
theorem parse_reads (s : String) : Reads s where
  read _ := parse_eq_ok_iff
  pairs := by
    intro hplus m
    rw [parse_eq_ok_iff]
    exact ⟨Spelled.pairs hplus, Spelled.mono⟩
  text m h := h.text_eq
  refused := by
    intro hnone
    cases hparse : ofChars? s.toList with
    | none => simp [parse, hparse]
    | some m => exact absurd ⟨m, parse_eq_ok_iff.mp (by simp [parse, hparse])⟩ hnone

/-- A plus sign is read in place of a digit, though the text is not six pairs of digits. -/
theorem parse_plus :
    parse "+1:22:33:44:55:66" = .ok ⟨0x01, 0x22, 0x33, 0x44, 0x55, 0x66⟩ ∧
      ¬ ∃ m, Spelled Pair "+1:22:33:44:55:66" m := by
  constructor
  · decide
  · rintro ⟨m, h⟩
    exact h.plus_not_mem (by decide)

end LinkAggregation.MacAddress
