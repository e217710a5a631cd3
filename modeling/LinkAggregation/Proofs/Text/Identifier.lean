import LinkAggregation.Flags
import LinkAggregation.Identity
import LinkAggregation.Proofs.Text.Address

/-!
# What is written is read back

Keys, addresses, the identifiers of systems and ports, and state flags are read back from the texts
that are written for them. Commas separate the parts of an identifier and the flags of a state, and
colons the groups of an address and the name of a flag from its value. No part holds the separator
that it is cut at.
-/
namespace LinkAggregation
open Text

namespace Text

/-- The digits that are written are neither blanks nor marks. -/
theorem digitChar_plain {n : Nat} (h : n < 16) :
    isBlank (digitChar n) = false ∧ digitChar n ∉ ['+', ',', ':', '-'] :=
  (by decide : ∀ k < 16, isBlank (digitChar k) = false ∧ digitChar k ∉ ['+', ',', ':', '-']) n h

theorem hexDigit_digitChar {n : Nat} (h : n < 16) : HexDigit (digitChar n) n :=
  hexDigit?_eq_some_iff.mp (hexDigit?_digitChar h)

theorem exists_digitChar_of_mem {c : Char} {n : Nat} (h : c ∈ decimalDigits n) :
    ∃ k < 10, c = digitChar k := by
  induction n using Nat.strongRecOn with
  | _ n ih =>
    rw [decimalDigits] at h
    split at h
    · next hn => exact ⟨n, hn, List.mem_singleton.mp h⟩
    · next hn =>
      rcases List.mem_append.mp h with hfront | hlast
      · exact ih (n / 10) (by omega) hfront
      · exact ⟨n % 10, Nat.mod_lt n (by omega), List.mem_singleton.mp hlast⟩

/-- A decimal text has no blanks and no marks. -/
theorem plain_of_mem_decimalDigits {c : Char} {n : Nat} (h : c ∈ decimalDigits n) :
    isBlank c = false ∧ c ∉ ['+', ',', ':', '-'] := by
  obtain ⟨k, hk, rfl⟩ := exists_digitChar_of_mem h
  exact digitChar_plain (by omega)

end Text

variable {α β : Type} {left : List Char → Option α} {right : List Char → Option β}

/-- Both parts of a pair are read if the first has no comma and neither has blanks. -/
theorem pair?_append {before after : List Char} {a : α} {b : β}
    (hbefore : ∀ c ∈ before, isBlank c = false ∧ c ≠ ',') (hafter : ∀ c ∈ after, isBlank c = false)
    (hleft : left before = some a) (hright : right after = some b) :
    pair? left right (before ++ ',' :: after) = some (a, b) := by
  have hcut : splitFirst? ',' (before ++ ',' :: after) = some (before, after) :=
    splitFirst?_append (fun hmem => (hbefore _ hmem).2 rfl) after
  have htrim : trim before = before := trim_eq_self fun c hc => (hbefore c hc).1
  simp [pair?, hcut, htrim, trim_eq_self hafter, hleft, hright]

theorem word16?_decimalDigits (n : UInt16) : word16? (decimalDigits n.toNat) = some n := by
  have hplus : '+' ∉ decimalDigits n.toNat := fun hmem =>
    (plain_of_mem_decimalDigits hmem).2 (by simp)
  have hunsigned : unsigned? 65535 (decimalDigits n.toNat) = some n.toNat := by
    have hlt := n.toNat_lt
    have hlimit : n.toNat ≤ 65535 := by omega
    unfold unsigned?
    split
    · next rest hdigits =>
      rw [hdigits] at hplus
      exact absurd List.mem_cons_self hplus
    · simp [digitsValue?_decimalDigits, hlimit]
  rw [word16?, hunsigned, Option.map_some, UInt16.ofNat_toNat]

/-! ## Addresses -/

namespace MacAddress

theorem pair_octetDigits (octet : UInt8) : Pair (octetDigits octet) octet := by
  have hlt := octet.toNat_lt
  exact ⟨_, _, rfl, hexDigit_digitChar (by omega), hexDigit_digitChar (by omega)⟩

theorem spelled_text (m : MacAddress) : Spelled Pair m.text m := by
  refine ⟨':', .inl rfl, m.octets.map octetDigits, ?_, ?_⟩
  · simp [octets, pair_octetDigits]
  · simp [text, chars, octets, List.intercalate]

/-- An address is read back from its text. -/
@[simp] theorem parse_text (m : MacAddress) : parse m.text = .ok m :=
  parse_eq_ok_iff.mpr m.spelled_text.mono

theorem ofChars?_chars (m : MacAddress) : ofChars? m.chars = some m := by
  have hparse := m.parse_text
  rw [parse, text, String.toList_ofList] at hparse
  cases hread : ofChars? m.chars with
  | none => simp [hread] at hparse
  | some m' => simpa [hread] using hparse

/-- Blanks do not occur in an address. -/
theorem isBlank_of_mem_chars {m : MacAddress} {c : Char} (h : c ∈ m.chars) : isBlank c = false := by
  have hoctet {o : UInt8} (ho : c ∈ octetDigits o) : isBlank c = false := by
    have hlt := o.toNat_lt
    rcases List.mem_pair.mp ho with rfl | rfl <;> exact (digitChar_plain (by omega)).1
  have hcolon : isBlank ':' = false := by decide
  simp only [chars, List.mem_append, List.mem_cons] at h
  rcases h with h | rfl | h | rfl | h | rfl | h | rfl | h | rfl | h
  all_goals first | exact hoctet h | exact hcolon

end MacAddress

/-! ## Identifiers -/

/-- A system is read back from its text. -/
@[simp] theorem SystemId.parse_text (s : SystemId) : parse s.text = .ok s := by
  have hpair : pair? word16? MacAddress.ofChars?
      (decimalDigits s.priority.toNat ++ ',' :: s.mac.chars) = some (s.priority, s.mac) :=
    pair?_append (fun c hc => ⟨(plain_of_mem_decimalDigits hc).1, fun hcomma =>
        (plain_of_mem_decimalDigits hc).2 (by simp [hcomma])⟩)
      (fun c => MacAddress.isBlank_of_mem_chars) (word16?_decimalDigits _)
      (MacAddress.ofChars?_chars _)
  have htext : s.text.toList = decimalDigits s.priority.toNat ++ ',' :: s.mac.chars := by
    simp [text, decimal, MacAddress.text]
  simp [parse, ofChars?, htext, hpair]

/-- A port is read back from its text. -/
@[simp] theorem PortId.parse_text (p : PortId) : parse p.text = .ok p := by
  have hpair : pair? word16? word16?
      (decimalDigits p.priority.toNat ++ ',' :: decimalDigits p.number.toNat) =
        some (p.priority, p.number) :=
    pair?_append (fun c hc => ⟨(plain_of_mem_decimalDigits hc).1, fun hcomma =>
        (plain_of_mem_decimalDigits hc).2 (by simp [hcomma])⟩)
      (fun c hc => (plain_of_mem_decimalDigits hc).1) (word16?_decimalDigits _)
      (word16?_decimalDigits _)
  have htext : p.text.toList =
      decimalDigits p.priority.toNat ++ ',' :: decimalDigits p.number.toNat := by
    simp [text, decimal]
  simp [parse, ofChars?, htext, hpair]

/-! ## State flags -/

namespace Flags

/-- How one flag is written. -/
def piece (name : String) (on : Bool) : List Char :=
  name.toList ++ [':', if on then '1' else '0']

/-- Reads one flag: its name, a colon and 0 or 1. -/
def flag? (name : String) (cs : List Char) : Option Bool := do
  match ← dropStart? (name.toList ++ [':']) cs with
  | ['0'] => some false
  | ['1'] => some true
  | _ => none

/-- Reads the eight flags between commas. -/
def ofText? (s : String) : Option Flags :=
  match splitOn ',' s.toList with
  | [a, b, c, d, e, f, g, h] => do
    some
      { activity := ← flag? "Activ" a
        timeout := ← flag? "TmOut" b
        aggregation := ← flag? "Aggr" c
        sync := ← flag? "Sync" d
        collecting := ← flag? "Col" e
        distributing := ← flag? "Dist" f
        defaulted := ← flag? "Def" g
        expired := ← flag? "Exp" h }
  | _ => none

@[simp] theorem flag?_piece (name : String) (on : Bool) : flag? name (piece name on) = some on := by
  have hpiece : piece name on = (name.toList ++ [':']) ++ [if on then '1' else '0'] := by
    simp [piece]
  rw [flag?, dropStart?_eq_some_iff.mpr hpiece]
  cases on <;> rfl

theorem splitOn_text (f : Flags) :
    splitOn ',' f.text.toList = (names.zip f.toList).map fun flag => piece flag.1 flag.2 := by
  have hflag (flag : String × Bool) :
      (flag.1 ++ ":" ++ if flag.2 then "1" else "0").toList = piece flag.1 flag.2 := by
    cases hon : flag.2 <;> simp [piece]
  have htext : f.text.toList =
      [','].intercalate ((names.zip f.toList).map fun flag => piece flag.1 flag.2) := by
    rw [text, String.toList_intercalate, List.map_map]
    exact congrArg _ (List.map_congr_left fun flag _ => hflag flag)
  have hname : ∀ name ∈ names, ',' ∉ name.toList := by decide
  have hfree : ∀ cs ∈ (names.zip f.toList).map fun flag => piece flag.1 flag.2, ',' ∉ cs := by
    intro _ hmem
    obtain ⟨⟨name, on⟩, hzip, rfl⟩ := List.mem_map.mp hmem
    have hname := hname name (List.of_mem_zip hzip).1
    cases on <;> simp [piece, hname]
  rw [splitOn_eq, htext, List.splitOn_intercalate _ hfree (by simp [names, toList])]

/-- Flags are read back from their text. -/
@[simp] theorem ofText?_text (f : Flags) : ofText? f.text = some f := by
  simp [ofText?, splitOn_text, names, toList]

end Flags
end LinkAggregation
