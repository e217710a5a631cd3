import LinkAggregation.Text.Numeral
import LinkAggregation.Text.Split
import LinkAggregation.ValueError

/-!
# MAC addresses

A MAC address has six octets. Its text is six groups of two hexadecimal digits, all joined by
colons or all by hyphens; it is written in lower case with colons. Addresses are ordered as
48-bit numbers.
-/
namespace LinkAggregation

/-- A 48-bit Ethernet address, first octet first. -/
structure MacAddress where
  o1 : UInt8 := 0
  o2 : UInt8 := 0
  o3 : UInt8 := 0
  o4 : UInt8 := 0
  o5 : UInt8 := 0
  o6 : UInt8 := 0
  deriving DecidableEq, Repr, Inhabited

namespace MacAddress
open Text

/-- The all-zero address. -/
def zero : MacAddress := {}

/-- The Slow Protocols group address, the destination of every LACP and Marker frame. -/
def slowProtocols : MacAddress := ⟨0x01, 0x80, 0xc2, 0x00, 0x00, 0x02⟩

def octets (m : MacAddress) : List UInt8 := [m.o1, m.o2, m.o3, m.o4, m.o5, m.o6]

/-- The address made of the first six octets, if there are six. -/
def ofOctets? : List UInt8 → Option MacAddress
  | a :: b :: c :: d :: e :: f :: _ => some ⟨a, b, c, d, e, f⟩
  | _ => none

@[simp] theorem ofOctets?_octets_append (m : MacAddress) (rest : List UInt8) :
    ofOctets? (m.octets ++ rest) = some m := rfl

@[simp] theorem length_octets (m : MacAddress) : m.octets.length = 6 := rfl

/-- The address as a 48-bit number, which orders addresses. -/
def value (m : MacAddress) : Nat :=
  m.octets.foldl (fun n o => n * 256 + o.toNat) 0

/-- Group addresses have the lowest bit of the first octet set. -/
def isMulticast (m : MacAddress) : Bool := m.o1.toNat % 2 == 1

def isZero (m : MacAddress) : Bool := m == zero

/-- Six lower-case groups with colons between them. -/
def chars (m : MacAddress) : List Char :=
  octetDigits m.o1 ++ ':' :: (octetDigits m.o2 ++ ':' :: (octetDigits m.o3 ++ ':' ::
    (octetDigits m.o4 ++ ':' :: (octetDigits m.o5 ++ ':' :: octetDigits m.o6))))

def text (m : MacAddress) : String := String.ofList m.chars

/-- One group: two characters that read as a hexadecimal numeral. A plus sign before a single
digit counts as a numeral too. -/
def group? : List Char → Option UInt8
  | [c, d] => do
    let low ← hexDigit? d
    if c = '+' then some (UInt8.ofNat low)
    else
      let high ← hexDigit? c
      some (UInt8.ofNat (high * 16 + low))
  | _ => none

/-- Groups are separated by colons if the text has a colon, else by hyphens. -/
def separator (cs : List Char) : Char := if ':' ∈ cs then ':' else '-'

def ofChars? (cs : List Char) : Option MacAddress :=
  match splitOn (separator cs) cs with
  | [a, b, c, d, e, f] => do
    some ⟨← group? a, ← group? b, ← group? c, ← group? d, ← group? e, ← group? f⟩
  | _ => none

/-- Reads an address. -/
def parse (s : String) : Except ValueError MacAddress :=
  ValueKind.mac.require s (ofChars? s.toList)

end MacAddress
end LinkAggregation
