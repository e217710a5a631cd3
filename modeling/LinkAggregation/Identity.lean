import LinkAggregation.Mac
import LinkAggregation.Text.Blank

/-!
# System and port identifiers

A system identifier is a priority and a MAC address, a port identifier a priority and a port
number. Both are written as two parts with a comma. The lower rank is the better one: priorities
are compared first.
-/
namespace LinkAggregation
open Text

/-- Reads `<left>,<right>`; blanks around each part are ignored. -/
def pair? {α β : Type} (left : List Char → Option α) (right : List Char → Option β)
    (cs : List Char) : Option (α × β) := do
  let (before, after) ← splitFirst? ',' cs
  return (← left (trim before), ← right (trim after))

/-- A decimal numeral of 16 bits. -/
def word16? (cs : List Char) : Option UInt16 := (unsigned? 65535 cs).map UInt16.ofNat

/-- A system: its priority and its MAC address. -/
structure SystemId where
  priority : UInt16 := 0
  mac : MacAddress := {}
  deriving DecidableEq, Repr, Inhabited

namespace SystemId

/-- The order of systems: by priority, then by address. -/
def rank (s : SystemId) : Nat := s.priority.toNat * 0x1000000000000 + s.mac.value

def text (s : SystemId) : String := decimal s.priority.toNat ++ "," ++ s.mac.text

def ofChars? (cs : List Char) : Option SystemId :=
  (pair? word16? MacAddress.ofChars? cs).map fun (priority, mac) => ⟨priority, mac⟩

def parse (s : String) : Except ValueError SystemId :=
  ValueKind.systemId.require s (ofChars? s.toList)

end SystemId

/-- A port of a system: its priority and its number. -/
structure PortId where
  priority : UInt16 := 0
  number : UInt16 := 0
  deriving DecidableEq, Repr, Inhabited

namespace PortId

/-- The order of ports: by priority, then by number. -/
def rank (p : PortId) : Nat := p.priority.toNat * 0x10000 + p.number.toNat

def text (p : PortId) : String := decimal p.priority.toNat ++ "," ++ decimal p.number.toNat

def ofChars? (cs : List Char) : Option PortId :=
  (pair? word16? word16? cs).map fun (priority, number) => ⟨priority, number⟩

def parse (s : String) : Except ValueError PortId :=
  ValueKind.portId.require s (ofChars? s.toList)

end PortId
end LinkAggregation
