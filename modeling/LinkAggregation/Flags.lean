import LinkAggregation.Text.Numeral

/-!
# State flags

The eight flags that one side of a link reports, and the octet that carries them. The octet and
the flags determine each other (`ofBits_bits`, `bits_ofBits`).
-/
namespace LinkAggregation
open Text

/-- The state of one side of a link, lowest bit of the octet first. -/
structure Flags where
  activity : Bool := false
  /-- Short timeouts are asked for. -/
  timeout : Bool := false
  aggregation : Bool := false
  sync : Bool := false
  collecting : Bool := false
  distributing : Bool := false
  defaulted : Bool := false
  expired : Bool := false
  deriving DecidableEq, Repr, Inhabited

namespace Flags

/-- The flags in the order of their bits. -/
def toList (f : Flags) : List Bool :=
  [f.activity, f.timeout, f.aggregation, f.sync, f.collecting, f.distributing, f.defaulted,
    f.expired]

def bits (f : Flags) : UInt8 :=
  UInt8.ofNat (f.toList.foldr (fun b n => b.toNat + 2 * n) 0)

def ofBits (b : UInt8) : Flags where
  activity := b.toNat.testBit 0
  timeout := b.toNat.testBit 1
  aggregation := b.toNat.testBit 2
  sync := b.toNat.testBit 3
  collecting := b.toNat.testBit 4
  distributing := b.toNat.testBit 5
  defaulted := b.toNat.testBit 6
  expired := b.toNat.testBit 7

/-- Sets or clears the flags that `mask` selects. -/
def set (f mask : Flags) (on : Bool) : Flags where
  activity := if mask.activity then on else f.activity
  timeout := if mask.timeout then on else f.timeout
  aggregation := if mask.aggregation then on else f.aggregation
  sync := if mask.sync then on else f.sync
  collecting := if mask.collecting then on else f.collecting
  distributing := if mask.distributing then on else f.distributing
  defaulted := if mask.defaulted then on else f.defaulted
  expired := if mask.expired then on else f.expired

/-- All flags that `mask` selects are set. -/
def contains (f mask : Flags) : Bool := f.set mask true == f

/-- The names of the flags in the order of their bits. -/
def names : List String := ["Activ", "TmOut", "Aggr", "Sync", "Col", "Dist", "Def", "Exp"]

/-- Each flag by name with 0 or 1. -/
def text (f : Flags) : String :=
  ",".intercalate ((names.zip f.toList).map fun (name, on) =>
    name ++ ":" ++ if on then "1" else "0")

/-- The octet in hexadecimal beside the named flags. -/
def diagnostic (f : Flags) : String :=
  "LacpState(0x" ++ String.ofList (octetDigits f.bits) ++ ": " ++ f.text ++ ")"

@[simp] theorem ofBits_bits (f : Flags) : ofBits f.bits = f := by
  obtain ⟨a, b, c, d, e, g, h, i⟩ := f
  cases a <;> cases b <;> cases c <;> cases d <;> cases e <;> cases g <;> cases h <;> cases i <;>
    rfl

@[simp] theorem bits_ofBits (b : UInt8) : (ofBits b).bits = b := by
  have h : ∀ n < 256, (ofBits (UInt8.ofNat n)).bits = UInt8.ofNat n := by decide +kernel
  simpa using h b.toNat b.toNat_lt

end Flags
end LinkAggregation
