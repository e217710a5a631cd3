import LinkAggregation.Config.Reading

/-!
# Member settings

The settings of a LAG member, and the port number that an interface has if none is set.
-/
namespace LinkAggregation
open Text Config

/-- The settings of one LAG member. -/
structure MemberSettings where
  /-- In place of the LAG's key. -/
  aggregationKey : Option UInt16 := none
  /-- In place of the number derived from the interface's name. -/
  portNumber : Option UInt16 := none
  portPriority : UInt16 := 1
  deriving DecidableEq, Repr, Inhabited

namespace MemberSettings

/-- Applies one field; fields of other programs are ignored. -/
def withField (s : MemberSettings) : Field → Except Error MemberSettings
  | (field, value) =>
    if field = "lacp_aggregation_key" then
      return { s with aggregationKey := some (← readPositive field value) }
    else if field = "lacp_port_id" then
      return { s with portNumber := some (← readPositive field value) }
    else if field = "lacp_port_priority" then
      return { s with portPriority := ← readNumber field value }
    else return s

/-- Applies fields in order. -/
def withFields (s : MemberSettings) (fields : List Field) : Except Error MemberSettings :=
  fields.foldlM withField s

end MemberSettings

/-- The longest run of ASCII digits at the end of a text. -/
def trailingDigits (cs : List Char) : List Char :=
  (cs.reverse.takeWhile fun c => (digit? c).isSome).reverse

/-- The port number of an interface: one more than the number that ends its name, if there is one
and it fits; else one more than its slot, but at most 65535. -/
def defaultPortNumber (name : String) (slot : Nat) : UInt16 :=
  match digitsValue? (trailingDigits name.toList) with
  | some n => if n ≤ 65534 then UInt16.ofNat (n + 1) else UInt16.ofNat (min (slot + 1) 65535)
  | none => UInt16.ofNat (min (slot + 1) 65535)

end LinkAggregation
