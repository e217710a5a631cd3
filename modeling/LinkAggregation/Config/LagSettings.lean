import LinkAggregation.Config.Reading

/-!
# LAG settings

The settings of a LAG, and the aggregation key that is in its name.
-/
namespace LinkAggregation
open Text Config

/-- The largest number in a LAG name. -/
def maxLagNumber : Nat := 9999

/-- The largest fallback timeout, in seconds. -/
def maxFallbackTimeout : Nat := 900

/-- The settings of one LAG. -/
structure LagSettings where
  mode : Mode := .active
  rate : Rate := .slow
  fallback : Bool := false
  fallbackMode : FallbackMode := .priority
  /-- In seconds. -/
  fallbackTimeout : Nat := 0
  /-- In place of the system's own address. -/
  systemMac : Option MacAddress := none
  /-- In place of the system's own priority. -/
  systemPriority : Option UInt16 := none
  deriving DecidableEq, Repr, Inhabited

namespace LagSettings

/-- Reads a fallback timeout within its limit. -/
def readTimeout (field value : String) : Except Error Nat := do
  let seconds ← readNumber field value
  if maxFallbackTimeout < seconds.toNat then
    throw (.invalidConfig field (.timeoutRange seconds.toNat maxFallbackTimeout))
  return seconds.toNat

/-- Applies one field; fields of other programs are ignored. -/
def withField (s : LagSettings) : Field → Except Error LagSettings
  | (field, value) =>
    if field = "lacp_mode" then
      return { s with mode := ← named field (Mode.parse value) }
    else if field = "lacp_rate" then
      return { s with rate := ← named field (Rate.parse value) }
    else if field = "fast_rate" then
      return { s with rate := if ← readBool field value then .fast else .slow }
    else if field = "fallback" then
      return { s with fallback := ← readBool field value }
    else if field = "fallback_mode" then
      return { s with fallbackMode := ← named field (FallbackMode.parse value) }
    else if field = "fallback_timeout" then
      return { s with fallbackTimeout := ← readTimeout field value }
    else if field = "lacp_system_id" then
      return { s with systemMac := some (← readSystemMac field value) }
    else if field = "lacp_system_priority" then
      return { s with systemPriority := some (← readNumber field value) }
    else return s

/-- Applies fields in order. -/
def withFields (s : LagSettings) (fields : List Field) : Except Error LagSettings :=
  fields.foldlM withField s

/-- The fallback timeout in milliseconds. -/
def fallbackTimeoutMs (s : LagSettings) : Nat := s.fallbackTimeout * 1000

end LagSettings

/-- The digits of a LAG name: what follows `PortChannel` or `lag`. -/
def lagDigits? (name : String) : Option (List Char) :=
  (dropStart? "PortChannel".toList name.toList).orElse fun _ =>
    dropStart? "lag".toList name.toList

/-- The aggregation key of a LAG: the number in its name, from 1 to 9999. -/
def lagKey (name : String) : Except Error UInt16 :=
  let refuse (r : Refusal) : Except Error UInt16 := .error (.invalidConfig "lag" r)
  match lagDigits? name with
  | none => refuse (.lagNameForm name)
  | some digits =>
    match digitsValue? digits with
    | none => refuse (.lagNumberMissing name)
    | some n =>
      if 1 ≤ n ∧ n ≤ maxLagNumber then .ok (UInt16.ofNat n)
      else refuse (.lagNumberRange name maxLagNumber)

end LinkAggregation
