import LinkAggregation.Choice
import LinkAggregation.Error
import LinkAggregation.Text.Blank

/-!
# Reading configuration values

Configuration is given as fields with texts. Each function here reads one text, and its errors
name the field.
-/
namespace LinkAggregation
open Text

/-- A field and its text. -/
abbrev Field := String × String

namespace Config

/-- Puts the field's name to a malformed value. -/
def named {α : Type} (field : String) (r : Except ValueError α) : Except Error α :=
  r.mapError fun e => .invalidConfig field (.malformed e)

def readBool (field value : String) : Except Error Bool :=
  let word := foldCase value
  if word ∈ ["true", "1", "yes", "on", "enabled"] then .ok true
  else if word ∈ ["false", "0", "no", "off", "disabled"] then .ok false
  else .error (.invalidConfig field (.badBoolean value))

/-- A number of 16 bits; blanks around it are ignored. -/
def readNumber (field value : String) : Except Error UInt16 :=
  match word16? (trim value.toList) with
  | some n => .ok n
  | none => .error (.invalidConfig field (.badNumber value))

/-- A number of 16 bits that is not zero. -/
def readPositive (field value : String) : Except Error UInt16 := do
  let n ← readNumber field value
  if n = 0 then throw (.invalidConfig field .zero) else return n

/-- A MAC address that can identify a system. -/
def readSystemMac (field value : String) : Except Error MacAddress := do
  let mac ← named field (MacAddress.parse value)
  if mac.isMulticast then throw (.invalidConfig field (.multicast mac)) else return mac

/-- A speed in Mbps; zero means that it is not known. -/
def readSpeed (field value : String) : Except Error (Option Nat) :=
  match unsigned? 4294967295 (trim value.toList) with
  | some 0 => .ok none
  | some n => .ok (some n)
  | none => .error (.invalidConfig field (.badSpeed value))

end Config
end LinkAggregation
