import LinkAggregation.Frame.Decode

/-!
# Errors

What can go wrong with a configuration entry, a frame or a settings file, with the wording of each
error. A rejected entry is invalid unless it only came too early.
-/
namespace LinkAggregation
open Text

/-- Why a configuration value is refused. -/
inductive Refusal where
  | malformed (error : ValueError)
  | multicast (mac : MacAddress)
  | badBoolean (value : String)
  /-- Not a number of 16 bits. -/
  | badNumber (value : String)
  | zero
  | badSpeed (value : String)
  /-- A fallback timeout, in seconds, beyond the limit. -/
  | timeoutRange (seconds limit : Nat)
  | lagNameForm (name : String)
  | lagNumberMissing (name : String)
  | lagNumberRange (name : String) (limit : Nat)
  | memberKeyForm (key : String)
  /-- System settings are kept under one key. -/
  | systemKey (key only : String)
  | unknownKey (key : String)
  | noMembers
  | tickRange
  | other (message : String)
  deriving DecidableEq, Repr

def Refusal.message : Refusal → String
  | malformed error => error.message
  | multicast mac => mac.text ++ " is a multicast address"
  | badBoolean value => "invalid boolean '" ++ value ++ "'"
  | badNumber value => "'" ++ value ++ "' is not in 0-65535"
  | zero => "must be in 1-65535"
  | badSpeed value => "invalid speed '" ++ value ++ "'"
  | timeoutRange seconds limit => decimal seconds ++ " out of range 0-" ++ decimal limit
  | lagNameForm name => name ++ ": expected PortChannel<N> or lag<N>"
  | lagNumberMissing name => name ++ ": missing LAG number"
  | lagNumberRange name limit => name ++ ": LAG number out of range 1-" ++ decimal limit
  | memberKeyForm key => key ++ ": expected <lag>|<interface>"
  | systemKey key only => key ++ ": only '" ++ only ++ "' is supported"
  | unknownKey key => key ++ ": unknown key"
  | noMembers => "must be > 0"
  | tickRange => "must be 10-1000"
  | other message => message

/-- What can go wrong. -/
inductive Error where
  | invalidConfig (field : String) (refusal : Refusal)
  | lagNotFound (lag : String)
  | interfaceNotFound (interface : String)
  | interfaceInOtherLag (interface lag : String)
  | unknownTable (table : String)
  | frame (error : FrameError)
  | value (error : ValueError)
  /-- A settings file that does not read as settings. -/
  | settingsFile
  /-- A file that cannot be read or written. -/
  | file
  deriving DecidableEq, Repr

namespace Error

/-- The wording; errors about files name no file here. -/
def message : Error → String
  | invalidConfig field refusal => "Invalid configuration for " ++ field ++ ": " ++ refusal.message
  | lagNotFound lag => "LAG '" ++ lag ++ "' not found"
  | interfaceNotFound interface => "Interface '" ++ interface ++ "' not found"
  | interfaceInOtherLag interface lag =>
    "Interface '" ++ interface ++ "' is already a member of " ++ lag
  | unknownTable table => "Unknown table '" ++ table ++ "'"
  | frame error => "LACPDU decode failed: " ++ error.message
  | value error => error.message
  | settingsFile => "settings file"
  | file => "file"

/-- The same request may succeed once other configuration has been applied. -/
def isRetryable : Error → Bool
  | lagNotFound _ => true
  | _ => false

end Error

/-- What becomes of an entry that could not be applied. -/
inductive Disposition where
  /-- It is dropped. -/
  | invalidEntry
  /-- It is queued again. -/
  | needRetry
  deriving DecidableEq, Repr

namespace Error

def disposition (e : Error) : Disposition := if e.isRetryable then .needRetry else .invalidEntry

/-- The wording for the log of rejected entries. -/
def report (e : Error) : String :=
  match e.disposition with
  | .invalidEntry => "Invalid entry: " ++ e.message
  | .needRetry => "Retry needed: " ++ e.message

end Error
end LinkAggregation
