import LinkAggregation.Config.SystemIdentity
import LinkAggregation.Document.Basic
import LinkAggregation.Json.Printer
import LinkAggregation.Toml.Reader

/-!
# Settings of the daemon

What the settings file can say: the identity of the system, the member limit, and how the daemon
runs. All settings have defaults. `render` writes the file anew.
-/
namespace LinkAggregation

/-- The settings of the daemon. -/
structure Settings where
  /-- Usually learned later, from the configuration tables. -/
  mac : Option MacAddress := none
  priority : UInt16 := 65534
  /-- How many members of a LAG may be selected at once. -/
  maxMembers : Nat := 8
  /-- Milliseconds between looks at the clock. -/
  tickInterval : Nat := 100
  logLevel : String := "info"
  deriving DecidableEq, Repr, Inhabited

namespace Settings
open Document Text

/-- The largest number of a setting without a smaller range. -/
def maxNumber : Nat := 18446744073709551615

def defaults : Settings := {}

/-- Reads the part about the system. -/
def readSystem? (surplus : Surplus) (s : Settings) (d : Document) : Option Settings := do
  let fields ← d.fields? surplus ["mac", "priority"]
  return { s with
    mac := ← fieldD "mac" defaults.mac (nullable? mac?) fields
    priority := ← fieldD "priority" defaults.priority word? fields }

/-- Reads the part about the engine. -/
def readEngine? (surplus : Surplus) (s : Settings) (d : Document) : Option Settings := do
  let fields ← d.fields? surplus ["max_lag_members"]
  return { s with
    maxMembers := ← fieldD "max_lag_members" defaults.maxMembers (natural? maxNumber) fields }

/-- Reads the part about the daemon. -/
def readDaemon? (surplus : Surplus) (s : Settings) (d : Document) : Option Settings := do
  let fields ← d.fields? surplus ["tick_interval_ms", "log_level"]
  return { s with
    tickInterval :=
      ← fieldD "tick_interval_ms" defaults.tickInterval (natural? maxNumber) fields
    logLevel := ← fieldD "log_level" defaults.logLevel text? fields }

/-- Reads settings; parts and settings that are missing have their defaults. -/
def ofDocument? (surplus : Surplus) (d : Document) : Option Settings := do
  let fields ← d.fields? surplus ["system", "engine", "daemon"]
  let s ← fieldD "system" defaults (readSystem? surplus defaults) fields
  let s ← fieldD "engine" s (readEngine? surplus s) fields
  fieldD "daemon" s (readDaemon? surplus s) fields

/-- Reads settings from a JSON value. -/
def ofJson? (j : Json) : Option Settings := ofDocument? .refused (Document.ofJson j)

/-- Reads the text of a settings file. -/
def parse (s : String) : Except Error Settings :=
  match (Toml.parse? s).bind (ofDocument? .ignored) with
  | some settings => .ok settings
  | none => .error .settingsFile

/-- The text of a settings file with these settings. -/
def render (s : Settings) : String :=
  let mac := match s.mac with
    | some mac => "mac = " ++ Toml.quoted mac.text ++ "\n"
    | none => ""
  "[system]\n" ++ mac ++ "priority = " ++ decimal s.priority.toNat ++ "\n\n" ++
    "[engine]\nmax_lag_members = " ++ decimal s.maxMembers ++ "\n\n" ++
    "[daemon]\ntick_interval_ms = " ++ decimal s.tickInterval ++ "\n" ++
    "log_level = " ++ Toml.quoted s.logLevel ++ "\n"

/-- The settings as JSON; an absent address has no member. -/
def toJson (s : Settings) : Json :=
  .object
    [("system", .object ((s.mac.map fun mac => ("mac", Json.text mac.text)).toList ++
        [("priority", .ofNat s.priority.toNat)])),
      ("engine", .object [("max_lag_members", .ofNat s.maxMembers)]),
      ("daemon", .object [("tick_interval_ms", .ofNat s.tickInterval),
        ("log_level", .text s.logLevel)])]

/-- The identity of the system at the start. -/
def identity (s : Settings) : SystemIdentity := ⟨s.mac.getD .zero, s.priority⟩

/-- Settings must make sense: the address is of one system, LAGs may have members, and the clock
is looked at every 10 to 1000 milliseconds. -/
def validate (s : Settings) : Except Error Unit := do
  match s.mac with
  | some mac =>
    if mac.isMulticast then throw (.invalidConfig "system.mac" (.multicast mac))
  | none => pure ()
  if s.maxMembers = 0 then throw (.invalidConfig "engine.max_lag_members" .noMembers)
  if s.tickInterval < 10 ∨ 1000 < s.tickInterval then
    throw (.invalidConfig "daemon.tick_interval_ms" .tickRange)

end Settings
end LinkAggregation
