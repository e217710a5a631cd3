import LinkAggregation.Mac
import LinkAggregation.Identity

/-!
# The command line

Options with a value can be given as `--name value`, `--name=value`, `-n value`, `-nvalue` or
`-n=value`, each at most once. A value in an argument of its own is looked at when the next option
comes, or at the end.
-/
namespace LinkAggregation.CommandLine
open Text

/-- Where the settings file is if no other place is given. -/
def defaultConfigPath : String := "/etc/sonic/lacpd.conf"

/-- What the command line can say. -/
structure Arguments where
  config : String := defaultConfigPath
  logLevel : Option String := none
  systemMac : Option MacAddress := none
  systemPriority : Option UInt16 := none
  /-- Milliseconds between looks at the clock. -/
  tickInterval : Option Nat := none
  /-- A file with initial configuration tables. -/
  configDb : Option String := none
  deriving DecidableEq, Repr, Inhabited

/-- Why there are no arguments to go on with. -/
inductive Stop where
  | helpWanted
  | versionWanted
  | unknownArgument
  | givenTwice
  /-- A value is missing, or empty where it may not be. -/
  | missingValue
  | badValue
  /-- A switch was given a value. -/
  | unneededValue
  deriving DecidableEq, Repr

/-- The options that take a value. -/
inductive Setting where
  | config
  | logLevel
  | systemMac
  | systemPriority
  | tickInterval
  | configDb
  deriving DecidableEq, Repr

/-- What an option stands for. -/
inductive Meaning where
  | setting (setting : Setting)
  | help
  | version
  deriving DecidableEq, Repr

/-- The option of a long name. -/
def longName? : String → Option Meaning
  | "config" => some (.setting .config)
  | "log-level" => some (.setting .logLevel)
  | "system-mac" => some (.setting .systemMac)
  | "system-priority" => some (.setting .systemPriority)
  | "tick-ms" => some (.setting .tickInterval)
  | "config-db" => some (.setting .configDb)
  | "help" => some .help
  | "version" => some .version
  | _ => none

/-- The option of a letter. -/
def letter? : Char → Option Meaning
  | 'c' => some (.setting .config)
  | 'l' => some (.setting .logLevel)
  | 'm' => some (.setting .systemMac)
  | 'h' => some .help
  | 'V' => some .version
  | _ => none

/-- A path, which is not empty. -/
def readPath (value : String) : Except Stop String :=
  if value = "" then throw .missingValue else return value

/-- The value, if it was read. -/
def orBad {α : Type} : Option α → Except Stop α
  | some a => return a
  | none => throw .badValue

/-- A priority. Zero may have a minus sign. -/
def priority? (value : String) : Option UInt16 :=
  match value.toList with
  | '-' :: digits =>
    if (digitsValue? digits) = some 0 then some 0 else none
  | cs => word16? cs

/-- Takes the value of an option. -/
def Setting.apply (value : String) (a : Arguments) : Setting → Except Stop Arguments
  | .config => return { a with config := ← readPath value }
  | .logLevel => return { a with logLevel := some value }
  | .systemMac => return { a with systemMac := some (← orBad (MacAddress.parse value).toOption) }
  | .systemPriority => return { a with systemPriority := some (← orBad (priority? value)) }
  | .tickInterval =>
    return { a with
      tickInterval := some (← orBad (unsigned? 18446744073709551615 value.toList)) }
  | .configDb => return { a with configDb := some (← readPath value) }

/-- The arguments so far. -/
structure Progress where
  arguments : Arguments := {}
  /-- The options that have been given. -/
  given : List Setting := []
  /-- An option, and its value if that has come, which are still to be looked at. -/
  pending : Option (Setting × Option String) := none
  /-- No more options can come. -/
  ended : Bool := false

namespace Progress

/-- Takes an option with its value. -/
def accept (p : Progress) (setting : Setting) (value : String) : Except Stop Progress :=
  if setting ∈ p.given then throw .givenTwice
  else return { p with
    arguments := ← setting.apply value p.arguments
    given := setting :: p.given }

/-- Takes the option that is still to be looked at. -/
def settle (p : Progress) : Except Stop Progress :=
  match p.pending with
  | none => return p
  | some (_, none) => throw .missingValue
  | some (setting, some value) => { p with pending := none }.accept setting value

/-- An option with the value that is in the same argument, if one is. -/
def option (p : Progress) (setting : Setting) (attached : Option String) :
    Except Stop Progress := do
  let p ← p.settle
  match attached with
  | some value => p.accept setting value
  | none => return { p with pending := some (setting, none) }

/-- A switch ends the reading. -/
def switch (p : Progress) (stop : Stop) : Except Stop Progress := do
  let _ ← p.settle
  throw stop

/-- An argument that begins with two hyphens. -/
def long (p : Progress) (cs : List Char) : Except Stop Progress :=
  let name := cs.takeWhile (· ≠ '=')
  let attached := match cs.drop name.length with
    | _ :: value => some (String.ofList value)
    | [] => none
  match longName? (String.ofList name), attached with
  | none, _ => throw .unknownArgument
  | some (.setting setting), _ => p.option setting attached
  | some _, some _ => throw .unneededValue
  | some .help, none => p.switch .helpWanted
  | some .version, none => p.switch .versionWanted

/-- An argument that begins with one hyphen and a letter. -/
def short (p : Progress) (letter : Char) (rest : List Char) : Except Stop Progress :=
  let attached := match rest with
    | [] => none
    | '=' :: value => some (String.ofList value)
    | value => some (String.ofList value)
  match letter? letter with
  | none => throw .unknownArgument
  | some (.setting setting) => p.option setting attached
  | some .help => p.switch .helpWanted
  | some .version => p.switch .versionWanted

/-- An argument that can only be a value. -/
def plain (p : Progress) (value : String) : Except Stop Progress :=
  match p.pending with
  | some (setting, none) => return { p with pending := some (setting, some value) }
  | _ => throw .unknownArgument

/-- Takes an argument. -/
def step (p : Progress) (argument : String) : Except Stop Progress :=
  if p.ended then throw .unknownArgument
  else match argument.toList with
    | ['-', '-'] => return { p with ended := true }
    | '-' :: '-' :: cs => p.long cs
    | '-' :: letter :: rest => p.short letter rest
    | _ => p.plain argument

end Progress

/-- Reads the arguments that follow the program's name. -/
def parse (arguments : List String) : Except Stop Arguments := do
  let p ← arguments.foldlM Progress.step {}
  return (← p.settle).arguments

end LinkAggregation.CommandLine
