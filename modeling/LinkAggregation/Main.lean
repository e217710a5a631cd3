import LinkAggregation.Engine.Clock
import LinkAggregation.Startup

/-!
# The daemon

Reads the command line and the files it names, and then runs the engine by the clock. Changes of
state go to standard error.
-/
namespace LinkAggregation.Daemon

def usage : String :=
  "LACP daemon\n\nUsage: lacpd [OPTIONS]\n\nOptions:\n" ++
  "  -c, --config <CONFIG>                    Daemon configuration file [default: " ++
  CommandLine.defaultConfigPath ++ "]\n" ++
  "  -l, --log-level <LOG_LEVEL>              Log level\n" ++
  "  -m, --system-mac <SYSTEM_MAC>            System MAC address\n" ++
  "      --system-priority <SYSTEM_PRIORITY>  System priority\n" ++
  "      --tick-ms <TICK_MS>                  Timer tick in milliseconds\n" ++
  "      --config-db <CONFIG_DB>              File with initial configuration tables\n" ++
  "  -h, --help                               Print help\n" ++
  "  -V, --version                            Print version\n"

def version : String := "lacpd 0.1.0\n"

/-- What is wrong with the command line; empty if nothing is. -/
def complaint : CommandLine.Stop → String
  | .helpWanted | .versionWanted => ""
  | .unknownArgument => "unexpected argument"
  | .givenTwice => "an option is given more than once"
  | .missingValue => "an option lacks its value"
  | .badValue => "an option has an invalid value"
  | .unneededValue => "a switch takes no value"

/-- An effect as a line for the log. Frames are not logged. -/
def logLine? : Effect → Option String
  | .transmit .. => none
  | .writeRecord interface r => some (interface ++ ": " ++ r.actorState ++ " " ++ r.partnerState)
  | .removeRecord interface => some (interface ++ ": removed")
  | .writeLag lag status => some (lag ++ ": " ++ status.name)
  | .removeLag lag => some (lag ++ ": removed")

/-- One look at the clock. -/
def tick (time : Nat) (e : Engine) : Step :=
  let s := e.advanceTo time
  if s.1.hasPending then s.next (·.work) else s

def readPath (path : String) : IO FileContent := do
  match ← (IO.FS.readBinFile path).toBaseIO with
  | .ok bytes => return .ofOctets bytes.toList
  | .error (.noFileOrDirectory ..) => return .missing
  | .error _ => return .unreadable

/-- Runs until the process is stopped. -/
partial def run (start interval : Nat) (e : Engine) : IO Unit := do
  let (e, effects) := tick ((← IO.monoMsNow) - start) e
  for line in effects.filterMap logLine? do
    IO.eprintln line
  IO.sleep interval.toUInt32
  run start interval e

def launch (a : CommandLine.Arguments) : IO UInt32 := do
  let config ← readPath a.config
  let tables ← match a.configDb with
    | some path => readPath path
    | none => pure .missing
  match Startup.start a fun path => if path = a.config then config else tables with
  | .error e =>
    IO.eprintln ("lacpd failed: " ++ e.message)
    return 1
  | .ok (settings, e) =>
    run (← IO.monoMsNow) settings.tickInterval e
    return 0

end LinkAggregation.Daemon

open LinkAggregation in
def main (arguments : List String) : IO UInt32 := do
  match CommandLine.parse arguments with
  | .ok a => Daemon.launch a
  | .error .helpWanted =>
    IO.print Daemon.usage
    return 0
  | .error .versionWanted =>
    IO.print Daemon.version
    return 0
  | .error stop =>
    IO.eprintln ("error: " ++ Daemon.complaint stop)
    return 2
