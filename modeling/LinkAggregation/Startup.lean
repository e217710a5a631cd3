import LinkAggregation.CommandLine
import LinkAggregation.ConfigDb
import LinkAggregation.Engine.Pending
import LinkAggregation.Settings

/-!
# Startup

How the daemon gets from its command line and its files to an engine that is ready to run. The
command line wins over the settings file; initial configuration tables are queued.
-/
namespace LinkAggregation

/-- What is found at a path. -/
inductive FileContent where
  | missing
  /-- A directory, say, or a file that is no text. -/
  | unreadable
  | text (content : String)
  deriving DecidableEq, Repr

/-- The content of a file with these octets, which have to be UTF-8. -/
def FileContent.ofOctets (octets : List UInt8) : FileContent :=
  match String.fromUTF8? (ByteArray.mk octets.toArray) with
  | some content => .text content
  | none => .unreadable

/-- The settings in a file; without a file they are the defaults. -/
def Settings.load : FileContent → Except Error Settings
  | .missing => .ok {}
  | .unreadable => .error .file
  | .text content => Settings.parse content

/-- Why the daemon does not start. -/
inductive StartupError where
  /-- The settings file cannot be used. -/
  | loading (path : String) (error : Error)
  /-- The settings make no sense. -/
  | settings (error : Error)
  /-- The configuration tables cannot be read. -/
  | reading (path : String)
  /-- The configuration tables are not JSON. -/
  | parsing (path : String)
  deriving DecidableEq, Repr

def StartupError.message : StartupError → String
  | loading path _ => "loading " ++ path
  | settings error => error.message
  | reading path => "reading " ++ path
  | parsing path => "parsing " ++ path

namespace Startup
open CommandLine

/-- The settings with what the command line says instead. -/
def override (s : Settings) (a : Arguments) : Settings :=
  { s with
    mac := a.systemMac.orElse fun _ => s.mac
    priority := a.systemPriority.getD s.priority
    tickInterval := a.tickInterval.getD s.tickInterval }

/-- The configuration tables in a file. -/
def loadTables (path : String) :
    FileContent → Except StartupError (List (Table × List Entry))
  | .text content =>
    match ConfigDb.parse? content with
    | some tables => .ok tables
    | none => .error (.parsing path)
  | .missing | .unreadable => .error (.reading path)

/-- Queues the entries of tables. -/
def enqueue (e : Engine) (tables : List (Table × List Entry)) : Engine :=
  tables.foldl (fun e (table, entries) => e.enqueueEntries table entries) e

/-- The settings to run with. `read` looks at a path. -/
def settings (a : Arguments) (read : String → FileContent) : Except StartupError Settings := do
  let s ← (Settings.load (read a.config)).mapError (.loading a.config)
  let s := override s a
  s.validate.mapError .settings
  return s

/-- The settings to run with and the engine at the start. -/
def start (a : Arguments) (read : String → FileContent) :
    Except StartupError (Settings × Engine) := do
  let s ← settings a read
  let e := Engine.new s.identity s.maxMembers true
  match a.configDb with
  | none => return (s, e)
  | some path => return (s, enqueue e (← loadTables path (read path)))

end Startup
end LinkAggregation
