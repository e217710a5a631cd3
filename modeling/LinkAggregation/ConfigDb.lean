import LinkAggregation.Engine.Basic
import LinkAggregation.Json.Printer
import LinkAggregation.Json.Reader

/-!
# The configuration database

A JSON document whose top level names tables, and whose tables name entries. Each entry is an
object of fields; values that are not strings stand as their JSON text. Tables that do not concern
the engine are left out.
-/
namespace LinkAggregation.ConfigDb

/-- The tables in the order in which they are handed on. -/
def order : List Table := [.system, .port, .lag, .member]

def fieldText : Json → String
  | .text s => s
  | v => v.compact

/-- An entry; a row that is no object has no fields. -/
def entry (key : String) (row : Json) : Entry where
  key
  fields := (row.members?.getD []).map fun (field, value) => (field, fieldText value)

/-- The entries of a table, if the document has it as an object. -/
def table? (document : Json) (table : Table) : Option (Table × List Entry) := do
  let rows ← (← document.get? table.name).members?
  return (table, rows.map fun (key, row) => entry key row)

/-- The tables of a document. -/
def tables (document : Json) : List (Table × List Entry) := order.filterMap (table? document)

/-- The tables of a text; none if it is not JSON. -/
def parse? (s : String) : Option (List (Table × List Entry)) := (Json.parse? s).map tables

end LinkAggregation.ConfigDb
