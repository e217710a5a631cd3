import LinkAggregation.Document.Basic

/-!
# TOML table trees

The tables of a document as they grow line by line. A table may be given by its header once, and
by dotted keys only from where these began it; a table that is implied by the header of an inner
one can still be given. A value, inline tables and arrays included, is complete.
-/
namespace LinkAggregation.Toml

/-- How a table came into being. -/
inductive Origin where
  /-- Implied by the header of a table inside it. -/
  | implied
  /-- Begun by a dotted key. -/
  | dotted
  /-- Given by its own header. -/
  | headed
  deriving DecidableEq, Repr

/-- What a key stands for. -/
inductive Node where
  | value (document : Document)
  | table (origin : Origin) (members : List (String × Node))
  /-- An array of tables that grows by headers; the first one is the latest. -/
  | tables (latest : List (String × Node)) (earlier : List (List (String × Node)))
  deriving Inhabited

abbrev Members := List (String × Node)

mutual

/-- The document that a node stands for. -/
def Node.document : Node → Document
  | .value d => d
  | .table _ members => .table (memberDocuments members)
  | .tables latest earlier =>
    .list (tableDocuments [.table (memberDocuments latest)] earlier)

def memberDocuments : List (String × Node) → List (String × Document)
  | [] => []
  | (key, node) :: rest => (key, node.document) :: memberDocuments rest

/-- Puts the documents of earlier tables before those of later ones. -/
def tableDocuments (later : List Document) : List (List (String × Node)) → List Document
  | [] => later
  | members :: rest => tableDocuments (.table (memberDocuments members) :: later) rest

end

namespace Members

/-- Changes the table that a path leads to. Tables on the way that are not there begin with this
origin; from an array of tables the way goes on in the latest one. Dotted keys do not lead into
tables that have a header. -/
def update? (origin : Origin) (f : Origin → Members → Option Members) :
    List String → Origin → Members → Option Members
  | [], o, members => f o members
  | key :: path, _, members =>
    match Assoc.get? key members with
    | none => do
      let inner ← update? origin f path origin []
      return Assoc.put key (.table origin inner) members
    | some (.table o inner) => do
      guard (origin ≠ .dotted ∨ o ≠ .headed)
      let inner ← update? origin f path o inner
      return Assoc.put key (.table o inner) members
    | some (.tables latest earlier) => do
      let latest ← update? origin f path .headed latest
      return Assoc.put key (.tables latest earlier) members
    | some (.value _) => none

/-- Puts a node under a key that is not in use. -/
def insertNew? (key : String) (node : Node) (members : Members) : Option Members :=
  if (Assoc.get? key members).isSome then none else some (Assoc.put key node members)

/-- Gives a dotted key a value. The tables before the last key have to be begun by dotted keys. -/
def assign? (path : List String) (value : Document) (members : Members) : Option Members :=
  match path.getLast? with
  | none => none
  | some key =>
    let outer := path.dropLast
    update? .dotted
      (fun o members =>
        if (o = .dotted) = (outer = []) then none else insertNew? key (.value value) members)
      outer .headed members

/-- Gives a dotted key a value in the table that the last header has opened. -/
def assignUnder? (header path : List String) (value : Document) (members : Members) :
    Option Members :=
  update? .implied (fun _ members => assign? path value members) header .headed members

/-- Gives a table its header. -/
def open? (path : List String) (members : Members) : Option Members :=
  match path.getLast? with
  | none => none
  | some key =>
    update? .implied
      (fun _ members =>
        match Assoc.get? key members with
        | none => some (Assoc.put key (.table .headed []) members)
        | some (.table .implied inner) => some (Assoc.put key (.table .headed inner) members)
        | some _ => none)
      path.dropLast .headed members

/-- Adds a table to an array of tables. -/
def append? (path : List String) (members : Members) : Option Members :=
  match path.getLast? with
  | none => none
  | some key =>
    update? .implied
      (fun _ members =>
        match Assoc.get? key members with
        | none => some (Assoc.put key (.tables [] []) members)
        | some (.tables latest earlier) =>
          some (Assoc.put key (.tables [] (latest :: earlier)) members)
        | some _ => none)
      path.dropLast .headed members

end Members
end LinkAggregation.Toml
