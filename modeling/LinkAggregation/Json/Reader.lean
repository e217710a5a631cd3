import LinkAggregation.Json.Lexer

/-!
# Reading JSON

The tokens of a document are taken one by one. A stack holds the arrays and objects that are open;
it is bounded, so that a document may not be nested too deeply.
-/
namespace LinkAggregation.Json

/-- How deep arrays and objects may be nested. -/
def maxDepth : Nat := 127

/-- An open array or object, with its content so far in reverse. -/
inductive Container where
  | array (items : List Json)
  /-- `key` is the key of the member that is being read. -/
  | object (members : List (String × Json)) (key : String)
  deriving Inhabited

/-- What may come next. -/
inductive Expected where
  | value
  | valueOrClose
  | key
  | keyOrClose
  | colon
  | commaOrClose

/-- The reader: what may come next, and the open containers, innermost first. The document is
complete once its value is there. -/
structure Reader where
  expected : Expected := .value
  stack : List Container := []
  result : Option Json := none

namespace Reader

/-- A value is complete. -/
def put (r : Reader) (v : Json) : Reader :=
  match r.stack with
  | [] => { r with expected := .commaOrClose, result := some v }
  | .array items :: rest =>
    { r with expected := .commaOrClose, stack := .array (v :: items) :: rest }
  | .object members key :: rest =>
    { r with expected := .commaOrClose, stack := .object ((key, v) :: members) "" :: rest }

/-- Opens a container. -/
def push? (r : Reader) (c : Container) (expected : Expected) : Option Reader :=
  if r.stack.length < maxDepth then some { r with expected, stack := c :: r.stack } else none

/-- A token where a value must come. -/
def value? (r : Reader) : Token → Option Reader
  | .scalar v => some (r.put v)
  | .text s => some (r.put (.text s))
  | .openArray => r.push? (.array []) .valueOrClose
  | .openObject => r.push? (.object [] "") .keyOrClose
  | _ => none

/-- A token where a key must come. -/
def key? (r : Reader) : Token → Option Reader
  | .text key =>
    match r.stack with
    | .object members _ :: rest =>
      some { r with expected := .colon, stack := .object members key :: rest }
    | _ => none
  | _ => none

/-- Closes the innermost container. -/
def close? (r : Reader) : Token → Option Reader
  | .closeArray =>
    match r.stack with
    | .array items :: rest => some ({ r with stack := rest }.put (.array items.reverse))
    | _ => none
  | .closeObject =>
    match r.stack with
    | .object members _ :: rest => some ({ r with stack := rest }.put (ofMembers members.reverse))
    | _ => none
  | _ => none

/-- Goes on to the next item or member. -/
def comma? (r : Reader) : Option Reader :=
  match r.stack with
  | .array _ :: _ => some { r with expected := .value }
  | .object .. :: _ => some { r with expected := .key }
  | [] => none

/-- Takes a token. -/
def step? (r : Reader) (t : Token) : Option Reader :=
  if r.result.isSome then none
  else match r.expected with
    | .value => r.value? t
    | .valueOrClose => (r.close? t).orElse fun _ => r.value? t
    | .key => r.key? t
    | .keyOrClose => (r.close? t).orElse fun _ => r.key? t
    | .colon =>
      match t with
      | .colon => some { r with expected := .value }
      | _ => none
    | .commaOrClose =>
      match t with
      | .comma => r.comma?
      | t => r.close? t

end Reader

/-- Reads a document: one value with blanks around it. -/
def parse? (s : String) : Option Json := do
  (← (← tokens? s.toList).foldlM Reader.step? {}).result

end LinkAggregation.Json
