import LinkAggregation.Toml.Quoted
import LinkAggregation.Toml.Scalar
import LinkAggregation.Toml.Tree

/-!
# Reading TOML

A document is a series of lines: headers, and keys with values. Each function here takes
something off the front of the text. Those that call themselves have fuel for two calls a
character, and two calls in a row always take a character.
-/
namespace LinkAggregation.Toml

/-- How deep arrays and inline tables may be nested. -/
def maxDepth : Nat := 80

/-- How many keys a dotted key may have. -/
def maxPath : Nat := 80

def dropBlanks (cs : List Char) : List Char := cs.dropWhile isBlankChar

/-- Takes the rest of a line, which may have a comment. -/
def lineEnd? (comment : Bool) : List Char → Option (List Char)
  | [] => some []
  | '\n' :: rest => some rest
  | c :: rest =>
    if comment then if isMultiLineControl c then none else lineEnd? true rest
    else if isBlankChar c then lineEnd? false rest
    else if c = '#' then lineEnd? true rest
    else none

/-- Takes blanks, line ends and comments. -/
def gap? (comment : Bool) : List Char → Option (List Char)
  | [] => some []
  | '\n' :: rest => gap? false rest
  | c :: rest =>
    if comment then if isMultiLineControl c then none else gap? true rest
    else if isBlankChar c then gap? false rest
    else if c = '#' then gap? true rest
    else some (c :: rest)

/-- The characters of keys without quotation marks. -/
def isKeyChar (c : Char) : Bool := c.isAlphanum || c == '_' || c == '-'

/-- The characters of scalars that are no strings; quotation marks have no meaning within them. -/
def isWordChar (c : Char) : Bool :=
  !(isBlankChar c || c == '\n' || c ∈ [',', '[', ']', '\x7b', '\x7d', '=', '#'])

def key? (cs : List Char) : Option (String × List Char) :=
  let bare := cs.takeWhile isKeyChar
  if bare.isEmpty then lineString? cs else some (String.ofList bare, cs.drop bare.length)

/-- Takes keys with points between them; `left` is how many there may be. -/
def keys? : Nat → List Char → Option (List String × List Char)
  | 0, _ => none
  | left + 1, cs => do
    let (key, rest) ← key? (dropBlanks cs)
    match dropBlanks rest with
    | '.' :: rest =>
      let (keys, rest) ← keys? left rest
      return (key :: keys, rest)
    | rest => return ([key], rest)

/-- Takes a dotted key. -/
def path? (cs : List Char) : Option (List String × List Char) := keys? maxPath cs

/-- Takes a word. One blank may join a day and a time. -/
def word (cs : List Char) : List Char × List Char :=
  let first := cs.takeWhile isWordChar
  let rest := cs.drop first.length
  match day? first, rest with
  | some [], ' ' :: c :: more =>
    if (Text.digit? c).isSome then
      let second := (c :: more).takeWhile isWordChar
      (first ++ ' ' :: second, (c :: more).drop second.length)
    else (first, rest)
  | _, _ => (first, rest)

/-- Takes the equals sign between a key and its value on a line. -/
def equals? : List Char → Option (List Char)
  | '=' :: rest => some (dropBlanks rest)
  | _ => none

/-- Takes the equals sign in an inline table, where the lines may end on both sides of it. -/
def inlineEquals? (cs : List Char) : Option (List Char) := do
  match ← gap? false cs with
  | '=' :: rest => gap? false rest
  | _ => none

mutual

/-- Takes a value; `depth` is how deep it may still nest. -/
def value? : Nat → Nat → List Char → Option (Document × List Char)
  | 0, _, _ => none
  | fuel + 1, depth, cs =>
    match cs with
    | '[' :: rest =>
      match depth with
      | 0 => none
      | depth + 1 => do
        let (items, rest) ← items? fuel depth rest
        return (.list items, rest)
    | '\x7b' :: rest =>
      match depth with
      | 0 => none
      | depth + 1 => do
        let (members, rest) ← members? fuel depth [] rest
        return (.table (memberDocuments members), rest)
    | cs =>
      match cs.head? with
      | some '"' | some '\'' => do
        let (s, rest) ← string? cs
        return (.text s, rest)
      | _ => do
        let (w, rest) := word cs
        return (← scalar? w, rest)

/-- Takes the items of an array and its closing bracket. -/
def items? : Nat → Nat → List Char → Option (List Document × List Char)
  | 0, _, _ => none
  | fuel + 1, depth, cs => do
    match ← gap? false cs with
    | ']' :: rest => return ([], rest)
    | cs =>
      let (item, cs) ← value? fuel depth cs
      match ← gap? false cs with
      | ',' :: rest =>
        let (items, rest) ← items? fuel depth rest
        return (item :: items, rest)
      | ']' :: rest => return ([item], rest)
      | _ => none

/-- Takes the members of an inline table and its closing brace. -/
def members? : Nat → Nat → Members → List Char → Option (Members × List Char)
  | 0, _, _, _ => none
  | fuel + 1, depth, members, cs => do
    match ← gap? false cs with
    | '\x7d' :: rest => return (members, rest)
    | cs =>
      let (path, cs) ← path? cs
      let (value, cs) ← value? fuel depth (← inlineEquals? cs)
      let members ← members.assign? path value
      match ← gap? false cs with
      | ',' :: rest => members? fuel depth members rest
      | '\x7d' :: rest => return (members, rest)
      | _ => none

end

/-- Takes the path of a header up to its closing bracket. -/
def header? (cs : List Char) : Option (List String × List Char) := do
  let (path, rest) ← path? cs
  match rest with
  | ']' :: rest => return (path, rest)
  | _ => none

/-- Reads the lines of a document. `header` is the path of the last header. -/
def lines? : Nat → List String → Members → List Char → Option Members
  | 0, _, _, _ => none
  | fuel + 1, header, members, cs => do
    match ← gap? false cs with
    | [] => return members
    | '[' :: '[' :: rest =>
      let (path, rest) ← header? rest
      match rest with
      | ']' :: rest => lines? fuel path (← members.append? path) (← lineEnd? false rest)
      | _ => none
    | '[' :: rest =>
      let (path, rest) ← header? rest
      lines? fuel path (← members.open? path) (← lineEnd? false rest)
    | cs =>
      let (path, rest) ← path? cs
      let (value, rest) ← value? fuel maxDepth (← equals? rest)
      lines? fuel header (← members.assignUnder? header path value) (← lineEnd? false rest)

/-- Every carriage return stands before a line feed. -/
def returnsPaired : List Char → Bool
  | [] => true
  | '\r' :: '\n' :: rest => returnsPaired rest
  | c :: rest => c != '\r' && returnsPaired rest

/-- A byte order mark at the beginning is left out. -/
def dropMark : List Char → List Char
  | '\ufeff' :: rest => rest
  | cs => cs

/-- Reads a document, which is a table. -/
def parse? (s : String) : Option Document := do
  let cs := dropMark s.toList
  guard (returnsPaired cs)
  return .table (memberDocuments (← lines? (2 * cs.length + 2) [] [] cs))

end LinkAggregation.Toml
