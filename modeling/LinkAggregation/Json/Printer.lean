import LinkAggregation.Json.Value

/-!
# Writing JSON

A value is written on one line without spaces, or with one item or member a line and two more
spaces for each level.
-/
namespace LinkAggregation.Json
open Text

/-- A character as it stands in a string. -/
def stringChar (c : Char) : List Char :=
  if c = '"' then ['\\', '"']
  else if c = '\\' then ['\\', '\\']
  else if c = '\x08' then ['\\', 'b']
  else if c = '\x0c' then ['\\', 'f']
  else if c = '\n' then ['\\', 'n']
  else if c = '\r' then ['\\', 'r']
  else if c = '\t' then ['\\', 't']
  else if c.toNat < 0x20 then ['\\', 'u'] ++ hexPadded 4 c.toNat
  else [c]

/-- A string with its quotes. -/
def stringText (s : String) : String :=
  String.ofList ('"' :: (s.toList.flatMap stringChar ++ ['"']))

/-- A value that is neither an array nor an object with content. -/
def scalarText : Json → String
  | null => "null"
  | bool true => "true"
  | bool false => "false"
  | number n => String.ofList n.chars
  | text s => stringText s
  | array _ => "[]"
  | object _ => "\x7b\x7d"

mutual

/-- The value on one line. -/
def compact : Json → String
  | array items => "[" ++ compactItems items ++ "]"
  | object members => "\x7b" ++ compactMembers members ++ "\x7d"
  | v => scalarText v

def compactItems : List Json → String
  | [] => ""
  | [v] => v.compact
  | v :: rest => v.compact ++ "," ++ compactItems rest

def compactMembers : List (String × Json) → String
  | [] => ""
  | [(key, v)] => stringText key ++ ":" ++ v.compact
  | (key, v) :: rest => stringText key ++ ":" ++ v.compact ++ "," ++ compactMembers rest

end

/-- The start of a line at a level. -/
def newLine (level : Nat) : String := String.ofList ('\n' :: List.replicate (2 * level) ' ')

mutual

/-- The value over several lines; it stands at a level. -/
def pretty (level : Nat) : Json → String
  | array (v :: rest) => "[" ++ prettyItems (level + 1) (v :: rest) ++ newLine level ++ "]"
  | object (m :: rest) =>
    "\x7b" ++ prettyMembers (level + 1) (m :: rest) ++ newLine level ++ "\x7d"
  | v => scalarText v

def prettyItems (level : Nat) : List Json → String
  | [] => ""
  | [v] => newLine level ++ v.pretty level
  | v :: rest => newLine level ++ v.pretty level ++ "," ++ prettyItems level rest

def prettyMembers (level : Nat) : List (String × Json) → String
  | [] => ""
  | [(key, v)] => newLine level ++ stringText key ++ ": " ++ v.pretty level
  | (key, v) :: rest =>
    newLine level ++ stringText key ++ ": " ++ v.pretty level ++ "," ++ prettyMembers level rest

end

end LinkAggregation.Json
