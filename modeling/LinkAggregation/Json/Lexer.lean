import LinkAggregation.Json.Value

/-!
# JSON tokens

The characters of a document are taken one by one by a machine that is between tokens, inside a
string, or inside a word. A word is everything else that is made of letters, digits, signs and
points: a number or one of three names.
-/
namespace LinkAggregation.Json
open Text

/-- A token of a document. -/
inductive Token where
  | openArray
  | closeArray
  | openObject
  | closeObject
  | comma
  | colon
  | text (value : String)
  /-- A number or a name. -/
  | scalar (value : Json)
  deriving Inhabited

/-- Where an escape in a string stands. -/
inductive Escape where
  | none
  /-- After the backslash. -/
  | begun
  /-- Within the four digits of a code unit; `high` is the first half of a pair. -/
  | digits (high : Option Nat) (count value : Nat)
  /-- After the first half of a pair. -/
  | pair (high : Nat)
  /-- After the backslash that follows the first half of a pair. -/
  | pairBegun (high : Nat)

/-- Where the machine stands. Characters of the present token are kept in reverse. -/
inductive Place where
  | between
  | inText (chars : List Char) (escape : Escape)
  | inWord (chars : List Char)

/-- The machine: its place, and the tokens so far in reverse. -/
structure Lexer where
  place : Place := .between
  tokens : List Token := []

def isSpace (c : Char) : Bool := c == ' ' || c == '\t' || c == '\n' || c == '\r'

/-- The characters that words are made of. -/
def isWordChar (c : Char) : Bool := c.isAlphanum || c == '-' || c == '+' || c == '.'

def punctuation? : Char → Option Token
  | '[' => some .openArray
  | ']' => some .closeArray
  | '\x7b' => some .openObject
  | '\x7d' => some .closeObject
  | ',' => some .comma
  | ':' => some .colon
  | _ => none

/-- The value of a whole word. -/
def wordValue? (chars : List Char) : Option Json :=
  if chars = "true".toList then some (.bool true)
  else if chars = "false".toList then some (.bool false)
  else if chars = "null".toList then some .null
  else (Number.ofChars? chars).map .number

/-- The character that a simple escape stands for. -/
def simpleEscape? : Char → Option Char
  | '"' => some '"'
  | '\\' => some '\\'
  | '/' => some '/'
  | 'b' => some '\x08'
  | 'f' => some '\x0c'
  | 'n' => some '\n'
  | 'r' => some '\r'
  | 't' => some '\t'
  | _ => none

/-- A code unit is complete: a character, or half of a pair. -/
def codeUnit? (chars : List Char) (high : Option Nat) (unit : Nat) : Option Place :=
  match high with
  | some high =>
    if 0xdc00 ≤ unit ∧ unit ≤ 0xdfff then
      some (.inText (Char.ofNat (0x10000 + (high - 0xd800) * 1024 + (unit - 0xdc00)) :: chars)
        .none)
    else none
  | none =>
    if 0xd800 ≤ unit ∧ unit ≤ 0xdbff then some (.inText chars (.pair unit))
    else if 0xdc00 ≤ unit ∧ unit ≤ 0xdfff then none
    else some (.inText (Char.ofNat unit :: chars) .none)

/-- A character inside an escape. -/
def escaped? (chars : List Char) (c : Char) : Escape → Option Place
  | .none => none
  | .begun =>
    if c = 'u' then some (.inText chars (.digits none 0 0))
    else (simpleEscape? c).map fun d => .inText (d :: chars) .none
  | .digits high count value => do
    let value := value * 16 + (← hexDigit? c)
    if count < 3 then return .inText chars (.digits high (count + 1) value)
    else codeUnit? chars high value
  | .pair high => if c = '\\' then some (.inText chars (.pairBegun high)) else none
  | .pairBegun high => if c = 'u' then some (.inText chars (.digits (some high) 0 0)) else none

namespace Lexer

/-- A character between tokens. -/
def start? (l : Lexer) (c : Char) : Option Lexer :=
  if isSpace c then some { l with place := .between }
  else if c = '"' then some { l with place := .inText [] .none }
  else if isWordChar c then some { l with place := .inWord [c] }
  else (punctuation? c).map fun t => { place := .between, tokens := t :: l.tokens }

/-- Ends a word. -/
def endWord? (l : Lexer) : Option Lexer :=
  match l.place with
  | .inWord chars => (wordValue? chars.reverse).map fun v => { tokens := .scalar v :: l.tokens }
  | .between => some l
  | .inText .. => none

/-- Takes a character. -/
def step? (l : Lexer) (c : Char) : Option Lexer :=
  match l.place with
  | .between => l.start? c
  | .inWord chars =>
    if isWordChar c then some { l with place := .inWord (c :: chars) }
    else do (← l.endWord?).start? c
  | .inText chars .none =>
    if c = '"' then some { tokens := .text (String.ofList chars.reverse) :: l.tokens }
    else if c = '\\' then some { l with place := .inText chars .begun }
    else if c.toNat < 0x20 then none
    else some { l with place := .inText (c :: chars) .none }
  | .inText chars escape => (escaped? chars c escape).map fun place => { l with place }

end Lexer

/-- The tokens of a document. -/
def tokens? (cs : List Char) : Option (List Token) := do
  let l ← cs.foldlM Lexer.step? {}
  return (← l.endWord?).tokens.reverse

end LinkAggregation.Json
