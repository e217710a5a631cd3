import LinkAggregation.Text.Numeral

/-!
# TOML strings

A string is basic, with escapes, or literal, without; either stands on one line between single
quotation marks or on several lines between triple ones. `quoted` writes a string in the plainest
form that can hold it.
-/
namespace LinkAggregation.Toml
open Text

/-- The character may not stand in a string or comment, or on one line. -/
def isControl (c : Char) : Bool := (c.toNat < 0x20 && c != '\t') || c.toNat == 0x7f

/-- The character may not stand in a string over several lines. -/
def isMultiLineControl (c : Char) : Bool := isControl c && c != '\n' && c != '\r'

/-! ## Reading -/

/-- Splits at the quotation mark that ends a string. With `escapes`, a backslash keeps the next
character from ending it; `kept` tells that the first character is kept. -/
def splitAtQuote? (quote : Char) (escapes kept : Bool) :
    List Char → Option (List Char × List Char)
  | [] => none
  | c :: rest =>
    if c = quote ∧ !kept then some ([], rest)
    else do
      let (raw, rest) ← splitAtQuote? quote escapes (escapes && !kept && c == '\\') rest
      return (c :: raw, rest)

/-- Splits at the three quotation marks that end a string over several lines. Up to two more
marks before them belong to the string. -/
def splitAtTriple? (quote : Char) (escapes kept : Bool) :
    List Char → Option (List Char × List Char)
  | [] => none
  | c :: rest =>
    if c = quote ∧ !kept ∧ rest.take 2 = [quote, quote] then
      let more := ((rest.drop 2).take 2).takeWhile (· == quote)
      some (more, rest.drop (2 + more.length))
    else do
      let (raw, rest) ← splitAtTriple? quote escapes (escapes && !kept && c == '\\') rest
      return (c :: raw, rest)

/-- Where a basic string stands. -/
inductive Place where
  | plain
  /-- After a backslash. -/
  | escape
  /-- Within the digits of a character's number. -/
  | digits (left value : Nat)
  /-- After a backslash and blanks; the line has to end. -/
  | lineEnd
  /-- After that line end; blanks and further line ends are left out. -/
  | margin

/-- The character of a simple escape. -/
def simpleEscape? : Char → Option Char
  | 'b' => some '\x08'
  | 't' => some '\t'
  | 'n' => some '\n'
  | 'f' => some '\x0c'
  | 'r' => some '\r'
  | 'e' => some '\x1b'
  | '"' => some '"'
  | '\\' => some '\\'
  | _ => none

/-- How many digits the number of a character has after this letter. -/
def escapeDigits? : Char → Option Nat
  | 'x' => some 2
  | 'u' => some 4
  | 'U' => some 8
  | _ => none

/-- The character with this number; surrogates are no characters. -/
def character? (n : Nat) : Option Char :=
  if n.isValidChar then some (Char.ofNat n) else none

def isBlankChar (c : Char) : Bool := c == ' ' || c == '\t' || c == '\r'

/-- A basic string so far, in reverse, and where it stands. -/
structure Unescaped where
  chars : List Char := []
  place : Place := .plain

namespace Unescaped

/-- A character outside of escapes. -/
def plain? (multiLine : Bool) (u : Unescaped) (c : Char) : Option Unescaped :=
  if c = '\\' then some { u with place := .escape }
  else if if multiLine then isMultiLineControl c else isControl c then none
  else some ⟨c :: u.chars, .plain⟩

/-- The character after a backslash. -/
def escape? (multiLine : Bool) (u : Unescaped) (c : Char) : Option Unescaped :=
  match simpleEscape? c, escapeDigits? c with
  | some d, _ => some ⟨d :: u.chars, .plain⟩
  | none, some n => some { u with place := .digits n 0 }
  | none, none =>
    if !multiLine then none
    else if c = '\n' then some { u with place := .margin }
    else if isBlankChar c then some { u with place := .lineEnd }
    else none

/-- Takes a character. -/
def step? (multiLine : Bool) (u : Unescaped) (c : Char) : Option Unescaped :=
  match u.place with
  | .plain => u.plain? multiLine c
  | .escape => u.escape? multiLine c
  | .digits left value => do
    let value := value * 16 + (← hexDigit? c)
    if 1 < left then return { u with place := .digits (left - 1) value }
    else return ⟨(← character? value) :: u.chars, .plain⟩
  | .lineEnd =>
    if c = '\n' then some { u with place := .margin }
    else if isBlankChar c then some u
    else none
  | .margin =>
    if c = '\n' ∨ isBlankChar c then some u else u.plain? multiLine c

/-- The string, if no escape is open. -/
def finish? (u : Unescaped) : Option (List Char) :=
  match u.place with
  | .plain | .margin => some u.chars.reverse
  | _ => none

end Unescaped

/-- The string that a basic string's raw text stands for. -/
def unescape? (multiLine : Bool) (raw : List Char) : Option (List Char) := do
  (← raw.foldlM (Unescaped.step? multiLine) {}).finish?

/-- The raw text is free of control characters. -/
def literal? (multiLine : Bool) (raw : List Char) : Option (List Char) :=
  if raw.any (if multiLine then isMultiLineControl else isControl) then none else some raw

/-- A line end right after the opening marks is left out. -/
def dropLineEnd : List Char → List Char
  | '\n' :: rest => rest
  | '\r' :: '\n' :: rest => rest
  | cs => cs

/-- Takes a string on one line off the front. -/
def lineString? : List Char → Option (String × List Char)
  | '"' :: rest => do
    let (raw, rest) ← splitAtQuote? '"' true false rest
    return (String.ofList (← unescape? false raw), rest)
  | '\'' :: rest => do
    let (raw, rest) ← splitAtQuote? '\'' false false rest
    return (String.ofList (← literal? false raw), rest)
  | _ => none

/-- Takes a string off the front. -/
def string? : List Char → Option (String × List Char)
  | '"' :: '"' :: '"' :: rest => do
    let (raw, rest) ← splitAtTriple? '"' true false (dropLineEnd rest)
    return (String.ofList (← unescape? true raw), rest)
  | '\'' :: '\'' :: '\'' :: rest => do
    let (raw, rest) ← splitAtTriple? '\'' false false (dropLineEnd rest)
    return (String.ofList (← literal? true raw), rest)
  | cs => lineString? cs

/-! ## Writing -/

/-- The length of the longest run of a character. `run` is the length of the run before the
text. -/
def longestRun (c : Char) (run : Nat) : List Char → Nat
  | [] => run
  | d :: rest => if d = c then longestRun c (run + 1) rest else max run (longestRun c 0 rest)

/-- A hexadecimal digit in upper case. -/
def upperDigit (c : Char) : Char := if 'a' ≤ c ∧ c ≤ 'f' then Char.ofNat (c.toNat - 32) else c

/-- A character of a basic string other than the quotation mark. -/
def basicChar (multiLine : Bool) (c : Char) : List Char :=
  if c = '\x08' then ['\\', 'b']
  else if c = '\t' then ['\\', 't']
  else if c = '\n' then if multiLine then ['\n'] else ['\\', 'n']
  else if c = '\x0c' then ['\\', 'f']
  else if c = '\r' then ['\\', 'r']
  else if c = '\\' then ['\\', '\\']
  else if isControl c then ['\\', 'u'] ++ (hexPadded 4 c.toNat).map upperDigit
  else [c]

/-- The text of a basic string. At most `allowed` quotation marks in a row stay as they are, of
which `run` have just been written. -/
def basicText (multiLine : Bool) (allowed run : Nat) : List Char → List Char
  | [] => []
  | c :: rest =>
    if c = '"' then
      if run < allowed then '"' :: basicText multiLine allowed (run + 1) rest
      else '\\' :: '"' :: basicText multiLine allowed 0 rest
    else basicChar multiLine c ++ basicText multiLine allowed 0 rest

/-- Puts marks around a text. -/
def between (mark : List Char) (cs : List Char) : List Char := mark ++ cs ++ mark

/-- Puts triple marks around a text; a text with line ends starts on a line of its own. -/
def betweenTriple (quote : Char) (content cs : List Char) : List Char :=
  let start := if '\n' ∈ content then ['\n'] else []
  between [quote, quote, quote] (start ++ cs)

/-- The characters of a string with its quotation marks. Basic comes before literal and one line
before several, as long as no escape is needed. -/
def quotedChars (cs : List Char) : List Char :=
  let hidden := cs.any fun c => isControl c && c != '\n'
  let backslash := cs.contains '\\'
  let lines := cs.contains '\n'
  let doubles := longestRun '"' 0 cs
  let singles := longestRun '\'' 0 cs
  let basic := between ['"'] (basicText false 0 0 cs)
  let multiBasic := betweenTriple '"' cs (basicText true 2 0 cs)
  if !hidden && !backslash && doubles == 0 && !lines then basic
  else if !hidden && singles == 0 && !lines then between ['\''] cs
  else if !hidden && !backslash && doubles ≤ 2 then multiBasic
  else if !hidden && singles ≤ 2 then betweenTriple '\'' cs cs
  else if lines then multiBasic
  else basic

/-- A string with its quotation marks. -/
def quoted (s : String) : String := String.ofList (quotedChars s.toList)

end LinkAggregation.Toml
