import MappedNetlist.Json.Value
import MappedNetlist.Text.Digits
import MappedNetlist.Text.Reader

/-!
# Reading JSON

`Value.ofText?` reads a whole text as one JSON value. The grammar is the strict one: spaces, tabs
and line ends may stand between tokens, numbers have no superfluous zeros, and control characters
must be escaped. Nesting is bounded by the length of the text alone. An escape that spells half of
a surrogate pair is accepted by the grammar and leaves the string without a text.
-/

namespace MappedNetlist.Json

open Reader

/-- The characters that may stand between tokens. -/
def isBlank (c : Char) : Bool := c = ' ' || c = '\n' || c = '\t' || c = '\r'

def blank : Reader Unit := do
  let _ ← run isBlank

/-- Four hexadecimal digits: one unit of UTF-16. -/
def unit16 : Reader Nat := do
  return ofDigits 16 (← exactly isHexDigit 4)

/-- The first half of a surrogate pair. -/
def isHighSurrogate (u : Nat) : Bool := 0xD800 ≤ u && u < 0xDC00

/-- The second half of a surrogate pair. -/
def isLowSurrogate (u : Nat) : Bool := 0xDC00 ≤ u && u < 0xE000

/-- The character that two halves of a surrogate pair spell. -/
def ofSurrogates (high low : Nat) : Char :=
  Char.ofNat (0x10000 + 0x400 * (high - 0xD800) + (low - 0xDC00))

/-- The escaped second half of a surrogate pair. -/
def lowEscape : Reader Nat := do
  char '\\'
  char 'u'
  let u ← unit16
  if isLowSurrogate u then return u else failure

/-- What stands after `\u`: a character, or half of a pair without the other half. -/
def unicodeEscape : Reader (Option Char) := do
  let u ← unit16
  if isHighSurrogate u then
    match ← optional lowEscape with
    | some low => return some (ofSurrogates u low)
    | none => return none
  else if isLowSurrogate u then return none
  else return some (Char.ofNat u)

/-- The character that a backslash and a letter stand for. -/
def letterEscape (c : Char) : Option Char :=
  match c with
  | '"' => some '"'
  | '\\' => some '\\'
  | '/' => some '/'
  | 'b' => some '\x08'
  | 'f' => some '\x0c'
  | 'n' => some '\n'
  | 'r' => some '\r'
  | 't' => some '\t'
  | _ => none

/-- One character of a string, or an unpaired surrogate. -/
def stringItem : Reader (Option Char)
  | '\\' :: 'u' :: cs => unicodeEscape cs
  | '\\' :: c :: cs => (letterEscape c).map fun d => (some d, cs)
  | c :: cs => if c = '"' || c = '\\' || c.toNat < 0x20 then none else some (some c, cs)
  | [] => none

/-- A string in quotes, with its text if it has one. -/
def string : Reader (Option String) := do
  char '"'
  let items ← many stringItem
  char '"'
  return (items.mapM id).map String.ofList

/-- Zero, or digits that do not start with a zero. -/
def wholePart : Reader (List Char) :=
  (do char '0'; return ['0']) <|> (do
    let d ← satisfy fun c => c.isDigit && c ≠ '0'
    let ds ← run Char.isDigit
    return d :: ds)

def fraction : Reader (List Char) := do
  char '.'
  let ds ← run1 Char.isDigit
  return '.' :: ds

def exponent : Reader (List Char) := do
  let e ← satisfy fun c => c = 'e' || c = 'E'
  let sign ← optional (satisfy fun c => c = '+' || c = '-')
  let ds ← run1 Char.isDigit
  return e :: sign.toList ++ ds

/-- A number as it is written. -/
def number : Reader (List Char) := do
  let minus ← optional (satisfy (· = '-'))
  let whole ← wholePart
  let frac ← optional fraction
  let exp ← optional exponent
  return minus.toList ++ whole ++ frac.getD [] ++ exp.getD []

/-- Items between brackets, separated by commas. -/
def bracketed {α : Type} (opening : Char) (item : Reader α) (closing : Char) : Reader (List α) := do
  char opening
  blank
  (do char closing; return []) <|> (do
    let a ← item
    blank
    let as ← many (do
      char ','
      blank
      let a ← item
      blank
      return a)
    char closing
    return a :: as)

/-- A name, a colon and a value. -/
def field (value : Reader Value) : Reader (Option String × Value) := do
  let name ← string
  blank
  char ':'
  blank
  let v ← value
  return (name, v)

/-- A value in which arrays and objects are nested less than `depth` deep. -/
def value : Nat → Reader Value
  | 0 => failure
  | depth + 1 =>
    (do word ['n', 'u', 'l', 'l']; return .null) <|>
    (do word ['t', 'r', 'u', 'e']; return .bool true) <|>
    (do word ['f', 'a', 'l', 's', 'e']; return .bool false) <|>
    (do return .number (← number)) <|>
    (do return .string (← string)) <|>
    (do return .array (← bracketed '[' (value depth) ']')) <|>
    (do return .object (← bracketed '{' (field (value depth)) '}'))

/-- The value that a text says, if the text is JSON. -/
def Value.ofText? (text : String) : Option Value :=
  readAll? (do
    blank
    let v ← value (text.length + 1)
    blank
    return v) text

end MappedNetlist.Json
