import MappedNetlist.Text.Digits
import MappedNetlist.Text.Reader

/-!
# TOML text

The characters of a TOML document, its strings and its keys. A string is basic or literal, on one
line or on several; basic strings have escapes. On several lines a line end right after the
opening quotes is left out, any other line end counts as one line feed, and up to two quotes in a
row belong to the text, also right before the closing ones.
-/

namespace MappedNetlist.Toml

open Reader

/-- Spaces and tabs. -/
def isBlank (c : Char) : Bool := c = ' ' || c = '\t'

/-- The control characters, of which a document may contain tabs and line ends only. -/
def isControl (c : Char) : Bool := c.toNat < 0x20 || c.toNat = 0x7F

/-- A character of a line: no control character but the tab. -/
def isPrintable (c : Char) : Bool := c = '\t' || !isControl c

def blank : Reader Unit := do
  let _ ← run isBlank

/-- A line feed, with a carriage return before it or not. -/
def newline : Reader Unit :=
  char '\n' <|> word ['\r', '\n']

def comment : Reader Unit := do
  char '#'
  let _ ← run isPrintable

/-- Blanks, line ends and comments. -/
def filler : Reader Unit := do
  let _ ← many ((do let _ ← run1 isBlank) <|> newline <|> comment)

/-- The character of a code point that is written with `digits` hexadecimal digits. -/
def codePoint (digits : Nat) : Reader Char := do
  let n := ofDigits 16 (← exactly isHexDigit digits)
  if n.isValidChar then return Char.ofNat n else failure

/-- The character that a backslash and what follows it stand for. -/
def escaped : Reader Char := do
  char '\\'
  let c ← satisfy fun _ => true
  match c with
  | '"' => return '"'
  | '\\' => return '\\'
  | 'b' => return '\x08'
  | 'f' => return '\x0c'
  | 'n' => return '\n'
  | 'r' => return '\r'
  | 't' => return '\t'
  | 'u' => codePoint 4
  | 'U' => codePoint 8
  | _ => failure

/-- A character that stands for itself in a basic string. -/
def plainBasic : Reader Char := satisfy fun c => isPrintable c && c ≠ '"' && c ≠ '\\'

/-- A character that stands for itself in a literal string. -/
def plainLiteral : Reader Char := satisfy fun c => isPrintable c && c ≠ '\''

def basicString : Reader String := do
  char '"'
  let cs ← many (plainBasic <|> escaped)
  char '"'
  return String.ofList cs

def literalString : Reader String := do
  char '\''
  let cs ← many plainLiteral
  char '\''
  return String.ofList cs

/-- A backslash at the end of a line, which leaves out the line end and all blanks and line ends
that follow it. -/
def lineJoint : Reader Unit := do
  char '\\'
  blank
  newline
  let _ ← many ((do let _ ← satisfy isBlank) <|> newline)

/-- What `content` reads, over several lines between triple `quote`s. -/
def multiline (quote : Char) (content : Reader (List Char)) : Reader String := do
  word [quote, quote, quote]
  let _ ← optional newline
  let inner := content <|> (do newline; return ['\n'])
  let parts ← many <|
    inner <|>
    (do word [quote, quote]; return quote :: quote :: (← inner)) <|>
    (do char quote; return quote :: (← inner))
  let last ←
    (do word [quote, quote, quote, quote, quote]; return [quote, quote]) <|>
    (do word [quote, quote, quote, quote]; return [quote]) <|>
    (do word [quote, quote, quote]; return [])
  return String.ofList (parts.flatten ++ last)

def multilineBasic : Reader String :=
  multiline '"' <|
    (do return [← plainBasic]) <|> (do lineJoint; return []) <|> (do return [← escaped])

def multilineLiteral : Reader String :=
  multiline '\'' (do return [← plainLiteral])

def string : Reader String :=
  multilineBasic <|> basicString <|> multilineLiteral <|> literalString

/-- A character of a key without quotes. -/
def isBareKeyChar (c : Char) : Bool := c.isAlphanum || c = '_' || c = '-'

def simpleKey : Reader String :=
  (do return String.ofList (← run1 isBareKeyChar)) <|> basicString <|> literalString

/-- The number of parts that a dotted key stays below, and so do arrays and inline tables that are
nested in each other. -/
def nestingLimit : Nat := 80

/-- Simple keys with dots between them, and blanks around each. -/
def key : Reader (List String) := do
  let part : Reader String := do
    blank
    let k ← simpleKey
    blank
    return k
  let k ← part
  let ks ← many (do char '.'; part)
  if (k :: ks).length < nestingLimit then return k :: ks else failure

end MappedNetlist.Toml
