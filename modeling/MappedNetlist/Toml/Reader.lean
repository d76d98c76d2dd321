import MappedNetlist.Toml.Moment
import MappedNetlist.Toml.Number
import MappedNetlist.Toml.Table

/-!
# Reading TOML

`Value.ofText?` reads a whole document of TOML 1.0. A document is a sequence of lines, each of
which may hold a header or an assignment, and end with a comment. A value is read by the form that
fits; moments come before numbers, and numbers with a fraction before integers, because each of
them starts like the next.
-/

namespace MappedNetlist.Toml

open Reader

/-- Reads as `p` does, and gives the characters that `p` took. -/
def lexeme (p : Reader Unit) : Reader (List Char)
  | cs => (p cs).map fun (_, rest) => (cs.take (cs.length - rest.length), rest)

/-- Items between square brackets, separated by commas, of which one may follow the last item. -/
def array (item : Reader Value) : Reader (List Value) := do
  char '['
  filler
  let items ← (do
      let spaced : Reader Value := do
        let v ← item
        filler
        return v
      let v ← spaced
      let vs ← many (do char ','; filler; spaced)
      let _ ← optional (do char ','; filler)
      return v :: vs) <|> pure []
  char ']'
  return items

/-- The path before the last part of a key, and the last part. -/
def splitKey : List String → Option (List String × String)
  | [] => none
  | [k] => some ([], k)
  | k :: ks => do
    let (path, last) ← splitKey ks
    return (k :: path, last)

/-- A key, an equals sign and a value. -/
def assignment (value : Reader Value) : Reader (List String × String × Value) := do
  let (path, k) ← splitKey (← key)
  char '='
  blank
  let v ← value
  return (path, k, v)

/-- Assignments between braces, separated by commas. -/
def inlineTable (value : Reader Value) : Reader Value := do
  char '\x7b'
  blank
  let spaced : Reader (List String × String × Value) := do
    let a ← assignment value
    blank
    return a
  let assignments ← (do
      let a ← spaced
      let as ← many (do char ','; spaced)
      return a :: as) <|> pure []
  char '\x7d'
  inlineTable? assignments

/-- A value in which arrays and inline tables are nested at most `depth` deep. -/
def value (depth : Nat) : Reader Value :=
  (do return .string (← string)) <|>
  (do return .moment (← lexeme moment)) <|>
  (do return .float (← lexeme float)) <|>
  (do return .integer (← integer)) <|>
  (do word ['t', 'r', 'u', 'e']; return .boolean true) <|>
  (do word ['f', 'a', 'l', 's', 'e']; return .boolean false) <|>
  match depth with
  | 0 => failure
  | depth + 1 => (do return .array (← array (value depth))) <|> inlineTable (value depth)

/-- The header of a table, or of an element of a table array. -/
def header : Reader Statement :=
  (do
    word ['[', '[']
    let (path, k) ← splitKey (← key)
    word [']', ']']
    return .element path k) <|>
  (do
    char '['
    let (path, k) ← splitKey (← key)
    char ']'
    return .table path k)

def statement : Reader Statement :=
  header <|> (do
    let (path, k, v) ← assignment (value (nestingLimit - 1))
    return .assignment path k v)

/-- What stands on one line, before its end. -/
def line : Reader (Option Statement) := do
  blank
  let s ← optional statement
  blank
  let _ ← optional comment
  return s

/-- The statements of a document, which may start with a byte order mark. -/
def document : Reader (List Statement) := do
  let _ ← optional (char '\uFEFF')
  let lines ← many (do
    let s ← line
    newline
    return s)
  let last ← line
  return (lines ++ [last]).filterMap id

/-- The table that a text says, if the text is a TOML document. -/
def Value.ofText? (text : String) : Option Value := do
  let statements ← readAll? document text
  let d ← Document.ofStatements? statements
  return d.toValue

end MappedNetlist.Toml
