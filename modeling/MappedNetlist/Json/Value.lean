/-!
# JSON values

A `Value` is what a JSON text says. Numbers stay as they are written, because how much of a number
matters is for its user to say. A string may spell half of a surrogate pair, which no Unicode text
has; it is then a string without a text. The fields of an object stay in order, repetitions
included. `Value.write` gives the compact text of a value.
-/

namespace MappedNetlist.Json

/-- The content of a JSON text. -/
inductive Value
  | null
  | bool (b : Bool)
  | number (literal : List Char)
  | string (text : Option String)
  | array (items : List Value)
  | object (fields : List (Option String × Value))

/-- How a character is written inside a string. Quotes, backslashes and the control characters
below U+0020 are escaped, five of them by a letter; all others stand for themselves. -/
def escape (c : Char) : List Char :=
  if c = '"' then ['\\', '"']
  else if c = '\\' then ['\\', '\\']
  else if c = '\x08' then ['\\', 'b']
  else if c = '\x0c' then ['\\', 'f']
  else if c = '\n' then ['\\', 'n']
  else if c = '\r' then ['\\', 'r']
  else if c = '\t' then ['\\', 't']
  else if c.toNat < 0x20 then
    ['\\', 'u', '0', '0', (c.toNat / 16).digitChar, (c.toNat % 16).digitChar]
  else [c]

/-- A string in quotes. What has no text is written as the empty string. -/
def writeString (s : Option String) : List Char :=
  '"' :: (s.getD "").toList.flatMap escape ++ ['"']

/-- Written items with commas between them. -/
def commaSeparated : List (List Char) → List Char
  | [] => []
  | [a] => a
  | a :: as => a ++ ',' :: commaSeparated as

mutual

/-- The compact text of a value, without any space. -/
def Value.write : Value → List Char
  | .null => ['n', 'u', 'l', 'l']
  | .bool true => ['t', 'r', 'u', 'e']
  | .bool false => ['f', 'a', 'l', 's', 'e']
  | .number literal => literal
  | .string s => writeString s
  | .array items => '[' :: commaSeparated (writeItems items) ++ [']']
  | .object fields => '{' :: commaSeparated (writeFields fields) ++ ['}']

def writeItems : List Value → List (List Char)
  | [] => []
  | v :: vs => v.write :: writeItems vs

def writeFields : List (Option String × Value) → List (List Char)
  | [] => []
  | (k, v) :: fs => (writeString k ++ ':' :: v.write) :: writeFields fs

end

/-- The number written in decimal digits. -/
def Value.ofNat (n : Nat) : Value := .number (Nat.toDigits 10 n)

/-- The number that a literal of digits alone spells. -/
def Value.nat? : Value → Option Nat
  | .number literal =>
    if literal.all Char.isDigit then some (Nat.ofDigitChars 10 literal 0) else none
  | _ => none

@[simp] theorem Value.nat?_ofNat (n : Nat) : (Value.ofNat n).nat? = some n := by
  have h : (Nat.toDigits 10 n).all Char.isDigit = true :=
    List.all_eq_true.2 fun c hc => Nat.isDigit_of_mem_toDigits (by decide) (by decide) hc
  simp [Value.ofNat, Value.nat?, h]

theorem writeItems_eq_map (vs : List Value) : writeItems vs = vs.map Value.write := by
  induction vs with
  | nil => rfl
  | cons v vs ih => simp [writeItems, ih]

theorem writeFields_eq_map (fs : List (Option String × Value)) :
    writeFields fs = fs.map fun f => writeString f.1 ++ ':' :: f.2.write := by
  induction fs with
  | nil => rfl
  | cons f fs ih => simp [writeFields, ih]

end MappedNetlist.Json
