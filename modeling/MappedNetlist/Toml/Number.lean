import MappedNetlist.Toml.Text

/-!
# TOML numbers

Integers are decimal, or hexadecimal, octal or binary without a sign, and must fit into 64 bits
with a sign. Underscores may stand between digits. Fractional numbers are only recognised, not
computed; one too large for a 64-bit floating-point number is refused, which `overflows` decides
in whole numbers.
-/

namespace MappedNetlist.Toml

open Reader

/-- Digits, with single underscores between them. -/
def digits (isDigit : Char → Bool) : Reader (List Char) := do
  let d ← satisfy isDigit
  let ds ← many (satisfy isDigit <|> (do char '_'; satisfy isDigit))
  return d :: ds

def sign : Reader Char := satisfy fun c => c = '+' || c = '-'

/-- Decimal digits of which the first is zero only if it stands alone. -/
def decimalDigits : Reader (List Char) :=
  (do
    let d ← satisfy fun c => c.isDigit && c ≠ '0'
    let ds ← many (satisfy Char.isDigit <|> (do char '_'; satisfy Char.isDigit))
    return d :: ds) <|>
  (do return [← satisfy Char.isDigit])

/-- Whether an integer has a place among the 64-bit integers. -/
def fits (n : Int) : Bool := -0x8000000000000000 ≤ n && n < 0x8000000000000000

def decimal : Reader Int := do
  let s ← optional sign
  let n : Int := ofDigits 10 (← decimalDigits)
  return if s = some '-' then -n else n

/-- Digits of another base after their mark. -/
def based (mark : Char) (base : Nat) (isDigit : Char → Bool) : Reader Int := do
  char '0'
  char mark
  return ofDigits base (← digits isDigit)

def integer : Reader Int := do
  let n ←
    based 'x' 16 isHexDigit <|>
    based 'o' 8 (fun c => '0' ≤ c && c ≤ '7') <|>
    based 'b' 2 (fun c => c = '0' || c = '1') <|>
    decimal
  if fits n then return n else failure

/-- The parts of a fractional number, without underscores: its sign, the digits before and after
the point, and the exponent. -/
structure Fractional where
  negative : Bool
  whole : List Char
  fraction : List Char
  exponent : Int

/-- Half a unit beyond the largest 64-bit floating-point number: a number of 54 binary ones with
970 zeros after them. -/
def overflowBound : Nat := 0x3fffffffffffff <<< 970

/-- Whether the positive number `m · 10 ^ e` is at least `overflowBound`, which has 309 digits.
Only numbers near the bound are multiplied out. -/
def overflows (m : Nat) (e : Int) : Bool :=
  let magnitude := (Nat.toDigits 10 m).length + e
  if m = 0 || magnitude < 309 then false
  else if 309 < magnitude then true
  else if 0 ≤ e then overflowBound ≤ m * Nat.pow 10 e.toNat
  else overflowBound * Nat.pow 10 (-e).toNat ≤ m

def Fractional.overflows (f : Fractional) : Bool :=
  !f.negative &&
    Toml.overflows (ofDigits 10 (f.whole ++ f.fraction)) (f.exponent - f.fraction.length)

def exponent : Reader Int := do
  let _ ← satisfy fun c => c = 'e' || c = 'E'
  let s ← optional sign
  let n : Int := ofDigits 10 (← digits Char.isDigit)
  return if s = some '-' then -n else n

/-- A number with a fraction, an exponent or both. -/
def fractional : Reader Fractional := do
  let s ← optional sign
  let whole ← decimalDigits
  let (fraction, exponent) ←
    (do return ([], ← exponent)) <|>
    (do
      char '.'
      let ds ← digits Char.isDigit
      return (ds, (← optional exponent).getD 0))
  return { negative := s = some '-', whole, fraction, exponent }

/-- A number that is infinite or none. -/
def special : Reader Unit := do
  let _ ← optional sign
  word ['i', 'n', 'f'] <|> word ['n', 'a', 'n']

def float : Reader Unit :=
  (do if (← fractional).overflows then failure) <|> special

end MappedNetlist.Toml
