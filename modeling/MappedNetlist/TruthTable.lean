/-!
# Truth tables

A block may carry rows of three-valued symbols: the cover of a look-up table, or the one row that
gives the initial state of a flip-flop. The netlist stores them without reading them. A row is
written with one character per symbol, and `Row.ofString?_toString` says that reading undoes
writing.
-/

namespace MappedNetlist

/-- One symbol of a row: low, high, or an input that does not matter. -/
inductive Symbol
  | zero
  | one
  | dontCare
  deriving DecidableEq, Repr

namespace Symbol

/-- The character that stands for a symbol in a row. -/
def toChar : Symbol → Char
  | zero => '0'
  | one => '1'
  | dontCare => '-'

def ofChar? : Char → Option Symbol
  | '0' => some zero
  | '1' => some one
  | '-' => some dontCare
  | _ => none

/-- The small number under which a symbol is stored. -/
def code : Symbol → Nat
  | zero => 0
  | one => 1
  | dontCare => 2

/-- The name under which a symbol is written where words are used. -/
def name : Symbol → String
  | zero => "Zero"
  | one => "One"
  | dontCare => "DontCare"

def ofName? : String → Option Symbol
  | "Zero" => some zero
  | "One" => some one
  | "DontCare" => some dontCare
  | _ => none

@[simp] theorem ofName?_name (s : Symbol) : ofName? s.name = some s := by
  cases s <;> rfl

@[simp] theorem ofChar?_toChar (s : Symbol) : ofChar? s.toChar = some s := by
  cases s <;> rfl

end Symbol

/-- A row of symbols: the inputs in order, then the output; or a single initial state. -/
abbrev Row := List Symbol

abbrev TruthTable := List Row

namespace Row

def toString (r : Row) : String := String.ofList (r.map Symbol.toChar)

/-- Reads a row; there is none as soon as one character is not a symbol. -/
def ofString? (s : String) : Option Row := s.toList.mapM Symbol.ofChar?

theorem ofString?_toString (r : Row) : ofString? r.toString = some r := by
  simp only [ofString?, toString, String.toList_ofList]
  induction r with
  | nil => rfl
  | cons s r ih => simp [List.mapM_cons, ih]

end Row

end MappedNetlist
