/-!
# TOML values

A `Value` is what a TOML document or one of its values says. Fractional numbers and dates stay as
they are written, since nothing in a model library has such a type. The fields of a table have
distinct names. `Value.record?` and `Value.constant?` say which values can stand for a record or
for a named constant.
-/

namespace MappedNetlist.Toml

/-- The content of a TOML document, or of a value in it. -/
inductive Value
  | string (text : String)
  | integer (n : Int)
  | float (literal : List Char)
  | boolean (b : Bool)
  | moment (literal : List Char)
  | array (items : List Value)
  | table (fields : List (String × Value))

namespace Value

def text? : Value → Option String
  | string s => some s
  | _ => none

/-- An integer that fits into 32 bits without a sign. -/
def word? : Value → Option UInt32
  | integer n => if 0 ≤ n ∧ n.toNat < UInt32.size then some (UInt32.ofNat n.toNat) else none
  | _ => none

def bool? : Value → Option Bool
  | boolean b => some b
  | _ => none

/-- A list of which `item` reads every item. -/
def list? {α : Type} (item : Value → Option α) : Value → Option (List α)
  | array items => items.mapM item
  | _ => none

/-- A field that takes a default value where it is missing. -/
def fieldOr {α : Type} (default : α) (read : Value → Option α) : Option Value → Option α
  | none => some default
  | some v => read v

/-- What stands in the places of a record's fields: the values of a table under the names, or the
items of an array, which may end early and may hold more than the record asks for. -/
def record? (names : List String) : Value → Option (List (Option Value))
  | table fields => some (names.map fun name => (fields.find? (·.1 = name)).map Prod.snd)
  | array items => some ((List.range names.length).map fun i => items[i]?)
  | _ => none

/-- The name of the constant that a value can stand for: a string, or the one name of a table that
holds nothing under it. -/
def constant? : Value → Option String
  | string text => some text
  | table [(name, table [])] => some name
  | table [(name, array [])] => some name
  | _ => none

end Value

end MappedNetlist.Toml
