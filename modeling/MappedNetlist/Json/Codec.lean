import MappedNetlist.Json.Reader
import MappedNetlist.Handle
import MappedNetlist.TruthTable

/-!
# JSON forms

A type with a JSON form says how its values are encoded as JSON values and which JSON values
encode something. `Codec.write` and `Codec.read?` are the same on texts. A record is written as an
object; it is read from an object, whose unknown fields are passed over and whose declared fields
may not be repeated, or from an array of its fields in their order. A constant is written as a
string and read from a string or from an object with that one name and null.
-/

namespace MappedNetlist.Json

/-- The JSON form of the values of a type. -/
class Codec (α : Type) where
  encode : α → Value
  decode : Value → Option α

export Codec (encode decode)

namespace Codec

variable {α : Type} [Codec α]

/-- The compact JSON text of a value. -/
def write (a : α) : String := String.ofList (encode a).write

/-- The value whose JSON form a text is. -/
def read? (α : Type) [Codec α] (text : String) : Option α := Value.ofText? text >>= decode

end Codec

/-- What stands in the places of a record's fields, if the value can be a record with these
fields: the values of an object under the names, or the items of an array, which may end early. -/
def Value.record? (names : List String) : Value → Option (List (Option Value))
  | .object fields => do
    let named ← fields.mapM fun (k, v) => k.map fun name => (name, v)
    guard (names.all fun name => (named.filter (·.1 = name)).length ≤ 1)
    return names.map fun name => (named.find? (·.1 = name)).map Prod.snd
  | .array items => do
    guard (items.length ≤ names.length)
    return items.map some ++ List.replicate (names.length - items.length) none
  | _ => none

/-- The name of the constant that a value can stand for. -/
def Value.constant? : Value → Option String
  | .string text => text
  | .object [(name, .null)] => name
  | _ => none

/-- A field that must be there. -/
def required {α : Type} [Codec α] (v : Option Value) : Option α := v >>= decode

/-- A field that takes a default value where it is missing. -/
def defaulted {α : Type} [Codec α] (default : α) : Option Value → Option α
  | none => some default
  | some v => decode v

/-- The object with these fields, in this order. -/
def Value.ofFields (fields : List (String × Value)) : Value :=
  .object (fields.map fun (name, v) => (some name, v))

/-- A number below 2³² that a value spells. -/
def Value.word? (v : Value) : Option Nat := do
  let n ← v.nat?
  guard (n < UInt32.size)
  return n

instance : Codec String where
  encode s := .string (some s)
  decode
    | .string text => text
    | _ => none

instance : Codec Bool where
  encode b := .bool b
  decode
    | .bool b => some b
    | _ => none

instance : Codec UInt32 where
  encode n := .ofNat n.toNat
  decode v := v.word?.map UInt32.ofNat

instance {α : Type} [Codec α] : Codec (List α) where
  encode as := .array (as.map encode)
  decode
    | .array items => items.mapM decode
    | _ => none

/-- A handle is its position, which must be below 2³² to be read back. -/
instance {k : Kind} : Codec (Handle k) where
  encode h := .ofNat h.index
  decode v := v.word?.map Handle.mk

instance : Codec StringId where
  encode s := .ofNat s.index
  decode v := v.word?.map StringId.mk

instance : Codec Symbol where
  encode s := .string (some s.name)
  decode v := v.constant? >>= Symbol.ofName?

end MappedNetlist.Json
