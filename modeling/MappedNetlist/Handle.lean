/-!
# Handles

Entities of a netlist are named by handles: the position at which they were issued, tagged with
the kind of entity, so that a port handle cannot be used where a pin handle is meant. An interned
name is a `StringId`. Both are ordered by position, which makes them keys of ordered maps. What is
absent is always an `Option`, never a position kept for the purpose.
-/

namespace MappedNetlist

/-- The four kinds of entity that a netlist stores. -/
inductive Kind
  | block
  | port
  | pin
  | net
  deriving DecidableEq, Repr

/-- The word for a kind in every text that the library writes. -/
def Kind.word : Kind → String
  | .block => "block"
  | .port => "port"
  | .pin => "pin"
  | .net => "net"

theorem Kind.word_injective {k l : Kind} (h : k.word = l.word) : k = l := by
  cases k <;> cases l <;> simp_all [Kind.word]

/-- The position at which an entity of kind `k` was issued. -/
structure Handle (k : Kind) where
  index : Nat
  deriving DecidableEq, Repr

abbrev BlockId := Handle .block

abbrev PortId := Handle .port

abbrev PinId := Handle .pin

abbrev NetId := Handle .net

/-- A handle is shown as the word of its kind, a number sign and its position: `block#3`. -/
def Handle.text {k : Kind} (h : Handle k) : String :=
  k.word ++ "#" ++ toString h.index

/-- Handles of a kind are told apart by their texts. -/
theorem Handle.text_injective {k : Kind} : ∀ {h g : Handle k}, h.text = g.text → h = g
  | ⟨i⟩, ⟨j⟩, heq => by
    have hdigits : Nat.toDigits 10 i = Nat.toDigits 10 j := by
      simpa [text, Nat.repr_eq_ofList_toDigits] using congrArg String.toList heq
    have hij := congrArg (Nat.ofDigitChars 10 · 0) hdigits
    simp only [Nat.ofDigitChars_ten_toDigits] at hij
    rw [hij]

instance {k : Kind} : ToString (Handle k) := ⟨Handle.text⟩

instance {k : Kind} : Ord (Handle k) := ⟨compareOn Handle.index⟩

instance {k : Kind} : Std.TransOrd (Handle k) :=
  inferInstanceAs (Std.TransCmp (compareOn (Handle.index (k := k))))

instance {k : Kind} : Std.LawfulEqOrd (Handle k) where
  eq_of_compare {a b} h := by
    cases a; cases b
    simpa [compare, compareOn] using Nat.compare_eq_eq.1 h

instance {k : Kind} : LawfulBEq (Handle k) := inferInstance

/-- The position of a name in the string table of one netlist. -/
structure StringId where
  index : Nat
  deriving DecidableEq, Repr

/-- A name's handle is shown as `str#3`. -/
def StringId.text (s : StringId) : String :=
  "str#" ++ toString s.index

instance : ToString StringId := ⟨StringId.text⟩

instance : Ord StringId := ⟨compareOn StringId.index⟩

instance : Std.TransOrd StringId :=
  inferInstanceAs (Std.TransCmp (compareOn StringId.index))

instance : Std.LawfulEqOrd StringId where
  eq_of_compare {a b} h := by
    cases a; cases b
    simpa [compare, compareOn] using Nat.compare_eq_eq.1 h

end MappedNetlist
