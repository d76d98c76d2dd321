import MappedNetlist.Handle
import Std.Data.ExtTreeMap

/-!
# The index

Entities are found by their keys: a block and a net by their names, a port by its block and name,
a pin by its port and bit. The index has one map for each kind. The maps are extensional: two of
them that hold the same entries are equal, whatever was inserted or erased on the way.
-/

namespace MappedNetlist

/-- What identifies a port: its block and its name. -/
structure PortKey where
  block : BlockId
  name : StringId
  deriving DecidableEq, Repr

/-- What identifies a pin: its port and its bit. -/
structure BitKey where
  port : PortId
  bit : Nat
  deriving DecidableEq, Repr

namespace PortKey

instance : Ord PortKey := ⟨compareLex (compareOn block) (compareOn name)⟩

instance : Std.TransOrd PortKey :=
  inferInstanceAs (Std.TransCmp (compareLex (compareOn block) (compareOn name)))

instance : Std.LawfulEqOrd PortKey where
  eq_of_compare {a b} h := by
    obtain ⟨hb, hn⟩ := Ordering.then_eq_eq.1 h
    cases a; cases b
    exact (PortKey.mk.injEq ..).mpr
      ⟨Std.LawfulEqOrd.eq_of_compare hb, Std.LawfulEqOrd.eq_of_compare hn⟩

end PortKey

namespace BitKey

instance : Ord BitKey := ⟨compareLex (compareOn port) (compareOn bit)⟩

instance : Std.TransOrd BitKey :=
  inferInstanceAs (Std.TransCmp (compareLex (compareOn port) (compareOn bit)))

instance : Std.LawfulEqOrd BitKey where
  eq_of_compare {a b} h := by
    obtain ⟨hp, hb⟩ := Ordering.then_eq_eq.1 h
    cases a; cases b
    exact (BitKey.mk.injEq ..).mpr
      ⟨Std.LawfulEqOrd.eq_of_compare hp, Std.LawfulEqOrd.eq_of_compare hb⟩

end BitKey

/-- A map from keys to handles. -/
abbrev Lookup (κ : Type) [Ord κ] (k : Kind) := Std.ExtTreeMap κ (Handle k)

/-- The four maps from keys to live entities. -/
@[ext] structure Index where
  blocks : Lookup StringId .block := ∅
  ports : Lookup PortKey .port := ∅
  pins : Lookup BitKey .pin := ∅
  nets : Lookup StringId .net := ∅

/-- The map in which the entry at each position of a list is the key of that position. Of two
positions with the same key the later one is found. -/
def Lookup.ofKeys {κ : Type} [Ord κ] [Std.TransOrd κ] {k : Kind} (keys : List κ) : Lookup κ k :=
  keys.zipIdx.foldl (fun m (key, i) => m.insert key ⟨i⟩) ∅

/-- Two lookups are the same if every key finds the same in both. -/
theorem Lookup.ext {κ : Type} [Ord κ] [Std.TransOrd κ] [Std.LawfulEqOrd κ] {k : Kind}
    {m n : Lookup κ k} (h : ∀ key : κ, m[key]? = n[key]?) : m = n :=
  Std.ExtTreeMap.ext_getElem? h

end MappedNetlist
