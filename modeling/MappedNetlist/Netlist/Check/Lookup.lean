import MappedNetlist.Netlist.Basic
import MappedNetlist.Netlist.Check.Basic

/-!
# Checking the index

The index has to find every live entity under its key, and to hold nothing else: an entry is stale
if its entity is not live or has another key.
-/

namespace MappedNetlist.Netlist

/-- Puts a position among positions in ascending order. -/
def insertAscending (i : Nat) : List Nat → List Nat
  | [] => [i]
  | j :: js => if i ≤ j then i :: j :: js else j :: insertAscending i js

/-- Positions in ascending order. -/
def ascending (is : List Nat) : List Nat := is.foldr insertAscending []

/-- A fault of the index, about the entity at a position. -/
def badEntry (k : Kind) (i : Nat) (message : String) : Violation :=
  { check := .lookup, subject := .entity k, index := some i, message }

section Lookup

variable {κ : Type} [Ord κ] [Std.TransOrd κ] [DecidableEq κ] {k : Kind}

/-- A live entity is found under its key. -/
def checkFound (lookup : Lookup κ k) (keyOf : Handle k → Except Fault κ) (key : String)
    (h : Handle k) : Except Fault (List Violation) := do
  return expect (lookup[← keyOf h]? = some h) (badEntry k h.index ("not found by " ++ key))

/-- The position of the entity that an entry holds, unless it is a live entity under its key. -/
def stalePosition (n : Netlist) (keyOf : Handle k → Except Fault κ) (entry : κ × Handle k) :
    Except Fault (List Nat) := do
  if n.IsLive entry.2 then
    if (← keyOf entry.2) = entry.1 then return [] else return [entry.2.index]
  else return [entry.2.index]

/-- Every live entity is found under its key, and every entry holds a live entity under its key.
The entries at fault are reported in the order of the entities they hold. -/
def checkLookup (n : Netlist) (lookup : Lookup κ k) (keyOf : Handle k → Except Fault κ)
    (key entry : String) : Except Fault (List Violation) := do
  let missing ← collect (checkFound lookup keyOf key) (n.live k)
  let stale ← collect (n.stalePosition keyOf) lookup.toList
  return missing ++ (ascending stale).map (badEntry k · ("stale " ++ entry ++ " entry"))

end Lookup

/-- The index holds the live entities under their keys and nothing else. -/
def checkIndex (n : Netlist) : Except Fault (List Violation) := do
  let blocks ← n.checkLookup n.index.blocks (fun h => n.blocks.names.read h.index) "name" "name"
  let ports ← n.checkLookup n.index.ports
    (fun h => do return ⟨← n.ports.owners.read h.index, ← n.ports.names.read h.index⟩)
    "block and name" "block and name"
  let pins ← n.checkLookup n.index.pins
    (fun h => do return ⟨← n.pins.ports.read h.index, ← n.pins.bits.read h.index⟩)
    "port bit" "port bit"
  let nets ← n.checkLookup n.index.nets (fun h => n.nets.names.read h.index) "name" "name"
  return blocks ++ ports ++ pins ++ nets

end MappedNetlist.Netlist
