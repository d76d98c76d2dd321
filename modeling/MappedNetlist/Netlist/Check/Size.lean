import MappedNetlist.Netlist.Basic
import MappedNetlist.Netlist.Check.Basic

/-!
# Checking sizes

The columns of a kind belong together only if all of them are as long as the slots, and a slot is
either empty or holds the handle of its own position.
-/

namespace MappedNetlist

/-- Compares the length of a column with that of the slots of its kind. -/
def checkSize (k : Kind) (slots : Nat) (column : String × Nat) : List Violation :=
  expect (column.2 = slots)
    { check := .size
      subject := .entity k
      index := none
      message := toString column.2 ++ " " ++ column.1 ++ " for " ++ toString slots ++ " " ++
        k.word ++ "s" }

/-- The first position at which a slot holds the handle of another position. -/
def Slots.misplaced? {k : Kind} (s : Slots k) : Option Nat :=
  s.toList.zipIdx.findSome? fun (slot, i) =>
    match slot with
    | some h => if h.index = i then none else some i
    | none => none

/-- Looks for a handle that does not stand at its own position. -/
def checkPositions {k : Kind} (s : Slots k) : List Violation :=
  match s.misplaced? with
  | some i =>
    [{ check := .size
       subject := .entity k
       index := some i
       message := "handle does not match its position" }]
  | none => []

namespace Blocks

/-- The names and lengths of the columns beside the slots. -/
def sizes (b : Blocks) : List (String × Nat) :=
  [("names", b.names.size), ("models", b.models.size), ("truth tables", b.tables.size),
    ("input ports", b.inputs.size), ("output ports", b.outputs.size),
    ("clock ports", b.clocks.size)]

end Blocks

namespace Ports

/-- The names and lengths of the columns beside the slots. -/
def sizes (p : Ports) : List (String × Nat) :=
  [("names", p.names.size), ("blocks", p.owners.size), ("widths", p.widths.size),
    ("classes", p.classes.size), ("pin lists", p.pins.size)]

end Ports

namespace Pins

/-- The names and lengths of the columns beside the slots. -/
def sizes (p : Pins) : List (String × Nat) :=
  [("ports", p.ports.size), ("bits", p.bits.size), ("nets", p.nets.size), ("roles", p.roles.size)]

end Pins

namespace Nets

/-- The names and lengths of the columns beside the slots. -/
def sizes (p : Nets) : List (String × Nat) :=
  [("names", p.names.size), ("pin lists", p.pins.size)]

end Nets

namespace Netlist

/-- The columns of each kind have the length of its slots, and handles stand at their positions. -/
def checkSizes (n : Netlist) : List Violation :=
  n.blocks.sizes.flatMap (checkSize .block n.blocks.slots.size) ++
  n.ports.sizes.flatMap (checkSize .port n.ports.slots.size) ++
  n.pins.sizes.flatMap (checkSize .pin n.pins.slots.size) ++
  n.nets.sizes.flatMap (checkSize .net n.nets.slots.size) ++
  checkPositions n.blocks.slots ++ checkPositions n.ports.slots ++
  checkPositions n.pins.slots ++ checkPositions n.nets.slots

end Netlist

end MappedNetlist
