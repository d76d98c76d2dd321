import MappedNetlist.Model
import MappedNetlist.Netlist.Column
import MappedNetlist.Netlist.Event
import MappedNetlist.Netlist.Index
import MappedNetlist.StringTable
import MappedNetlist.TruthTable

/-!
# Netlists

A netlist holds blocks, ports, pins and nets. A block is an instance of a model; a port is a group
of bits of a block; a pin stands at one bit of a port and may be on a net; a net has a first slot
for the pin that drives it, and further slots for the pins that it drives.

Each kind is a set of columns, and entities refer to each other by handles. A removed entity keeps
its position until the netlist is compacted: only its slot becomes empty, and `IsLive` tells such
handles apart. `dirty` says that something was removed since the last compaction.
-/

namespace MappedNetlist

/-- Whether a pin drives its net or is driven by it. -/
inductive PinRole
  | driver
  | sink
  deriving DecidableEq, Repr

/-- The columns of blocks. The three lists of a block hold its ports by class. -/
@[ext] structure Blocks where
  slots : Slots .block := #[]
  names : Column StringId := #[]
  models : Column Model := #[]
  tables : Column TruthTable := #[]
  inputs : Column (List PortId) := #[]
  outputs : Column (List PortId) := #[]
  clocks : Column (List PortId) := #[]

/-- The columns of ports. The pins of a port are listed by bit. -/
@[ext] structure Ports where
  slots : Slots .port := #[]
  names : Column StringId := #[]
  owners : Column BlockId := #[]
  widths : Column Nat := #[]
  classes : Column PortClass := #[]
  pins : Column (List (Option PinId)) := #[]

/-- The columns of pins. -/
@[ext] structure Pins where
  slots : Slots .pin := #[]
  ports : Column PortId := #[]
  bits : Column Nat := #[]
  nets : Column (Option NetId) := #[]
  roles : Column PinRole := #[]

/-- The columns of nets. The first slot of a net is that of its driver. -/
@[ext] structure Nets where
  slots : Slots .net := #[]
  names : Column StringId := #[]
  pins : Column (List (Option PinId)) := #[]

/-- A netlist: its own name, its entities, the names of those, and the index by key. -/
@[ext] structure Netlist where
  name : String := ""
  dirty : Bool := false
  blocks : Blocks := {}
  ports : Ports := {}
  pins : Pins := {}
  nets : Nets := {}
  strings : StringTable := .empty
  index : Index := {}

namespace Blocks

/-- The column that lists the ports of a class. -/
def listed (b : Blocks) : PortClass → Column (List PortId)
  | .input => b.inputs
  | .output => b.outputs
  | .clock => b.clocks

/-- The blocks with another column for the ports of a class. -/
def setListed (b : Blocks) (lists : Column (List PortId)) : PortClass → Blocks
  | .input => { b with inputs := lists }
  | .output => { b with outputs := lists }
  | .clock => { b with clocks := lists }

@[simp] theorem listed_setListed_self (b : Blocks) (lists : Column (List PortId)) (c : PortClass) :
    (b.setListed lists c).listed c = lists := by
  cases c <;> rfl

theorem listed_setListed_of_ne (b : Blocks) (lists : Column (List PortId)) {c d : PortClass}
    (h : c ≠ d) : (b.setListed lists c).listed d = b.listed d := by
  cases c <;> cases d <;> simp_all [setListed, listed]

@[simp] theorem slots_setListed (b : Blocks) (lists : Column (List PortId)) (c : PortClass) :
    (b.setListed lists c).slots = b.slots := by
  cases c <;> rfl

end Blocks

namespace Netlist

/-- The netlist of a name, without entities. -/
def new (name : String) : Netlist := { name }

/-- The slots of the entities of a kind. -/
def slots (n : Netlist) : (k : Kind) → Slots k
  | .block => n.blocks.slots
  | .port => n.ports.slots
  | .pin => n.pins.slots
  | .net => n.nets.slots

/-- A handle is live if its entity was created and not removed since. -/
def IsLive (n : Netlist) {k : Kind} (h : Handle k) : Prop := (n.slots k).IsLive h

instance (n : Netlist) {k : Kind} (h : Handle k) : Decidable (n.IsLive h) :=
  inferInstanceAs (Decidable ((n.slots k).IsLive h))

/-- The live handles of a kind, in order. -/
def live (n : Netlist) (k : Kind) : List (Handle k) := (n.slots k).live

/-- The number of handles issued since the last compaction, by kind. -/
def issued (n : Netlist) : Tally := .of fun k => (n.slots k).size

/-- The number of live entities, by kind. -/
def living (n : Netlist) : Tally := .of fun k => (n.live k).length

end Netlist

end MappedNetlist
