import MappedNetlist.Netlist.Basic

/-!
# Queries

What a netlist tells about its entities. Looking a key up finds a handle or nothing. Asking for an
attribute of an entity is a fault if its handle is not live. The attributes are read from the
columns and the keys from the index, so the two ways to an entity meet only where the netlist
keeps both in step.
-/

namespace MappedNetlist.Netlist

/-- A handle that an attribute is asked of must be live. -/
def require (n : Netlist) {k : Kind} (h : Handle k) : Except Fault Unit :=
  if n.IsLive h then .ok () else .error (.deadHandle k h)

theorem require_eq_ok_iff {n : Netlist} {k : Kind} {h : Handle k} :
    n.require h = .ok () ↔ n.IsLive h := by
  by_cases hl : n.IsLive h <;> simp [require, hl]

/-! ## Names -/

/-- The text of an interned name. -/
def string (n : Netlist) (id : StringId) : Except Fault String :=
  match n.strings.text? id with
  | some s => .ok s
  | none => .error (.unknownString id)

/-- The handle of a text, if it is interned. -/
def string? (n : Netlist) (text : String) : Option StringId := n.strings.find? text

/-! ## Looking up keys -/

/-- The block of a name. -/
def block? (n : Netlist) (name : String) : Option BlockId := do
  n.index.blocks[← n.string? name]?

/-- The net of a name. -/
def net? (n : Netlist) (name : String) : Option NetId := do
  n.index.nets[← n.string? name]?

/-- What the index holds for a block and a port name, whether the block is live or not. -/
def indexedPort? (n : Netlist) (block : BlockId) (name : String) : Option PortId := do
  n.index.ports[PortKey.mk block (← n.string? name)]?

/-- The port of a name on a live block. -/
def port? (n : Netlist) (block : BlockId) (name : String) : Except Fault (Option PortId) := do
  n.require block
  return n.indexedPort? block name

/-- Whether a port is live and has a bit. -/
def hasBit (n : Netlist) (port : PortId) (bit : Nat) : Except Fault Bool :=
  if n.IsLive port then do return bit < (← n.ports.widths.read port.index)
  else .ok false

/-- The pin at a bit that a live port has. -/
def pin? (n : Netlist) (port : PortId) (bit : Nat) : Except Fault (Option PinId) := do
  if ← n.hasBit port bit then return n.index.pins[BitKey.mk port bit]?
  else throw (.invalidPortBit port bit)

/-! ## Blocks -/

def blockName (n : Netlist) (block : BlockId) : Except Fault String := do
  n.require block
  n.string (← n.blocks.names.read block.index)

def blockModel (n : Netlist) (block : BlockId) : Except Fault Model := do
  n.require block
  n.blocks.models.read block.index

/-- The category of a block is that of its model. -/
def blockCategory (n : Netlist) (block : BlockId) : Except Fault Category := do
  return (← n.blockModel block).category

def blockTable (n : Netlist) (block : BlockId) : Except Fault TruthTable := do
  n.require block
  n.blocks.tables.read block.index

/-- The ports that a block lists under a class, in the order of their creation. Removed ports stay
listed until the netlist is compacted. -/
def portsOfClass (n : Netlist) (c : PortClass) (block : BlockId) : Except Fault (List PortId) := do
  n.require block
  (n.blocks.listed c).read block.index

/-- All ports that a block lists: its inputs, then its outputs, then its clocks. -/
def portsOf (n : Netlist) (block : BlockId) : Except Fault (List PortId) := do
  n.require block
  let inputs ← n.blocks.inputs.read block.index
  let outputs ← n.blocks.outputs.read block.index
  let clocks ← n.blocks.clocks.read block.index
  return inputs ++ outputs ++ clocks

/-! ## Ports -/

def portName (n : Netlist) (port : PortId) : Except Fault String := do
  n.require port
  n.string (← n.ports.names.read port.index)

def portWidth (n : Netlist) (port : PortId) : Except Fault Nat := do
  n.require port
  n.ports.widths.read port.index

def portBlock (n : Netlist) (port : PortId) : Except Fault BlockId := do
  n.require port
  n.ports.owners.read port.index

def portClass (n : Netlist) (port : PortId) : Except Fault PortClass := do
  n.require port
  n.ports.classes.read port.index

/-- The pins of a port in the order of their bits. -/
def portPins (n : Netlist) (port : PortId) : Except Fault (List PinId) := do
  n.require port
  return (← n.ports.pins.read port.index).filterMap id

/-- The pin at a bit of a port, if there is one. -/
def portPin (n : Netlist) (port : PortId) (bit : Nat) : Except Fault (Option PinId) := do
  let width ← n.portWidth port
  if bit < width then readSlot (← n.ports.pins.read port.index) bit
  else throw (.bitOutOfRange port bit width)

/-- The net of the pin at a bit of a port, if there is a pin and it is on a net. -/
def portNet (n : Netlist) (port : PortId) (bit : Nat) : Except Fault (Option NetId) := do
  match ← n.portPin port bit with
  | some pin => n.pins.nets.read pin.index
  | none => return none

/-! ## Pins -/

def pinNet (n : Netlist) (pin : PinId) : Except Fault (Option NetId) := do
  n.require pin
  n.pins.nets.read pin.index

def pinRole (n : Netlist) (pin : PinId) : Except Fault PinRole := do
  n.require pin
  n.pins.roles.read pin.index

def pinPort (n : Netlist) (pin : PinId) : Except Fault PortId := do
  n.require pin
  n.pins.ports.read pin.index

def pinBit (n : Netlist) (pin : PinId) : Except Fault Nat := do
  n.require pin
  n.pins.bits.read pin.index

/-- The block that owns the port of a pin. -/
def pinBlock (n : Netlist) (pin : PinId) : Except Fault BlockId := do
  n.ports.owners.read (← n.pinPort pin).index

/-! ## Nets -/

def netName (n : Netlist) (net : NetId) : Except Fault String := do
  n.require net
  n.string (← n.nets.names.read net.index)

/-- The slots of a net: first that of its driver, then those of its sinks. Slots that a pin has
left stay, empty, until the netlist is compacted. -/
def netSlots (n : Netlist) (net : NetId) : Except Fault (List (Option PinId)) := do
  n.require net
  n.nets.pins.read net.index

/-- The pin that drives a net, if there is one. -/
def netDriver (n : Netlist) (net : NetId) : Except Fault (Option PinId) := do
  return (← n.netSlots net).head?.join

/-- The pins that a net drives, in the order in which they were connected. -/
def netSinks (n : Netlist) (net : NetId) : Except Fault (List PinId) := do
  return (← n.netSlots net).tail.filterMap id

/-- The block of the pin that drives a net, if there is one. -/
def netDriverBlock (n : Netlist) (net : NetId) : Except Fault (Option BlockId) := do
  match ← n.netDriver net with
  | some pin => return some (← n.pinBlock pin)
  | none => return none

end MappedNetlist.Netlist
