import MappedNetlist.Netlist.Basic

/-!
# Damage

Verification exists to find damage, so damage has a place of its own: any single column of a
netlist, and any single lookup of its index, can be changed without regard to the others. A column
is named by an `Attribute`, and `Attribute.Entry` says what its entries are.
-/

namespace MappedNetlist

/-- The columns of a netlist. -/
inductive Attribute
  | blockSlot
  | blockName
  | blockModel
  | blockTable
  | blockPorts (c : PortClass)
  | portSlot
  | portName
  | portOwner
  | portWidth
  | portClass
  | portPins
  | pinSlot
  | pinPort
  | pinBit
  | pinNet
  | pinRole
  | netSlot
  | netName
  | netPins
  deriving DecidableEq, Repr

/-- What stands at each position of a column. -/
def Attribute.Entry : Attribute → Type
  | blockSlot => Option BlockId
  | blockName => StringId
  | blockModel => Model
  | blockTable => TruthTable
  | blockPorts _ => List PortId
  | portSlot => Option PortId
  | portName => StringId
  | portOwner => BlockId
  | portWidth => Nat
  | portClass => PortClass
  | portPins => List (Option PinId)
  | pinSlot => Option PinId
  | pinPort => PortId
  | pinBit => Nat
  | pinNet => Option NetId
  | pinRole => PinRole
  | netSlot => Option NetId
  | netName => StringId
  | netPins => List (Option PinId)

namespace Netlist

/-- The column of an attribute. -/
def column (n : Netlist) : (a : Attribute) → Column a.Entry
  | .blockSlot => n.blocks.slots
  | .blockName => n.blocks.names
  | .blockModel => n.blocks.models
  | .blockTable => n.blocks.tables
  | .blockPorts c => n.blocks.listed c
  | .portSlot => n.ports.slots
  | .portName => n.ports.names
  | .portOwner => n.ports.owners
  | .portWidth => n.ports.widths
  | .portClass => n.ports.classes
  | .portPins => n.ports.pins
  | .pinSlot => n.pins.slots
  | .pinPort => n.pins.ports
  | .pinBit => n.pins.bits
  | .pinNet => n.pins.nets
  | .pinRole => n.pins.roles
  | .netSlot => n.nets.slots
  | .netName => n.nets.names
  | .netPins => n.nets.pins

/-- The netlist with another column for an attribute, whatever the other columns hold. -/
def setColumn (n : Netlist) : (a : Attribute) → Column a.Entry → Netlist
  | .blockSlot, slots => { n with blocks := { n.blocks with slots } }
  | .blockName, names => { n with blocks := { n.blocks with names } }
  | .blockModel, models => { n with blocks := { n.blocks with models } }
  | .blockTable, tables => { n with blocks := { n.blocks with tables } }
  | .blockPorts c, lists => { n with blocks := n.blocks.setListed lists c }
  | .portSlot, slots => { n with ports := { n.ports with slots } }
  | .portName, names => { n with ports := { n.ports with names } }
  | .portOwner, owners => { n with ports := { n.ports with owners } }
  | .portWidth, widths => { n with ports := { n.ports with widths } }
  | .portClass, classes => { n with ports := { n.ports with classes } }
  | .portPins, pins => { n with ports := { n.ports with pins } }
  | .pinSlot, slots => { n with pins := { n.pins with slots } }
  | .pinPort, ports => { n with pins := { n.pins with ports } }
  | .pinBit, bits => { n with pins := { n.pins with bits } }
  | .pinNet, nets => { n with pins := { n.pins with nets } }
  | .pinRole, roles => { n with pins := { n.pins with roles } }
  | .netSlot, slots => { n with nets := { n.nets with slots } }
  | .netName, names => { n with nets := { n.nets with names } }
  | .netPins, pins => { n with nets := { n.nets with pins } }

@[simp] theorem column_setColumn (n : Netlist) (a : Attribute) (c : Column a.Entry) :
    (n.setColumn a c).column a = c := by
  cases a with
  | blockPorts cls => exact Blocks.listed_setListed_self n.blocks c cls
  | _ => rfl

end Netlist

/-- One change to a column: another entry at a position, one entry more, or one less. -/
inductive ColumnChange (α : Type)
  | set (i : Nat) (a : α)
  | push (a : α)
  | pop

/-- The changed column. Setting past the end and popping an empty column change nothing. -/
def ColumnChange.apply {α : Type} : ColumnChange α → Column α → Column α
  | set i a, c => c.setIfInBounds i a
  | push a, c => c.push a
  | pop, c => c.pop

/-- One change to a lookup: all entries gone, one gone, or one put in. -/
inductive LookupChange (κ : Type) (k : Kind)
  | clear
  | remove (key : κ)
  | insert (key : κ) (h : Handle k)

def LookupChange.apply {κ : Type} [Ord κ] [Std.TransOrd κ] {k : Kind} :
    LookupChange κ k → Lookup κ k → Lookup κ k
  | clear, _ => ∅
  | remove key, m => m.erase key
  | insert key h, m => m.insert key h

/-- Damage to one column or to one lookup. -/
inductive Damage
  | column (a : Attribute) (change : ColumnChange a.Entry)
  | blockLookup (change : LookupChange StringId .block)
  | portLookup (change : LookupChange PortKey .port)
  | pinLookup (change : LookupChange BitKey .pin)
  | netLookup (change : LookupChange StringId .net)

/-- The damaged netlist. -/
def Netlist.damage (n : Netlist) : Damage → Netlist
  | .column a change => n.setColumn a (change.apply (n.column a))
  | .blockLookup change => { n with index.blocks := change.apply n.index.blocks }
  | .portLookup change => { n with index.ports := change.apply n.index.ports }
  | .pinLookup change => { n with index.pins := change.apply n.index.pins }
  | .netLookup change => { n with index.nets := change.apply n.index.nets }

end MappedNetlist
