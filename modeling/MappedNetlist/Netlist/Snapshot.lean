import MappedNetlist.Netlist.Query

/-!
# Snapshots

A snapshot is everything that queries tell about the live entities of a netlist, together with its
string table, in the order of the handles.
-/

namespace MappedNetlist

/-- What queries tell about a block. -/
structure BlockView where
  id : BlockId
  name : String
  model : String
  category : Category
  table : TruthTable
  inputs : List PortId
  outputs : List PortId
  clocks : List PortId

/-- A bit of a port that has a pin, with the net of that pin. -/
structure BitView where
  bit : Nat
  pin : PinId
  net : Option NetId

/-- What queries tell about a port. -/
structure PortView where
  id : PortId
  name : String
  block : BlockId
  width : Nat
  portClass : PortClass
  bits : List BitView

/-- What queries tell about a pin. -/
structure PinView where
  id : PinId
  port : PortId
  bit : Nat
  net : Option NetId
  role : PinRole
  block : BlockId

/-- What queries tell about a net. -/
structure NetView where
  id : NetId
  name : String
  slots : List (Option PinId)

/-- What queries tell about a netlist. -/
structure Snapshot where
  name : String
  dirty : Bool
  strings : List String
  blocks : List BlockView
  ports : List PortView
  pins : List PinView
  nets : List NetView

namespace Netlist

def blockView (n : Netlist) (id : BlockId) : Except Fault BlockView := do
  return {
    id
    name := ← n.blockName id
    model := (← n.blockModel id).name
    category := ← n.blockCategory id
    table := ← n.blockTable id
    inputs := ← n.portsOfClass .input id
    outputs := ← n.portsOfClass .output id
    clocks := ← n.portsOfClass .clock id }

/-- The view of a bit, if it has a pin. -/
def bitView (n : Netlist) (port : PortId) (bit : Nat) : Except Fault (Option BitView) := do
  match ← n.portPin port bit with
  | some pin => return some { bit, pin, net := ← n.portNet port bit }
  | none => return none

def portView (n : Netlist) (id : PortId) : Except Fault PortView := do
  let width ← n.portWidth id
  let bits ← (List.range width).mapM (n.bitView id)
  return {
    id
    name := ← n.portName id
    block := ← n.portBlock id
    width
    portClass := ← n.portClass id
    bits := bits.reduceOption }

def pinView (n : Netlist) (id : PinId) : Except Fault PinView := do
  return {
    id
    port := ← n.pinPort id
    bit := ← n.pinBit id
    net := ← n.pinNet id
    role := ← n.pinRole id
    block := ← n.pinBlock id }

def netView (n : Netlist) (id : NetId) : Except Fault NetView := do
  return { id, name := ← n.netName id, slots := ← n.netSlots id }

/-- Everything that queries tell about the live entities. -/
def snapshot (n : Netlist) : Except Fault Snapshot := do
  return {
    name := n.name
    dirty := n.dirty
    strings := n.strings.texts
    blocks := ← (n.live .block).mapM n.blockView
    ports := ← (n.live .port).mapM n.portView
    pins := ← (n.live .pin).mapM n.pinView
    nets := ← (n.live .net).mapM n.netView }

end Netlist

end MappedNetlist
