import MappedNetlist.Netlist.Create

/-!
# Removal

Removing an entity empties its slot and takes it out of the index; everything else that is kept of
it stays until the netlist is compacted. A port goes with its pins and a block with its live
ports, the children first. A pin leaves its bit and its net, whose slot stays, empty. A removed
net leaves its pins where they are, on no net.

The `drop` operations do the work for a handle that is known to be live; each of them reports one
removal of its own kind after those of the children. The `remove` operations check the handle.
-/

namespace MappedNetlist

/-- Does a step for each entry of a list in order, and collects the events. -/
def inTurn {α : Type} (step : Netlist → α → Except Fault (Netlist × List Event)) :
    Netlist → List α → Except Fault (Netlist × List Event)
  | n, [] => .ok (n, [])
  | n, a :: as => do
    let (n, now) ← step n a
    let (n, later) ← inTurn step n as
    return (n, now ++ later)

theorem inTurn_cons {α : Type} (step : Netlist → α → Except Fault (Netlist × List Event))
    (n : Netlist) (a : α) (as : List α) :
    inTurn step n (a :: as) = (do
      let (n, now) ← step n a
      let (n, later) ← inTurn step n as
      return (n, now ++ later)) := rfl

/-- The slots of a net with the first slot that holds `pin` emptied. -/
def vacate (pin : PinId) : List (Option PinId) → List (Option PinId)
  | [] => []
  | slot :: slots => if slot = some pin then none :: slots else slot :: vacate pin slots

namespace Netlist

/-- Removes a pin from its bit and from its net. -/
def dropPin (n : Netlist) (pin : PinId) : Except Fault (Netlist × List Event) := do
  let netPins ← match ← n.pins.nets.read pin.index with
    | none => pure n.nets.pins
    | some net => n.nets.pins.alter net.index (vacate pin)
  let pinNets ← n.pins.nets.write pin.index none
  let port ← n.pins.ports.read pin.index
  let bit ← n.pins.bits.read pin.index
  let row ← writeSlot (← n.ports.pins.read port.index) bit none
  let portPins ← n.ports.pins.write port.index row
  let slots ← n.pins.slots.write pin.index none
  return ({ n with
    dirty := true
    ports := { n.ports with pins := portPins }
    pins := { n.pins with slots, nets := pinNets }
    nets := { n.nets with pins := netPins }
    index := { n.index with pins := n.index.pins.erase ⟨port, bit⟩ } }, [.removed .pin pin])

/-- Removes a port after its pins. Its block goes on listing it. -/
def dropPort (n : Netlist) (port : PortId) : Except Fault (Netlist × List Event) := do
  let row ← n.ports.pins.read port.index
  let (n, events) ← inTurn dropPin n (row.filterMap id)
  let owner ← n.ports.owners.read port.index
  let name ← n.ports.names.read port.index
  let slots ← n.ports.slots.write port.index none
  return ({ n with
    dirty := true
    ports := { n.ports with slots }
    index := { n.index with ports := n.index.ports.erase ⟨owner, name⟩ } },
    events ++ [.removed .port port])

/-- Removes a port unless that was done before. -/
def dropLivePort (n : Netlist) (port : PortId) : Except Fault (Netlist × List Event) :=
  if n.IsLive port then n.dropPort port else .ok (n, [])

/-- Removes a block after its live ports. -/
def dropBlock (n : Netlist) (block : BlockId) : Except Fault (Netlist × List Event) := do
  let (n, events) ← inTurn dropLivePort n (← n.portsOf block)
  let name ← n.blocks.names.read block.index
  let slots ← n.blocks.slots.write block.index none
  return ({ n with
    dirty := true
    blocks := { n.blocks with slots }
    index := { n.index with blocks := n.index.blocks.erase name } },
    events ++ [.removed .block block])

/-- Removes a net from its pins. -/
def dropNet (n : Netlist) (net : NetId) : Except Fault (Netlist × List Event) := do
  let row ← n.nets.pins.read net.index
  let pinNets ← assignNet none n.pins.nets (row.filterMap id)
  let netPins ← n.nets.pins.write net.index []
  let name ← n.nets.names.read net.index
  let slots ← n.nets.slots.write net.index none
  return ({ n with
    dirty := true
    pins := { n.pins with nets := pinNets }
    nets := { n.nets with slots, pins := netPins }
    index := { n.index with nets := n.index.nets.erase name } }, [.removed .net net])

def removeBlock (n : Netlist) (block : BlockId) : Except Failure (Netlist × List Event) := do
  demand (n.IsLive block) (.invalidHandle .block block)
  n.dropBlock block

def removePin (n : Netlist) (pin : PinId) : Except Failure (Netlist × List Event) := do
  demand (n.IsLive pin) (.invalidHandle .pin pin)
  n.dropPin pin

def removeNet (n : Netlist) (net : NetId) : Except Failure (Netlist × List Event) := do
  demand (n.IsLive net) (.invalidHandle .net net)
  n.dropNet net

/-- Takes a pin off a net. Both stay live. -/
def removeNetPin (n : Netlist) (net : NetId) (pin : PinId) : Except Failure Netlist := do
  demand (n.IsLive net) (.invalidHandle .net net)
  demand (n.IsLive pin) (.invalidHandle .pin pin)
  demand ((← n.pins.nets.read pin.index) = some net) (.pinNotOnNet pin net)
  let netPins ← n.nets.pins.alter net.index (vacate pin)
  let pinNets ← n.pins.nets.write pin.index none
  return { n with
    dirty := true
    pins := { n.pins with nets := pinNets }
    nets := { n.nets with pins := netPins } }

end Netlist

end MappedNetlist
