import MappedNetlist.Netlist.Basic
import MappedNetlist.Netlist.Check.Basic

/-!
# Checking references

Blocks and ports, ports and pins, and pins and nets refer to each other. The check goes through the
live entities kind by kind and asks of every reference that what it leads to is live and refers
back. Handles of removed ports may stay in the lists of blocks. Positions are taken to be good in
every column, which the check of sizes has to make sure of before.
-/

namespace MappedNetlist.Netlist

/-- A broken reference of an entity. -/
def badReference {k : Kind} (h : Handle k) (message : String) : Violation :=
  { check := .reference, subject := .entity k, index := some h.index, message }

/-- A listed port is issued, and if it is live, it belongs to the block and has the class. -/
def checkListedPort (n : Netlist) (block : BlockId) (c : PortClass) (port : PortId) :
    Except Fault (List Violation) :=
  if n.IsLive port then do
    let owner ← n.ports.owners.read port.index
    let portClass ← n.ports.classes.read port.index
    return expect (owner = block)
        (badReference block ("lists " ++ port.text ++ " owned by " ++ owner.text)) ++
      expect (portClass = c)
        (badReference block ("lists " ++ port.text ++ " under the wrong class"))
  else
    return expect (port.index < n.ports.slots.size)
      (badReference block ("lists unknown " ++ port.text))

/-- What a block lists under a class. -/
def checkListed (n : Netlist) (block : BlockId) (c : PortClass) :
    Except Fault (List Violation) := do
  collect (n.checkListedPort block c) (← (n.blocks.listed c).read block.index)

def checkBlock (n : Netlist) (block : BlockId) : Except Fault (List Violation) :=
  collect (n.checkListed block) [.input, .output, .clock]

/-- The block of a port is live and lists the port under its class. -/
def checkOwner (n : Netlist) (port : PortId) : Except Fault (List Violation) := do
  let block ← n.ports.owners.read port.index
  if n.IsLive block then
    let c ← n.ports.classes.read port.index
    let listed ← (n.blocks.listed c).read block.index
    return expect (port ∈ listed)
      (badReference port ("missing from the port list of " ++ block.text))
  else
    return [badReference port ("owned by dead " ++ block.text)]

/-- The pin at a bit of a port is live and says that it stands there. -/
def checkBit (n : Netlist) (port : PortId) (slot : Option PinId × Nat) :
    Except Fault (List Violation) :=
  match slot with
  | (none, _) => return []
  | (some pin, bit) =>
    let place := "bit " ++ toString bit ++ " holds "
    if n.IsLive pin then do
      let pinPort ← n.pins.ports.read pin.index
      let pinBit ← n.pins.bits.read pin.index
      return expect (pinPort = port ∧ pinBit = bit)
        (badReference port (place ++ pin.text ++ " of another port bit"))
    else return [badReference port (place ++ "dead " ++ pin.text)]

def checkPort (n : Netlist) (port : PortId) : Except Fault (List Violation) := do
  let owner ← n.checkOwner port
  let width ← n.ports.widths.read port.index
  let row ← n.ports.pins.read port.index
  let bits ← collect (n.checkBit port) row.zipIdx
  return owner ++
    expect (row.length = width)
      (badReference port
        (toString row.length ++ " pin slots for width " ++ toString width)) ++
    bits

/-- The port of a pin is live, has the pin's bit, and holds the pin there. -/
def checkPlace (n : Netlist) (pin : PinId) : Except Fault (List Violation) := do
  let port ← n.pins.ports.read pin.index
  let bit ← n.pins.bits.read pin.index
  if n.IsLive port then
    let width ← n.ports.widths.read port.index
    if bit < width then
      let slot ← readSlot (← n.ports.pins.read port.index) bit
      return expect (slot = some pin)
        (badReference pin ("not recorded at " ++ port.text ++ "[" ++ toString bit ++ "]"))
    else
      return [badReference pin
        ("bit " ++ toString bit ++ " exceeds the width of " ++ port.text)]
  else return [badReference pin ("owned by dead " ++ port.text)]

/-- Whether a pin stands among the slots of a net where its role puts it. -/
def isPlaced (pin : PinId) (slots : List (Option PinId)) : PinRole → Prop
  | .driver => slots.head? = some (some pin)
  | .sink => some pin ∈ slots.tail

instance (pin : PinId) (slots : List (Option PinId)) :
    (role : PinRole) → Decidable (isPlaced pin slots role)
  | .driver => inferInstanceAs (Decidable (slots.head? = some (some pin)))
  | .sink => inferInstanceAs (Decidable (some pin ∈ slots.tail))

/-- The net of a pin is live and holds the pin in a slot for its role. -/
def checkConnection (n : Netlist) (pin : PinId) : Except Fault (List Violation) := do
  match ← n.pins.nets.read pin.index with
  | none => return []
  | some net =>
    if n.IsLive net then
      let slots ← n.nets.pins.read net.index
      let role ← n.pins.roles.read pin.index
      return expect (isPlaced pin slots role)
        (badReference pin ("missing from its slot on " ++ net.text))
    else return [badReference pin ("connected to dead " ++ net.text)]

def checkPin (n : Netlist) (pin : PinId) : Except Fault (List Violation) := do
  return (← n.checkPlace pin) ++ (← n.checkConnection pin)

/-- The role that a slot of a net asks for. -/
def slotRole (slot : Nat) : PinRole := if slot = 0 then .driver else .sink

/-- The pins in the slots of a net are live, have the role that the slot asks for, say that they
are on the net, and are not among those before them. -/
def checkSlots (n : Netlist) (net : NetId) :
    List PinId → List (Option PinId × Nat) → Except Fault (List Violation)
  | _, [] => return []
  | earlier, (none, _) :: rest => n.checkSlots net earlier rest
  | earlier, (some pin, slot) :: rest => do
    let place := "slot " ++ toString slot ++ " holds "
    if n.IsLive pin then
      let role ← n.pins.roles.read pin.index
      let pinNet ← n.pins.nets.read pin.index
      let later ← n.checkSlots net (pin :: earlier) rest
      return expect (role = slotRole slot)
          (badReference net (place ++ pin.text ++ " with the wrong role")) ++
        expect (pinNet = some net) (badReference net (pin.text ++ " does not point back")) ++
        expect (pin ∉ earlier) (badReference net (pin.text ++ " appears twice")) ++ later
    else
      let later ← n.checkSlots net earlier rest
      return badReference net (place ++ "dead " ++ pin.text) :: later

def checkNet (n : Netlist) (net : NetId) : Except Fault (List Violation) := do
  let slots ← n.nets.pins.read net.index
  if slots = [] then return [badReference net "has no driver slot"]
  else n.checkSlots net [] slots.zipIdx

/-- The references between live entities agree. -/
def checkReferences (n : Netlist) : Except Fault (List Violation) := do
  return (← collect n.checkBlock (n.live .block)) ++ (← collect n.checkPort (n.live .port)) ++
    (← collect n.checkPin (n.live .pin)) ++ (← collect n.checkNet (n.live .net))

end MappedNetlist.Netlist
