import MappedNetlist.Netlist.Query

/-!
# Creation

Creating an entity whose key is taken gives the entity that is there and changes nothing, whatever
else was asked for: the first creation wins. A new entity takes the next handle of its kind. An
edit is refused before anything is changed.
-/

namespace MappedNetlist

/-- Refuses an edit unless `p` holds. -/
def demand (p : Prop) [Decidable p] (e : EditError) : Except Failure Unit :=
  if p then .ok () else .error (.refused e)

@[simp] theorem demand_of_pos {p : Prop} [Decidable p] {e : EditError} (h : p) :
    demand p e = .ok () := if_pos h

@[simp] theorem demand_of_neg {p : Prop} [Decidable p] {e : EditError} (h : ¬p) :
    demand p e = .error (.refused e) := if_neg h

/-- What follows a demand runs only if the demand is met. -/
theorem demand_bind_eq_ok_iff {α : Type} {p : Prop} [Decidable p] {e : EditError}
    {f : Unit → Except Failure α} {a : α} : demand p e >>= f = .ok a ↔ p ∧ f () = .ok a := by
  by_cases h : p <;> simp [h]

namespace Netlist

/-! ## Blocks -/

/-- The netlist with one more block, which has no ports. -/
def addBlock (n : Netlist) (name : StringId) (model : Model) (table : TruthTable) :
    BlockId × Netlist :=
  let id : BlockId := ⟨n.blocks.slots.size⟩
  (id, { n with
    blocks := {
      slots := n.blocks.slots.push (some id)
      names := n.blocks.names.push name
      models := n.blocks.models.push model
      tables := n.blocks.tables.push table
      inputs := n.blocks.inputs.push []
      outputs := n.blocks.outputs.push []
      clocks := n.blocks.clocks.push [] }
    index := { n.index with blocks := n.index.blocks.insert name id } })

/-- The block of a name, created if there is none. -/
def createBlock (n : Netlist) (name : String) (model : Model) (table : TruthTable) :
    BlockId × Netlist :=
  let (name, strings) := n.strings.intern name
  let n := { n with strings }
  match n.index.blocks[name]? with
  | some existing => (existing, n)
  | none => n.addBlock name model table

/-! ## Ports -/

/-- The netlist with one more port, without pins, listed last under its class by its block. -/
def addPort (n : Netlist) (block : BlockId) (decl : PortDecl) :
    Except Fault (PortId × Netlist) := do
  let (name, strings) := n.strings.intern decl.name
  let id : PortId := ⟨n.ports.slots.size⟩
  let lists ← (n.blocks.listed decl.portClass).alter block.index (· ++ [id])
  return (id, { n with
    blocks := n.blocks.setListed lists decl.portClass
    ports := {
      slots := n.ports.slots.push (some id)
      names := n.ports.names.push name
      owners := n.ports.owners.push block
      widths := n.ports.widths.push decl.width.toNat
      classes := n.ports.classes.push decl.portClass
      pins := n.ports.pins.push (List.replicate decl.width.toNat none) }
    strings
    index := { n.index with ports := n.index.ports.insert ⟨block, name⟩ id } })

/-- The port of a name on a block, created as the block's model declares it if there is none. -/
def createPort (n : Netlist) (block : BlockId) (name : String) :
    Except Failure (PortId × Netlist) := do
  demand (n.IsLive block) (.invalidHandle .block block)
  match n.indexedPort? block name with
  | some existing => return (existing, n)
  | none =>
    let model ← n.blocks.models.read block.index
    match model.port? name with
    | none => refuse (.unknownModelPort model.name name)
    | some decl => n.addPort block decl

/-! ## Nets -/

/-- The netlist with one more net, which has an empty driver slot and no others. -/
def addEmptyNet (n : Netlist) (name : StringId) : NetId × Netlist :=
  let id : NetId := ⟨n.nets.slots.size⟩
  (id, { n with
    nets := {
      slots := n.nets.slots.push (some id)
      names := n.nets.names.push name
      pins := n.nets.pins.push [none] }
    index := { n.index with nets := n.index.nets.insert name id } })

/-- The net of a name, created if there is none. -/
def createNet (n : Netlist) (name : String) : NetId × Netlist :=
  let (name, strings) := n.strings.intern name
  let n := { n with strings }
  match n.index.nets[name]? with
  | some existing => (existing, n)
  | none => n.addEmptyNet name

/-! ## Pins -/

/-- The slots of a net with one more pin: a driver takes the first slot, a sink a new last one. -/
def connect (pin : PinId) (role : PinRole) (slots : List (Option PinId)) :
    Except Fault (List (Option PinId)) :=
  match role with
  | .driver => writeSlot slots 0 (some pin)
  | .sink => .ok (slots ++ [some pin])

/-- The netlist with one more pin, at a bit of a port, and on a net if one is given. -/
def addPin (n : Netlist) (port : PortId) (bit : Nat) (net : Option NetId) (role : PinRole) :
    Except Fault (PinId × Netlist) := do
  let id : PinId := ⟨n.pins.slots.size⟩
  let row ← writeSlot (← n.ports.pins.read port.index) bit (some id)
  let portPins ← n.ports.pins.write port.index row
  let netPins ← match net with
    | none => pure n.nets.pins
    | some net => do
      let slots ← connect id role (← n.nets.pins.read net.index)
      n.nets.pins.write net.index slots
  return (id, { n with
    ports := { n.ports with pins := portPins }
    pins := {
      slots := n.pins.slots.push (some id)
      ports := n.pins.ports.push port
      bits := n.pins.bits.push bit
      nets := n.pins.nets.push net
      roles := n.pins.roles.push role }
    nets := { n.nets with pins := netPins }
    index := { n.index with pins := n.index.pins.insert ⟨port, bit⟩ id } })

/-- A net that is to be driven must not have a driver yet. -/
def demandUndriven (n : Netlist) : Option NetId → PinRole → Except Failure Unit
  | some net, .driver => do
    match ← readSlot (← n.nets.pins.read net.index) 0 with
    | some existing => refuse (.driverConflict net existing)
    | none => return ()
  | _, _ => return ()

/-- A net that is given must be live. -/
def demandLiveNet (n : Netlist) : Option NetId → Except Failure Unit
  | some net => demand (n.IsLive net) (.invalidHandle .net net)
  | none => return ()

/-- The pin at a bit of a port, created if there is none. Even where the pin is there, the port,
the bit and the net must be good. -/
def createPin (n : Netlist) (port : PortId) (bit : Nat) (net : Option NetId) (role : PinRole) :
    Except Failure (PinId × Netlist) := do
  demand (n.IsLive port) (.invalidHandle .port port)
  let width ← n.ports.widths.read port.index
  demand (bit < width) (.bitOutOfRange port bit width)
  n.demandLiveNet net
  match n.index.pins[BitKey.mk port bit]? with
  | some existing => return (existing, n)
  | none =>
    n.demandUndriven net role
    n.addPin port bit net role

/-! ## Whole nets -/

/-- Pins for a new net, each with the role that its slot asks for: they must be live, have that
role, be on no net, and not be among those before them. -/
def demandFree (n : Netlist) : List PinId → List (PinId × PinRole) → Except Failure Unit
  | _, [] => return ()
  | earlier, (pin, role) :: rest => do
    demand (n.IsLive pin) (.invalidHandle .pin pin)
    demand ((← n.pins.roles.read pin.index) = role) (.roleMismatch pin)
    match ← n.pins.nets.read pin.index with
    | some net => refuse (.pinAlreadyConnected pin net)
    | none =>
      demand (pin ∉ earlier) (.duplicatePin pin)
      n.demandFree (pin :: earlier) rest

/-- Puts pins on a net, as far as the pins tell. -/
def assignNet (net : Option NetId) (column : Column (Option NetId)) (pins : List PinId) :
    Except Fault (Column (Option NetId)) :=
  pins.foldlM (fun column pin => column.write pin.index net) column

/-- A new net with an optional driver and with sinks. Its name must not be that of a net. -/
def addNet (n : Netlist) (name : String) (driver : Option PinId) (sinks : List PinId) :
    Except Failure (NetId × Netlist) := do
  demand (n.net? name = none) (.duplicateNet name)
  n.demandFree [] (driver.toList.map (·, PinRole.driver) ++ sinks.map (·, PinRole.sink))
  let (id, n) := n.createNet name
  let slots ← writeSlot (← n.nets.pins.read id.index) 0 driver
  let netPins ← n.nets.pins.write id.index (slots ++ sinks.map some)
  let pinNets ← assignNet (some id) n.pins.nets (driver.toList ++ sinks)
  return (id, { n with
    pins := { n.pins with nets := pinNets }
    nets := { n.nets with pins := netPins } })

end Netlist

end MappedNetlist
