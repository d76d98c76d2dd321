import MappedNetlist.Netlist.Edit

/-!
# Edits in place

A netlist that is held in one place is changed by one write after the other. A `Procedure` does that,
and nothing takes its writes back: if it fails, the netlist stays as it is at that moment. Each
creating edit is written out here with its tests and its writes in order, so that a test which comes
too late would show. A removal, a sweep and a compaction have no test after their first write; what
they do is one write here.
-/

namespace MappedNetlist

/-- What an edit tells: the handle that it found or created, and the events. -/
abbrev Reply := Option ((k : Kind) × Handle k) × List Event

/-- A change of a netlist in place. What was written before a failure stays. -/
abbrev Procedure (α : Type) := EStateM Failure Netlist α

namespace Procedure

variable {α : Type}

/-- Reads the netlist, and fails if the test does. -/
def test (f : Netlist → Except Failure α) : Procedure α := fun n =>
  match f n with
  | .ok a => .ok a n
  | .error err => .error err n

/-- Writes to the netlist, and fails if the write does. -/
def write (f : Netlist → Except Fault Netlist) : Procedure Unit := fun n =>
  match f n with
  | .ok m => .ok () m
  | .error err => .error (.fault err) n

/-- Removes, sweeps or compacts, and tells the events. -/
def drop (f : Netlist → Except Fault (Netlist × List Event)) : Procedure Reply := fun n =>
  match f n with
  | .ok (m, events) => .ok (none, events) m
  | .error err => .error (.fault err) n

/-- The handle of a text, which is interned if it was not. -/
def intern (text : String) : Procedure StringId := fun n =>
  let (x, strings) := n.strings.intern text
  .ok x { n with strings }

def createBlock (name : String) (model : Model) (table : TruthTable) : Procedure BlockId := do
  let x ← intern name
  match (← get).index.blocks[x]? with
  | some existing => return existing
  | none =>
    let id : BlockId := ⟨(← get).blocks.slots.size⟩
    modify fun n => { n with
      blocks := {
        slots := n.blocks.slots.push (some id)
        names := n.blocks.names.push x
        models := n.blocks.models.push model
        tables := n.blocks.tables.push table
        inputs := n.blocks.inputs.push []
        outputs := n.blocks.outputs.push []
        clocks := n.blocks.clocks.push [] } }
    modify fun n => { n with index := { n.index with blocks := n.index.blocks.insert x id } }
    return id

def addPort (block : BlockId) (decl : PortDecl) : Procedure PortId := do
  let x ← intern decl.name
  let id : PortId := ⟨(← get).ports.slots.size⟩
  modify fun n => { n with
    ports := {
      slots := n.ports.slots.push (some id)
      names := n.ports.names.push x
      owners := n.ports.owners.push block
      widths := n.ports.widths.push decl.width.toNat
      classes := n.ports.classes.push decl.portClass
      pins := n.ports.pins.push (List.replicate decl.width.toNat none) } }
  write fun n => do
    let lists ← (n.blocks.listed decl.portClass).alter block.index (· ++ [id])
    return { n with blocks := n.blocks.setListed lists decl.portClass }
  modify fun n => { n with
    index := { n.index with ports := n.index.ports.insert ⟨block, x⟩ id } }
  return id

def createPort (block : BlockId) (name : String) : Procedure PortId := do
  test fun n => demand (n.IsLive block) (.invalidHandle .block block)
  match (← get).indexedPort? block name with
  | some existing => return existing
  | none =>
    let model ← test fun n => n.blocks.models.read block.index
    match model.port? name with
    | none => throw (.refused (.unknownModelPort model.name name))
    | some decl => addPort block decl

def createNet (name : String) : Procedure NetId := do
  let x ← intern name
  match (← get).index.nets[x]? with
  | some existing => return existing
  | none =>
    let id : NetId := ⟨(← get).nets.slots.size⟩
    modify fun n => { n with
      nets := {
        slots := n.nets.slots.push (some id)
        names := n.nets.names.push x
        pins := n.nets.pins.push [none] } }
    modify fun n => { n with index := { n.index with nets := n.index.nets.insert x id } }
    return id

/-- The netlist with a new pin in the slots of its net, if it is to be on one. -/
def plugged (pin : PinId) (role : PinRole) (net : Option NetId) (n : Netlist) :
    Except Fault Netlist :=
  match net with
  | none => .ok n
  | some net => do
    let slots ← Netlist.connect pin role (← n.nets.pins.read net.index)
    let netPins ← n.nets.pins.write net.index slots
    return { n with nets := { n.nets with pins := netPins } }

def addPin (port : PortId) (bit : Nat) (net : Option NetId) (role : PinRole) :
    Procedure PinId := do
  let id : PinId := ⟨(← get).pins.slots.size⟩
  modify fun n => { n with
    pins := {
      slots := n.pins.slots.push (some id)
      ports := n.pins.ports.push port
      bits := n.pins.bits.push bit
      nets := n.pins.nets.push net
      roles := n.pins.roles.push role } }
  write fun n => do
    let row ← writeSlot (← n.ports.pins.read port.index) bit (some id)
    let portPins ← n.ports.pins.write port.index row
    return { n with ports := { n.ports with pins := portPins } }
  modify fun n => { n with
    index := { n.index with pins := n.index.pins.insert ⟨port, bit⟩ id } }
  write (plugged id role net)
  return id

def createPin (port : PortId) (bit : Nat) (net : Option NetId) (role : PinRole) :
    Procedure PinId := do
  test fun n => demand (n.IsLive port) (.invalidHandle .port port)
  let width ← test fun n => n.ports.widths.read port.index
  test fun _ => demand (bit < width) (.bitOutOfRange port bit width)
  test fun n => n.demandLiveNet net
  match (← get).index.pins[BitKey.mk port bit]? with
  | some existing => return existing
  | none =>
    test fun n => n.demandUndriven net role
    addPin port bit net role

/-- Puts a pin on a net, as far as the pin tells. -/
def putOn (net : NetId) (pin : PinId) : Procedure Unit :=
  write fun n => do
    let pinNets ← n.pins.nets.write pin.index (some net)
    return { n with pins := { n.pins with nets := pinNets } }

/-- Gives a new net its pins, and puts these on it. -/
def fillNet (net : NetId) (driver : Option PinId) (sinks : List PinId) : Procedure Unit := do
  write fun n => do
    let slots ← writeSlot (← n.nets.pins.read net.index) 0 driver
    let netPins ← n.nets.pins.write net.index (slots ++ sinks.map some)
    return { n with nets := { n.nets with pins := netPins } }
  (driver.toList ++ sinks).forM (putOn net)

def addNet (name : String) (driver : Option PinId) (sinks : List PinId) : Procedure NetId := do
  test fun n => demand (n.net? name = none) (.duplicateNet name)
  test fun n =>
    n.demandFree [] (driver.toList.map (·, PinRole.driver) ++ sinks.map (·, PinRole.sink))
  let net ← createNet name
  fillNet net driver sinks
  return net

/-- The reply of an edit that finds or creates an entity. -/
def found {k : Kind} (h : Handle k) : Reply := (some ⟨k, h⟩, [])

end Procedure

open Procedure in
/-- The procedure of an edit. -/
def Edit.perform : Edit → Procedure Reply
  | createBlock name model table => found <$> Procedure.createBlock name model table
  | createPort block name => found <$> Procedure.createPort block name
  | createPin port bit net role => found <$> Procedure.createPin port bit net role
  | createNet name => found <$> Procedure.createNet name
  | addNet name driver sinks => found <$> Procedure.addNet name driver sinks
  | removeBlock block => do
    test fun n => demand (n.IsLive block) (.invalidHandle .block block)
    drop (·.dropBlock block)
  | removePin pin => do
    test fun n => demand (n.IsLive pin) (.invalidHandle .pin pin)
    drop (·.dropPin pin)
  | removeNet net => do
    test fun n => demand (n.IsLive net) (.invalidHandle .net net)
    drop (·.dropNet net)
  | removeNetPin net pin => do
    test fun n => demand (n.IsLive net) (.invalidHandle .net net)
    test fun n => demand (n.IsLive pin) (.invalidHandle .pin pin)
    test fun n => do demand ((← n.pins.nets.read pin.index) = some net) (.pinNotOnNet pin net)
    drop fun n => do
      let netPins ← n.nets.pins.alter net.index (vacate pin)
      let pinNets ← n.pins.nets.write pin.index none
      return ({ n with
        dirty := true
        pins := { n.pins with nets := pinNets }
        nets := { n.nets with pins := netPins } }, [])
  | sweep => drop (·.sweep)
  | compact => drop (·.compact)

open Procedure in
/-- The procedure of an edit with counters that add in a given way. -/
def Edit.performWith (a : Arithmetic) : Edit → Procedure Reply
  | sweep => drop (·.sweepWith a)
  | compact => drop (·.compactWith a)
  | e => e.perform

theorem Edit.performWith_wrapping (e : Edit) : e.performWith .wrapping = e.perform := by
  cases e <;> rfl

end MappedNetlist
