import MappedNetlist.Netlist.Sweep

/-!
# Compaction

Compaction sweeps the netlist and then drops the positions of everything that was removed. The
live entities of each kind are numbered without gaps in their old order (`Renumberings`); every
column is squeezed by the numbering of its kind, and every reference is replaced through the one
of the kind that it refers to. Names that no entity bears any more are dropped from the string
table in the same way, and the index is built anew from the columns.
-/

namespace MappedNetlist

/-- The new handles of the entities of each kind. -/
structure Renumberings where
  blocks : Renumbering BlockId
  ports : Renumbering PortId
  pins : Renumbering PinId
  nets : Renumbering NetId

/-- The new handle for an old one, or the old one where there is none. -/
def redirect {k : Kind} (m : Renumbering (Handle k)) (h : Handle k) : Handle k :=
  (m.target? h.index).getD h

/-- The new handle for an old one that may be missing, or nothing where there is none. -/
def relink {k : Kind} (m : Renumbering (Handle k)) (h : Option (Handle k)) : Option (Handle k) :=
  h.bind fun h => m.target? h.index

/-- The slots of a net with new handles: the driver's slot, and those sinks' slots that are not
empty. -/
def relinkNet (m : Renumbering PinId) (slots : List (Option PinId)) : List (Option PinId) :=
  relink m slots.head?.join :: (slots.tail.filterMap (relink m)).map some

namespace Pins

/-- The kept positions of the columns of pins. -/
def squeeze (p : Pins) (m : Renumbering PinId) : Except Fault Pins := do
  return {
    ports := ← p.ports.squeeze m
    bits := ← p.bits.squeeze m
    nets := ← p.nets.squeeze m
    roles := ← p.roles.squeeze m
    slots := Slots.ofRenumbering m }

/-- Ports and nets under their new handles. -/
def renumber (p : Pins) (r : Renumberings) : Pins :=
  { p with
    ports := p.ports.map (redirect r.ports)
    nets := p.nets.map (relink r.nets) }

end Pins

namespace Ports

/-- The kept positions of the columns of ports. -/
def squeeze (p : Ports) (m : Renumbering PortId) : Except Fault Ports := do
  return {
    names := ← p.names.squeeze m
    owners := ← p.owners.squeeze m
    widths := ← p.widths.squeeze m
    classes := ← p.classes.squeeze m
    pins := ← p.pins.squeeze m
    slots := Slots.ofRenumbering m }

/-- Blocks and pins under their new handles. -/
def renumber (p : Ports) (r : Renumberings) : Ports :=
  { p with
    owners := p.owners.map (redirect r.blocks)
    pins := p.pins.map fun row => row.map (relink r.pins) }

end Ports

namespace Nets

/-- The kept positions of the columns of nets. -/
def squeeze (p : Nets) (m : Renumbering NetId) : Except Fault Nets := do
  return {
    names := ← p.names.squeeze m
    pins := ← p.pins.squeeze m
    slots := Slots.ofRenumbering m }

/-- Pins under their new handles. -/
def renumber (p : Nets) (r : Renumberings) : Nets :=
  { p with pins := p.pins.map (relinkNet r.pins) }

end Nets

namespace Blocks

/-- The kept positions of the columns of blocks. -/
def squeeze (b : Blocks) (m : Renumbering BlockId) : Except Fault Blocks := do
  return {
    names := ← b.names.squeeze m
    models := ← b.models.squeeze m
    tables := ← b.tables.squeeze m
    inputs := ← b.inputs.squeeze m
    outputs := ← b.outputs.squeeze m
    clocks := ← b.clocks.squeeze m
    slots := Slots.ofRenumbering m }

/-- Ports under their new handles. Those without one are no longer listed. -/
def renumber (b : Blocks) (r : Renumberings) : Blocks :=
  let relist (ports : List PortId) : List PortId :=
    ports.filterMap fun port => r.ports.target? port.index
  { b with
    inputs := b.inputs.map relist
    outputs := b.outputs.map relist
    clocks := b.clocks.map relist }

end Blocks

/-- The index of columns that have no empty slots. -/
def Index.ofColumns (blocks : Blocks) (ports : Ports) (pins : Pins) (nets : Nets) : Index where
  blocks := .ofKeys blocks.names.toList
  ports := .ofKeys (List.zipWith PortKey.mk ports.owners.toList ports.names.toList)
  pins := .ofKeys (List.zipWith BitKey.mk pins.ports.toList pins.bits.toList)
  nets := .ofKeys nets.names.toList

namespace Netlist

/-- The live entities of each kind numbered without gaps. -/
def renumberings (n : Netlist) : Renumberings where
  blocks := n.blocks.slots.renumbering
  ports := n.ports.slots.renumbering
  pins := n.pins.slots.renumbering
  nets := n.nets.slots.renumbering

/-- Drops the positions of removed entities and gives the others their new handles. -/
def squeeze (n : Netlist) : Except Fault Netlist := do
  let pins ← n.pins.squeeze n.renumberings.pins
  let ports ← n.ports.squeeze n.renumberings.ports
  let nets ← n.nets.squeeze n.renumberings.nets
  let blocks ← n.blocks.squeeze n.renumberings.blocks
  return { n with
    blocks := blocks.renumber n.renumberings
    ports := ports.renumber n.renumberings
    pins := pins.renumber n.renumberings
    nets := nets.renumber n.renumberings }

/-- Every name that some block, port or net bears. -/
def namesInUse (n : Netlist) : List StringId :=
  n.blocks.names.toList ++ n.ports.names.toList ++ n.nets.names.toList

/-- Drops the texts that are no names and renames the others. A name must stand for a text. -/
def compactStrings (n : Netlist) : Except Fault Netlist :=
  let used := n.namesInUse
  match used.find? fun name => !n.strings.contains name with
  | some name => .error (.outOfBounds n.strings.size name.index)
  | none =>
    let (strings, m) := n.strings.compact fun name => name ∈ used
    let rename (name : StringId) : StringId := (m.target? name.index).getD name
    .ok { n with
      blocks := { n.blocks with names := n.blocks.names.map rename }
      ports := { n.ports with names := n.ports.names.map rename }
      nets := { n.nets with names := n.nets.names.map rename }
      strings }

/-- The netlist with its index built anew from its columns. -/
def reindex (n : Netlist) : Netlist :=
  { n with index := .ofColumns n.blocks n.ports n.pins n.nets }

/-- Sweeps the netlist, drops what was removed, and renumbers every handle. Handles from before
mean nothing afterwards. -/
def compactWith (a : Arithmetic) (n : Netlist) : Except Fault (Netlist × List Event) := do
  let (swept, events) ← n.sweepWith a
  let squeezed ← swept.squeeze
  let renamed ← squeezed.compactStrings
  let m := { renamed.reindex with dirty := false }
  let reclaimed := Tally.of fun k => n.issued.get k - m.issued.get k
  return (m, events ++ [.compacted m.name m.issued reclaimed m.strings.size])

/-- A compaction whose counters wrap. -/
def compact (n : Netlist) : Except Fault (Netlist × List Event) := n.compactWith .wrapping

end Netlist

end MappedNetlist
