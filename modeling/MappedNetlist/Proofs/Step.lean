import MappedNetlist.Netlist.Edit
import MappedNetlist.Proofs.Compaction

/-!
# Steps

What an edit that succeeds does to a consistent netlist, without the edit's arguments
(`Netlist.Step`): it finds an entity that is there and changes nothing, grows the netlist by one
entity, takes something from it, or packs it. What is to hold of every history is shown of these few
steps. That every edit is one of them unless it is refused is `Netlist.settles`.
-/

namespace MappedNetlist.Netlist

/-- What the edit `e` may lead to from `n`: the handle that it found or created, if it asks for one,
and the netlist afterwards. -/
inductive Step (n : Netlist) (e : Edit) : Option ((k : Kind) × Handle k) → Netlist → Prop
  /-- The entity was there. -/
  | found {k : Kind} {h : Handle k} (hl : n.IsLive h) : n.Step e (some ⟨k, h⟩) n
  /-- A new block lists no ports. -/
  | block {m : Netlist} {r : BlockRecord} (hm : n.Grows m .block) (hr : ∀ c, r.listed c = [])
    (hstore : m.store = n.store.addBlock ⟨n.blocks.slots.size⟩ r) :
    n.Step e (some ⟨.block, ⟨n.blocks.slots.size⟩⟩) m
  /-- A new port is as the model of its block declares it. -/
  | port {m : Netlist} {r : PortRecord} {b : BlockRecord} {name : String} {decl : PortDecl}
    (hm : n.Grows m .port) (hb : n.store.blocks r.owner = some b)
    (hname : m.strings.text? r.name = some name) (hdecl : b.model.port? name = some decl)
    (hwidth : r.width = decl.width.toNat) (hclass : r.portClass = decl.portClass)
    (hstore : m.store = n.store.addPort ⟨n.ports.slots.size⟩ r) :
    n.Step e (some ⟨.port, ⟨n.ports.slots.size⟩⟩) m
  | pin {m : Netlist} {r : PinRecord} (hm : n.Grows m .pin)
    (hstore : m.store = n.store.addPin ⟨n.pins.slots.size⟩ r) :
    n.Step e (some ⟨.pin, ⟨n.pins.slots.size⟩⟩) m
  /-- A new net has no empty slot for a sink. -/
  | net {m : Netlist} {r : NetRecord} (hm : n.Grows m .net)
    (hstore : m.store = n.store.addNet ⟨n.nets.slots.size⟩ r) (hr : none ∉ r.pins.tail) :
    n.Step e (some ⟨.net, ⟨n.nets.slots.size⟩⟩) m
  | loss {m : Netlist} {d : Loss} (hm : n.Shrinks m d) : n.Step e none m
  /-- What a sweep leaves moves to its new handles, and only the names of it are kept. -/
  | packed {t m : Netlist} {f : StringId → StringId} (he : e = .compact)
    (ht : n.Shrinks t n.store.unused) (hm : t.Packs m f) (hconsistent : m.Consistent)
    (hnames : m.NamesUsed) :
    n.Step e none m

theorem Step.consistent {n m : Netlist} {e : Edit} {found : Option ((k : Kind) × Handle k)}
    (h : n.Step e found m) (hn : n.Consistent) : m.Consistent := by
  cases h with
  | found => exact hn
  | block hm => exact hm.consistent
  | port hm => exact hm.consistent
  | pin hm => exact hm.consistent
  | net hm => exact hm.consistent
  | loss hm => exact hm.consistent
  | packed _ _ _ hm => exact hm

end MappedNetlist.Netlist
