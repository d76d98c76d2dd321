import MappedNetlist.Netlist.Query
import MappedNetlist.Proofs.Consistency

/-!
# Queries of consistent netlists

In a consistent netlist looking a key up finds the live entity whose record has that key, and
asking a live entity for an attribute gives what is in its record. So queries tell nothing but the
store and the texts of names.
-/

namespace MappedNetlist

/-- All ports that the record of a block lists: its inputs, then its outputs, then its clocks. -/
def BlockRecord.ports (r : BlockRecord) : List PortId :=
  r.listed .input ++ r.listed .output ++ r.listed .clock

theorem BlockRecord.mem_ports_iff {r : BlockRecord} {p : PortId} :
    p ∈ r.ports ↔ ∃ c, p ∈ r.listed c := by
  simp only [BlockRecord.ports, List.mem_append]
  constructor
  · rintro ((h | h) | h)
    · exact ⟨_, h⟩
    · exact ⟨_, h⟩
    · exact ⟨_, h⟩
  · rintro ⟨c, h⟩
    cases c
    · exact .inl (.inl h)
    · exact .inl (.inr h)
    · exact .inr h

namespace Netlist

variable {n : Netlist}

/-! ## Looking up keys -/

theorem Consistent.block?_eq_some_iff (hn : n.Consistent) {name : String} {b : BlockId} :
    n.block? name = some b ↔
      ∃ r, n.store.blocks b = some r ∧ n.strings.text? r.name = some name := by
  simp only [block?, string?, Option.bind_eq_bind, Option.bind_eq_some_iff,
    StringTable.find?_eq_some_iff, hn.indexed.blocks _ b, Option.map_eq_some_iff]
  constructor
  · rintro ⟨_, htext, r, hr, rfl⟩
    exact ⟨r, hr, htext⟩
  · rintro ⟨r, hr, htext⟩
    exact ⟨_, htext, r, hr, rfl⟩

theorem Consistent.net?_eq_some_iff (hn : n.Consistent) {name : String} {e : NetId} :
    n.net? name = some e ↔
      ∃ r, n.store.nets e = some r ∧ n.strings.text? r.name = some name := by
  simp only [net?, string?, Option.bind_eq_bind, Option.bind_eq_some_iff,
    StringTable.find?_eq_some_iff, hn.indexed.nets _ e, Option.map_eq_some_iff]
  constructor
  · rintro ⟨_, htext, r, hr, rfl⟩
    exact ⟨r, hr, htext⟩
  · rintro ⟨r, hr, htext⟩
    exact ⟨_, htext, r, hr, rfl⟩

theorem Consistent.indexedPort?_eq_some_iff (hn : n.Consistent) {b : BlockId} {name : String}
    {p : PortId} : n.indexedPort? b name = some p ↔
      ∃ r, n.store.ports p = some r ∧ r.owner = b ∧ n.strings.text? r.name = some name := by
  simp only [indexedPort?, string?, Option.bind_eq_bind, Option.bind_eq_some_iff,
    StringTable.find?_eq_some_iff, hn.indexed.ports _ p, Option.map_eq_some_iff, PortRecord.key,
    PortKey.mk.injEq]
  constructor
  · rintro ⟨_, htext, r, hr, rfl, rfl⟩
    exact ⟨r, hr, rfl, htext⟩
  · rintro ⟨r, hr, rfl, htext⟩
    exact ⟨_, htext, r, hr, rfl, rfl⟩

theorem Consistent.index_pins_eq_some_iff (hn : n.Consistent) {p : PortId} {bit : Nat} {i : PinId} :
    n.index.pins[BitKey.mk p bit]? = some i ↔
      ∃ r, n.store.pins i = some r ∧ r.port = p ∧ r.bit = bit := by
  simp only [hn.indexed.pins _ i, Option.map_eq_some_iff, PinRecord.key, BitKey.mk.injEq]

/-! ## Names -/

theorem blockName_mem_namesInUse {b : BlockId} {r : BlockRecord}
    (hr : n.store.blocks b = some r) : r.name ∈ n.namesInUse := by
  have hname := Array.mem_of_getElem? (Blocks.record?_eq_some_iff.1 hr).2.1
  exact List.mem_append_left _ (List.mem_append_left _ (Array.mem_toList_iff.2 hname))

theorem portName_mem_namesInUse {p : PortId} {r : PortRecord}
    (hr : n.store.ports p = some r) : r.name ∈ n.namesInUse := by
  have hname := Array.mem_of_getElem? (Ports.record?_eq_some_iff.1 hr).2.1
  exact List.mem_append_left _ (List.mem_append_right _ (Array.mem_toList_iff.2 hname))

theorem netName_mem_namesInUse {e : NetId} {r : NetRecord}
    (hr : n.store.nets e = some r) : r.name ∈ n.namesInUse := by
  have hname := Array.mem_of_getElem? (Nets.record?_eq_some_iff.1 hr).2.1
  exact List.mem_append_right _ (Array.mem_toList_iff.2 hname)

theorem Consistent.exists_blockName (hn : n.Consistent) {b : BlockId} {r : BlockRecord}
    (hr : n.store.blocks b = some r) : ∃ text, n.strings.text? r.name = some text :=
  hn.interned r.name (blockName_mem_namesInUse hr)

theorem Consistent.exists_portName (hn : n.Consistent) {p : PortId} {r : PortRecord}
    (hr : n.store.ports p = some r) : ∃ text, n.strings.text? r.name = some text :=
  hn.interned r.name (portName_mem_namesInUse hr)

theorem Consistent.exists_netName (hn : n.Consistent) {e : NetId} {r : NetRecord}
    (hr : n.store.nets e = some r) : ∃ text, n.strings.text? r.name = some text :=
  hn.interned r.name (netName_mem_namesInUse hr)

/-! ## Attributes -/

theorem require_eq_ok {k : Kind} {h : Handle k} (hl : n.IsLive h) : n.require h = .ok () :=
  require_eq_ok_iff.2 hl

theorem require_of_dead {k : Kind} {h : Handle k} (hl : ¬n.IsLive h) :
    n.require h = .error (.deadHandle k h) :=
  if_neg hl

theorem string_eq_ok {x : StringId} {text : String} (hx : n.strings.text? x = some text) :
    n.string x = .ok text := by
  rw [string, hx]

section Block

variable {b : BlockId} {r : BlockRecord}

theorem blockName_eq (hb : n.store.blocks b = some r) : n.blockName b = n.string r.name := by
  rw [blockName, require_eq_ok (Blocks.isLive_of_record? hb), ok_bind, Blocks.read_names hb,
    ok_bind]

theorem blockModel_eq_ok (hb : n.store.blocks b = some r) : n.blockModel b = .ok r.model := by
  rw [blockModel, require_eq_ok (Blocks.isLive_of_record? hb), ok_bind, Blocks.read_models hb]

theorem blockTable_eq_ok (hb : n.store.blocks b = some r) : n.blockTable b = .ok r.table := by
  rw [blockTable, require_eq_ok (Blocks.isLive_of_record? hb), ok_bind, Blocks.read_tables hb]

theorem portsOfClass_eq_ok (hb : n.store.blocks b = some r) (c : PortClass) :
    n.portsOfClass c b = .ok (r.listed c) := by
  rw [portsOfClass, require_eq_ok (Blocks.isLive_of_record? hb), ok_bind, Blocks.read_listed hb]

theorem portsOf_eq_ok {b : BlockId} {r : BlockRecord} (hb : n.store.blocks b = some r) :
    n.portsOf b = .ok r.ports := by
  have hl : n.IsLive b := Blocks.isLive_of_record? hb
  have hi : n.blocks.inputs.read b.index = .ok _ := Blocks.read_listed hb .input
  have ho : n.blocks.outputs.read b.index = .ok _ := Blocks.read_listed hb .output
  have hc : n.blocks.clocks.read b.index = .ok _ := Blocks.read_listed hb .clock
  simp only [portsOf, require, hl, if_true, ok_bind, hi, ho, hc, pure_eq_ok]
  rfl

end Block

section Port

variable {p : PortId} {r : PortRecord} {bit : Nat}

theorem portName_eq (hp : n.store.ports p = some r) : n.portName p = n.string r.name := by
  rw [portName, require_eq_ok (Ports.isLive_of_record? hp), ok_bind, Ports.read_names hp, ok_bind]

theorem portWidth_eq_ok (hp : n.store.ports p = some r) : n.portWidth p = .ok r.width := by
  rw [portWidth, require_eq_ok (Ports.isLive_of_record? hp), ok_bind, Ports.read_widths hp]

theorem portBlock_eq_ok (hp : n.store.ports p = some r) : n.portBlock p = .ok r.owner := by
  rw [portBlock, require_eq_ok (Ports.isLive_of_record? hp), ok_bind, Ports.read_owners hp]

theorem portClass_eq_ok (hp : n.store.ports p = some r) : n.portClass p = .ok r.portClass := by
  rw [portClass, require_eq_ok (Ports.isLive_of_record? hp), ok_bind, Ports.read_classes hp]

theorem portPins_eq_ok (hp : n.store.ports p = some r) :
    n.portPins p = .ok (r.pins.filterMap id) := by
  rw [portPins, require_eq_ok (Ports.isLive_of_record? hp), ok_bind, Ports.read_pins hp, ok_bind,
    pure_eq_ok]

theorem portPin_eq_ok (hp : n.store.ports p = some r) (hbit : bit < r.width) {slot : Option PinId}
    (hslot : r.pins[bit]? = some slot) : n.portPin p bit = .ok slot := by
  rw [portPin, portWidth_eq_ok hp, ok_bind, if_pos hbit, Ports.read_pins hp, ok_bind]
  exact readSlot_eq_ok_iff.2 hslot

theorem portPin_of_width_le (hp : n.store.ports p = some r) (hbit : r.width ≤ bit) :
    n.portPin p bit = .error (.bitOutOfRange p bit r.width) := by
  rw [portPin, portWidth_eq_ok hp, ok_bind, if_neg (Nat.not_lt.2 hbit)]
  rfl

theorem portNet_of_slot (hp : n.store.ports p = some r) (hbit : bit < r.width) {i : PinId}
    (hslot : r.pins[bit]? = some (some i)) {q : PinRecord} (hi : n.store.pins i = some q) :
    n.portNet p bit = .ok q.net := by
  rw [portNet, portPin_eq_ok hp hbit hslot, ok_bind]
  exact Pins.read_nets hi

theorem portNet_of_empty (hp : n.store.ports p = some r) (hbit : bit < r.width)
    (hslot : r.pins[bit]? = some none) : n.portNet p bit = .ok none := by
  rw [portNet, portPin_eq_ok hp hbit hslot, ok_bind]
  rfl

theorem hasBit_eq_ok (hp : n.store.ports p = some r) :
    n.hasBit p bit = .ok (decide (bit < r.width)) := by
  have hl : n.IsLive p := Ports.isLive_of_record? hp
  rw [hasBit, if_pos hl, Ports.read_widths hp, ok_bind, pure_eq_ok]

end Port

section Pin

variable {i : PinId} {r : PinRecord}

theorem pinNet_eq_ok (hi : n.store.pins i = some r) : n.pinNet i = .ok r.net := by
  rw [pinNet, require_eq_ok (Pins.isLive_of_record? hi), ok_bind, Pins.read_nets hi]

theorem pinRole_eq_ok (hi : n.store.pins i = some r) : n.pinRole i = .ok r.role := by
  rw [pinRole, require_eq_ok (Pins.isLive_of_record? hi), ok_bind, Pins.read_roles hi]

theorem pinPort_eq_ok (hi : n.store.pins i = some r) : n.pinPort i = .ok r.port := by
  rw [pinPort, require_eq_ok (Pins.isLive_of_record? hi), ok_bind, Pins.read_ports hi]

theorem pinBit_eq_ok (hi : n.store.pins i = some r) : n.pinBit i = .ok r.bit := by
  rw [pinBit, require_eq_ok (Pins.isLive_of_record? hi), ok_bind, Pins.read_bits hi]

theorem pinBlock_eq_ok (hi : n.store.pins i = some r) {q : PortRecord}
    (hp : n.store.ports r.port = some q) : n.pinBlock i = .ok q.owner := by
  rw [pinBlock, pinPort_eq_ok hi, ok_bind, Ports.read_owners hp]

end Pin

section Net

variable {e : NetId} {r : NetRecord}

theorem netName_eq (he : n.store.nets e = some r) : n.netName e = n.string r.name := by
  rw [netName, require_eq_ok (Nets.isLive_of_record? he), ok_bind, Nets.read_names he, ok_bind]

theorem netSlots_eq_ok (he : n.store.nets e = some r) : n.netSlots e = .ok r.pins := by
  rw [netSlots, require_eq_ok (Nets.isLive_of_record? he), ok_bind, Nets.read_pins he]

theorem netDriver_eq_ok (he : n.store.nets e = some r) :
    n.netDriver e = .ok r.pins.head?.join := by
  rw [netDriver, netSlots_eq_ok he, ok_bind, pure_eq_ok]

theorem netSinks_eq_ok (he : n.store.nets e = some r) :
    n.netSinks e = .ok (r.pins.tail.filterMap id) := by
  rw [netSinks, netSlots_eq_ok he, ok_bind, pure_eq_ok]

theorem netDriverBlock_of_driver (he : n.store.nets e = some r) {i : PinId}
    (hdriver : r.pins.head?.join = some i) {b : BlockId} (hi : n.pinBlock i = .ok b) :
    n.netDriverBlock e = .ok (some b) := by
  rw [netDriverBlock, netDriver_eq_ok he, hdriver, ok_bind]
  simp only [hi, ok_bind, pure_eq_ok]

theorem netDriverBlock_of_undriven (he : n.store.nets e = some r)
    (hdriver : r.pins.head?.join = none) : n.netDriverBlock e = .ok none := by
  rw [netDriverBlock, netDriver_eq_ok he, hdriver, ok_bind]
  rfl

end Net

/-! ## Answers -/

/-- A query that asks for a live entity and then for something in its record. -/
theorem eq_ok_iff_of_record {α ρ : Type} {k : Kind} {x : Handle k} {f : Unit → Except Fault α}
    {record : Option ρ} {attr : ρ → Except Fault α} (hlive : n.IsLive x → ∃ r, record = some r)
    (hask : ∀ r, record = some r → (n.require x >>= f) = attr r) {a : α} :
    (n.require x >>= f) = .ok a ↔ ∃ r, record = some r ∧ attr r = .ok a := by
  constructor
  · intro h
    by_cases hl : n.IsLive x
    · obtain ⟨r, hr⟩ := hlive hl
      exact ⟨r, hr, (hask r hr).symm.trans h⟩
    · rw [require_of_dead hl] at h
      cases h
  · rintro ⟨r, hr, ha⟩
    exact (hask r hr).trans ha

theorem eq_ok_iff_of_attribute {α ρ : Type} {k : Kind} {x : Handle k} {f : Unit → Except Fault α}
    {record : Option ρ} {attr : ρ → α} (hlive : n.IsLive x → ∃ r, record = some r)
    (hask : ∀ r, record = some r → (n.require x >>= f) = .ok (attr r)) {a : α} :
    (n.require x >>= f) = .ok a ↔ ∃ r, record = some r ∧ attr r = a := by
  simpa only [Except.ok.injEq] using eq_ok_iff_of_record hlive hask

theorem string_eq_ok_iff {x : StringId} {text : String} :
    n.string x = .ok text ↔ n.strings.text? x = some text := by
  unfold string
  split <;> simp_all

section Answers

variable (hn : n.Sized) {b : BlockId} {p : PortId} {i : PinId} {e : NetId} {name : String}
include hn

theorem blockName_eq_ok_iff : n.blockName b = .ok name ↔
    ∃ r, n.store.blocks b = some r ∧ n.strings.text? r.name = some name := by
  simp only [← string_eq_ok_iff]
  exact eq_ok_iff_of_record hn.isLive_block_iff.1 fun _ => blockName_eq

theorem blockModel_eq_ok_iff {model : Model} :
    n.blockModel b = .ok model ↔ ∃ r, n.store.blocks b = some r ∧ r.model = model :=
  eq_ok_iff_of_attribute hn.isLive_block_iff.1 fun _ => blockModel_eq_ok

theorem portsOf_eq_ok_iff {ports : List PortId} :
    n.portsOf b = .ok ports ↔ ∃ r, n.store.blocks b = some r ∧ r.ports = ports :=
  eq_ok_iff_of_attribute hn.isLive_block_iff.1 fun _ => portsOf_eq_ok

theorem portName_eq_ok_iff : n.portName p = .ok name ↔
    ∃ r, n.store.ports p = some r ∧ n.strings.text? r.name = some name := by
  simp only [← string_eq_ok_iff]
  exact eq_ok_iff_of_record hn.isLive_port_iff.1 fun _ => portName_eq

theorem portWidth_eq_ok_iff {width : Nat} :
    n.portWidth p = .ok width ↔ ∃ r, n.store.ports p = some r ∧ r.width = width :=
  eq_ok_iff_of_attribute hn.isLive_port_iff.1 fun _ => portWidth_eq_ok

theorem portBlock_eq_ok_iff :
    n.portBlock p = .ok b ↔ ∃ r, n.store.ports p = some r ∧ r.owner = b :=
  eq_ok_iff_of_attribute hn.isLive_port_iff.1 fun _ => portBlock_eq_ok

theorem pinNet_eq_ok_iff {net : Option NetId} :
    n.pinNet i = .ok net ↔ ∃ r, n.store.pins i = some r ∧ r.net = net :=
  eq_ok_iff_of_attribute hn.isLive_pin_iff.1 fun _ => pinNet_eq_ok

theorem pinRole_eq_ok_iff {role : PinRole} :
    n.pinRole i = .ok role ↔ ∃ r, n.store.pins i = some r ∧ r.role = role :=
  eq_ok_iff_of_attribute hn.isLive_pin_iff.1 fun _ => pinRole_eq_ok

theorem pinPort_eq_ok_iff :
    n.pinPort i = .ok p ↔ ∃ r, n.store.pins i = some r ∧ r.port = p :=
  eq_ok_iff_of_attribute hn.isLive_pin_iff.1 fun _ => pinPort_eq_ok

theorem pinBit_eq_ok_iff {bit : Nat} :
    n.pinBit i = .ok bit ↔ ∃ r, n.store.pins i = some r ∧ r.bit = bit :=
  eq_ok_iff_of_attribute hn.isLive_pin_iff.1 fun _ => pinBit_eq_ok

theorem netName_eq_ok_iff : n.netName e = .ok name ↔
    ∃ r, n.store.nets e = some r ∧ n.strings.text? r.name = some name := by
  simp only [← string_eq_ok_iff]
  exact eq_ok_iff_of_record hn.isLive_net_iff.1 fun _ => netName_eq

theorem netSlots_eq_ok_iff {slots : List (Option PinId)} :
    n.netSlots e = .ok slots ↔ ∃ r, n.store.nets e = some r ∧ r.pins = slots :=
  eq_ok_iff_of_attribute hn.isLive_net_iff.1 fun _ => netSlots_eq_ok

theorem netDriver_eq_ok_iff {driver : Option PinId} : n.netDriver e = .ok driver ↔
    ∃ r, n.store.nets e = some r ∧ r.pins.head?.join = driver := by
  simp only [netDriver, bind_eq_ok_iff, pure_eq_ok, Except.ok.injEq, netSlots_eq_ok_iff hn]
  exact ⟨fun ⟨_, ⟨r, hr, hs⟩, hd⟩ => ⟨r, hr, hs ▸ hd⟩, fun ⟨r, hr, hd⟩ => ⟨_, ⟨r, hr, rfl⟩, hd⟩⟩

theorem netSinks_eq_ok_iff {sinks : List PinId} : n.netSinks e = .ok sinks ↔
    ∃ r, n.store.nets e = some r ∧ r.pins.tail.filterMap id = sinks := by
  simp only [netSinks, bind_eq_ok_iff, pure_eq_ok, Except.ok.injEq, netSlots_eq_ok_iff hn]
  exact ⟨fun ⟨_, ⟨r, hr, hs⟩, hd⟩ => ⟨r, hr, hs ▸ hd⟩, fun ⟨r, hr, hd⟩ => ⟨_, ⟨r, hr, rfl⟩, hd⟩⟩

end Answers

end Netlist

end MappedNetlist
