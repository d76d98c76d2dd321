import MappedNetlist.Proofs.Invariance

/-!
# The index and the references agree

What refers to an entity is kept two or three times: in the index, in the entity itself, and in the
list of its parent, and different queries read different copies. In every history they give the same
answers. A key finds what tells that key of itself (`Finds`), a list has what tells that it belongs
there (`Enumerates`), and a live entity never makes a query fault.
-/

namespace MappedNetlist

/-- The query succeeds, and what it finds is the one thing with the property, if there is one. -/
def Finds {α : Type} (query : Except Fault (Option α)) (P : α → Prop) : Prop :=
  ∃ found, query = .ok found ∧ ∀ a, found = some a ↔ P a

/-- The query succeeds, and lists what has the property, each once. -/
def Enumerates {α : Type} (query : Except Fault (List α)) (P : α → Prop) : Prop :=
  ∃ as, query = .ok as ∧ as.Nodup ∧ ∀ a, a ∈ as ↔ P a

namespace Netlist

variable {n : Netlist}

/-- A live block finds its ports by the names that they tell. -/
structure BlockAgrees (n : Netlist) (b : BlockId) : Prop where
  name : ∃ text, n.blockName b = .ok text
  port? (text : String) : Finds (n.port? b text) fun p =>
    n.IsLive p ∧ n.portBlock p = .ok b ∧ n.portName p = .ok text

/-- At a bit of a port, `slot` is found through the index and through the port alike, it is the pin
that tells to stand there, and the net there is the net of the pin. -/
structure BitAgrees (n : Netlist) (p : PortId) (bit : Nat) (slot : Option PinId) : Prop where
  pin? : n.pin? p bit = .ok slot
  portPin : n.portPin p bit = .ok slot
  eq_some_iff {i : PinId} :
    slot = some i ↔ n.IsLive i ∧ n.pinPort i = .ok p ∧ n.pinBit i = .ok bit
  portNet : ∃ net, n.portNet p bit = .ok net ∧ slot.elim (.ok none) n.pinNet = .ok net

/-- A live port has at each of its bits, and lists by bit, the pins that tell to stand there. -/
structure PortAgrees (n : Netlist) (p : PortId) : Prop where
  name : ∃ text, n.portName p = .ok text
  block : ∃ b, n.portBlock p = .ok b ∧ n.IsLive b
  bits : ∃ width, n.portWidth p = .ok width ∧ ∀ bit < width, ∃ slot, n.BitAgrees p bit slot
  pins : ∃ pins, n.portPins p = .ok pins ∧
    (pins.Pairwise fun i j => ∃ a b, n.pinBit i = .ok a ∧ n.pinBit j = .ok b ∧ a < b) ∧
    ∀ i, i ∈ pins ↔ n.IsLive i ∧ n.pinPort i = .ok p

/-- The block of a live pin is live and lists the port of the pin. -/
structure PinAgrees (n : Netlist) (i : PinId) : Prop where
  bit : ∃ bit, n.pinBit i = .ok bit
  role : ∃ role, n.pinRole i = .ok role
  net : ∃ net, n.pinNet i = .ok net
  block : ∃ p b ports, n.pinPort i = .ok p ∧ n.pinBlock i = .ok b ∧ n.IsLive b ∧
    n.portsOf b = .ok ports ∧ p ∈ ports

/-- A live net has the pins that tell to be on it, by their roles. -/
structure NetAgrees (n : Netlist) (e : NetId) : Prop where
  name : ∃ text, n.netName e = .ok text
  driver : Finds (n.netDriver e) fun i =>
    n.IsLive i ∧ n.pinRole i = .ok .driver ∧ n.pinNet i = .ok (some e)
  sinks : Enumerates (n.netSinks e) fun i =>
    n.IsLive i ∧ n.pinRole i = .ok .sink ∧ n.pinNet i = .ok (some e)
  driverBlock : ∃ driver block, n.netDriver e = .ok driver ∧ n.netDriverBlock e = .ok block ∧
    block.map .ok = driver.map n.pinBlock

namespace Consistent

variable (hn : n.Consistent)
include hn

/-! ## Ports and their pins -/

theorem blockAgrees {b : BlockId} {r : BlockRecord} (hb : n.store.blocks b = some r) :
    n.BlockAgrees b where
  name := by
    obtain ⟨text, htext⟩ := hn.exists_blockName hb
    exact ⟨text, (blockName_eq hb).trans (string_eq_ok htext)⟩
  port? text := by
    refine ⟨n.indexedPort? b text, ?_, fun p => ?_⟩
    · rw [port?, require_eq_ok (Blocks.isLive_of_record? hb), ok_bind, pure_eq_ok]
    · dsimp only
      rw [hn.indexedPort?_eq_some_iff, hn.sized.isLive_port_iff, portBlock_eq_ok_iff hn.sized,
        portName_eq_ok_iff hn.sized]
      constructor
      · rintro ⟨q, hq, howner, htext⟩
        exact ⟨⟨q, hq⟩, ⟨q, hq, howner⟩, q, hq, htext⟩
      · rintro ⟨-, ⟨q, hq, howner⟩, t, ht, htext⟩
        obtain rfl : q = t := Option.some.inj (hq.symm.trans ht)
        exact ⟨q, hq, howner, htext⟩

/-- What a pin tells of its place is in its record. -/
theorem stands_iff {p : PortId} {bit : Nat} {i : PinId} :
    n.IsLive i ∧ n.pinPort i = .ok p ∧ n.pinBit i = .ok bit ↔
      ∃ q, n.store.pins i = some q ∧ q.port = p ∧ q.bit = bit := by
  rw [hn.sized.isLive_pin_iff, pinPort_eq_ok_iff hn.sized, pinBit_eq_ok_iff hn.sized]
  constructor
  · rintro ⟨-, ⟨q, hq, hport⟩, t, ht, hbit⟩
    obtain rfl : q = t := Option.some.inj (hq.symm.trans ht)
    exact ⟨q, hq, hport, hbit⟩
  · rintro ⟨q, hq, hport, hbit⟩
    exact ⟨⟨q, hq⟩, ⟨q, hq, hport⟩, q, hq, hbit⟩

theorem bitAgrees {p : PortId} {r : PortRecord} (hp : n.store.ports p = some r) {bit : Nat}
    (hbit : bit < r.width) {slot : Option PinId} (hslot : r.pins[bit]? = some slot) :
    n.BitAgrees p bit slot := by
  have hiff (i : PinId) :
      slot = some i ↔ ∃ q, n.store.pins i = some q ∧ q.port = p ∧ q.bit = bit := by
    constructor
    · rintro rfl
      exact hn.coherent.filled hp hslot
    · rintro ⟨q, hq, rfl, rfl⟩
      obtain ⟨t, ht, -, hget⟩ := hn.coherent.placed hq
      obtain rfl : r = t := Option.some.inj (hp.symm.trans ht)
      exact Option.some.inj (hslot.symm.trans hget)
  refine ⟨?_, portPin_eq_ok hp hbit hslot, fun {i} => (hiff i).trans hn.stands_iff.symm, ?_⟩
  · have hindex : n.index.pins[BitKey.mk p bit]? = slot :=
      Option.ext fun i => hn.index_pins_eq_some_iff.trans (hiff i).symm
    rw [pin?, hasBit_eq_ok hp, ok_bind, decide_eq_true hbit, if_pos rfl, hindex, pure_eq_ok]
  · cases slot with
    | none => exact ⟨none, portNet_of_empty hp hbit hslot, rfl⟩
    | some i =>
      obtain ⟨q, hq, -⟩ := hn.coherent.filled hp hslot
      exact ⟨q.net, portNet_of_slot hp hbit hslot hq, pinNet_eq_ok hq⟩

theorem portAgrees {p : PortId} {r : PortRecord} (hp : n.store.ports p = some r) :
    n.PortAgrees p where
  name := by
    obtain ⟨text, htext⟩ := hn.exists_portName hp
    exact ⟨text, (portName_eq hp).trans (string_eq_ok htext)⟩
  block := by
    obtain ⟨b, hb, -⟩ := hn.coherent.owned hp
    exact ⟨r.owner, portBlock_eq_ok hp, Blocks.isLive_of_record? hb⟩
  bits := by
    refine ⟨r.width, portWidth_eq_ok hp, fun bit hbit => ?_⟩
    have hlt : bit < r.pins.length := hn.coherent.width hp ▸ hbit
    exact ⟨_, hn.bitAgrees hp hbit (List.getElem?_eq_getElem hlt)⟩
  pins := by
    refine ⟨_, portPins_eq_ok hp, (hn.pairwise_pins hp).imp ?_, fun i => ?_⟩
    · rintro i j ⟨q, t, hq, ht, hlt⟩
      exact ⟨q.bit, t.bit, pinBit_eq_ok hq, pinBit_eq_ok ht, hlt⟩
    · have hmem : i ∈ r.pins.filterMap id ↔ some i ∈ r.pins := by simp
      rw [hmem, hn.mem_pins_iff hp, hn.sized.isLive_pin_iff, pinPort_eq_ok_iff hn.sized]
      exact ⟨fun ⟨q, hq, hport⟩ => ⟨⟨q, hq⟩, q, hq, hport⟩, And.right⟩

theorem exists_pinBlock {i : PinId} {q : PinRecord} (hi : n.store.pins i = some q) :
    ∃ b ports, n.pinBlock i = .ok b ∧ n.IsLive b ∧ n.portsOf b = .ok ports ∧ q.port ∈ ports := by
  obtain ⟨t, ht, -⟩ := hn.coherent.placed hi
  obtain ⟨b, hb, hlisted⟩ := hn.coherent.owned ht
  exact ⟨t.owner, b.ports, pinBlock_eq_ok hi ht, Blocks.isLive_of_record? hb, portsOf_eq_ok hb,
    BlockRecord.mem_ports_iff.2 ⟨_, hlisted⟩⟩

theorem pinAgrees {i : PinId} {q : PinRecord} (hi : n.store.pins i = some q) : n.PinAgrees i where
  bit := ⟨q.bit, pinBit_eq_ok hi⟩
  role := ⟨q.role, pinRole_eq_ok hi⟩
  net := ⟨q.net, pinNet_eq_ok hi⟩
  block := by
    obtain ⟨b, ports, hb, hlive, hports, hmem⟩ := hn.exists_pinBlock hi
    exact ⟨q.port, b, ports, pinPort_eq_ok hi, hb, hlive, hports, hmem⟩

/-! ## Nets and their pins -/

/-- A pin is in a slot of a net for a role exactly if it tells to be on the net in that role. -/
theorem exists_slot_iff {e : NetId} {t : NetRecord} (he : n.store.nets e = some t) {i : PinId}
    {role : PinRole} : (∃ slot, t.pins[slot]? = some (some i) ∧ slotRole slot = role) ↔
      n.IsLive i ∧ n.pinRole i = .ok role ∧ n.pinNet i = .ok (some e) := by
  rw [hn.sized.isLive_pin_iff, pinRole_eq_ok_iff hn.sized, pinNet_eq_ok_iff hn.sized]
  constructor
  · rintro ⟨slot, hslot, rfl⟩
    obtain ⟨q, hq, hnet, hrole⟩ := hn.coherent.attached he hslot
    exact ⟨⟨q, hq⟩, ⟨q, hq, hrole⟩, q, hq, hnet⟩
  · rintro ⟨-, ⟨q, hq, rfl⟩, q', hq', hnet⟩
    obtain rfl : q = q' := Option.some.inj (hq.symm.trans hq')
    obtain ⟨t', ht', slot, hslot, hrole⟩ := hn.coherent.connected hq hnet
    obtain rfl : t = t' := Option.some.inj (he.symm.trans ht')
    exact ⟨slot, hslot, hrole⟩

theorem finds_netDriver {e : NetId} {t : NetRecord} (he : n.store.nets e = some t) :
    Finds (n.netDriver e) fun i =>
      n.IsLive i ∧ n.pinRole i = .ok .driver ∧ n.pinNet i = .ok (some e) := by
  refine ⟨_, netDriver_eq_ok he, fun i => ?_⟩
  rw [Option.join_eq_some_iff, List.head?_eq_getElem?]
  refine Iff.trans ?_ (hn.exists_slot_iff he)
  simp [slotRole]

theorem enumerates_netSinks {e : NetId} {t : NetRecord} (he : n.store.nets e = some t) :
    Enumerates (n.netSinks e) fun i =>
      n.IsLive i ∧ n.pinRole i = .ok .sink ∧ n.pinNet i = .ok (some e) := by
  refine ⟨_, netSinks_eq_ok he, ?_, fun i => ?_⟩
  · rw [List.Nodup, List.pairwise_filterMap, List.pairwise_iff_getElem]
    rintro j k hj hk hlt i hi _ hi' rfl
    rw [List.length_tail] at hj hk
    rw [id, List.getElem_tail] at hi hi'
    have hjk := hn.coherent.once he (List.getElem?_eq_some_iff.2 ⟨_, hi⟩)
      (List.getElem?_eq_some_iff.2 ⟨_, hi'⟩)
    exact Nat.ne_of_lt hlt (Nat.succ.inj hjk)
  · have hmem : i ∈ t.pins.tail.filterMap id ↔ some i ∈ t.pins.tail := by simp
    rw [hmem, List.mem_iff_getElem?]
    refine Iff.trans ?_ (hn.exists_slot_iff he)
    constructor
    · rintro ⟨slot, hslot⟩
      exact ⟨slot + 1, by rwa [List.getElem?_tail] at hslot, by simp [slotRole]⟩
    · rintro ⟨slot, hslot, hrole⟩
      obtain ⟨slot, rfl⟩ : ∃ s, slot = s + 1 := by
        refine Nat.exists_eq_succ_of_ne_zero ?_
        rintro rfl
        simp [slotRole] at hrole
      exact ⟨slot, by rwa [List.getElem?_tail]⟩

theorem netAgrees {e : NetId} {t : NetRecord} (he : n.store.nets e = some t) :
    n.NetAgrees e where
  name := by
    obtain ⟨text, htext⟩ := hn.exists_netName he
    exact ⟨text, (netName_eq he).trans (string_eq_ok htext)⟩
  driver := hn.finds_netDriver he
  sinks := hn.enumerates_netSinks he
  driverBlock := by
    cases hdriver : t.pins.head?.join with
    | none =>
      exact ⟨none, none, hdriver ▸ netDriver_eq_ok he, netDriverBlock_of_undriven he hdriver, rfl⟩
    | some i =>
      rw [Option.join_eq_some_iff, List.head?_eq_getElem?] at hdriver
      obtain ⟨q, hq, -⟩ := hn.coherent.attached he hdriver
      obtain ⟨b, -, hb, -⟩ := hn.exists_pinBlock hq
      rw [← List.head?_eq_getElem?, ← Option.join_eq_some_iff] at hdriver
      exact ⟨some i, some b, hdriver ▸ netDriver_eq_ok he, netDriverBlock_of_driver he hdriver hb,
        congrArg some hb.symm⟩

end Consistent

/-! ## All queries -/

/-- In every reachable netlist the index and the references give the same answers to all queries, and no
query of a live entity faults: blocks and nets are found by the names that they tell, and every live
block, port, pin and net agrees with what refers to it. -/
theorem queries_agree (hn : n.Reachable) :
    (∀ text b, n.block? text = some b ↔ n.IsLive b ∧ n.blockName b = .ok text) ∧
    (∀ text e, n.net? text = some e ↔ n.IsLive e ∧ n.netName e = .ok text) ∧
    (∀ b : BlockId, n.IsLive b → n.BlockAgrees b) ∧ (∀ p : PortId, n.IsLive p → n.PortAgrees p) ∧
    (∀ i : PinId, n.IsLive i → n.PinAgrees i) ∧ ∀ e : NetId, n.IsLive e → n.NetAgrees e := by
  have hc := hn.consistent
  refine ⟨fun text b => ?_, fun text e => ?_, fun b hl => ?_, fun p hl => ?_, fun i hl => ?_,
    fun e hl => ?_⟩
  · rw [hc.block?_eq_some_iff, hc.sized.isLive_block_iff, blockName_eq_ok_iff hc.sized]
    exact ⟨fun ⟨r, hr, htext⟩ => ⟨⟨r, hr⟩, r, hr, htext⟩, And.right⟩
  · rw [hc.net?_eq_some_iff, hc.sized.isLive_net_iff, netName_eq_ok_iff hc.sized]
    exact ⟨fun ⟨r, hr, htext⟩ => ⟨⟨r, hr⟩, r, hr, htext⟩, And.right⟩
  · obtain ⟨r, hr⟩ := hc.sized.isLive_block_iff.1 hl
    exact hc.blockAgrees hr
  · obtain ⟨r, hr⟩ := hc.sized.isLive_port_iff.1 hl
    exact hc.portAgrees hr
  · obtain ⟨q, hq⟩ := hc.sized.isLive_pin_iff.1 hl
    exact hc.pinAgrees hq
  · obtain ⟨t, ht⟩ := hc.sized.isLive_net_iff.1 hl
    exact hc.netAgrees ht

/-- A block is removed, another one gets its name and drives a net of its own, and compaction gives it
the handle of the first one. -/
def reusedName : List Edit :=
  let buffer : Model := { name := "buf", ports := [.input "i" 1, .output "o" 1] }
  [.createBlock "a" buffer [], .createPort ⟨0⟩ "o", .removeBlock ⟨0⟩, .createBlock "a" buffer [],
    .createPort ⟨1⟩ "i", .createPort ⟨1⟩ "o", .createNet "x", .createPin ⟨1⟩ 0 (some ⟨0⟩) .sink,
    .createPin ⟨2⟩ 0 (some ⟨0⟩) .driver, .compact]

theorem queries_agree_reusedName :
    (Edit.run (.new "top") reusedName).block? "a" = some ⟨0⟩ ∧
    (Edit.run (.new "top") reusedName).PortAgrees ⟨1⟩ ∧
    (Edit.run (.new "top") reusedName).NetAgrees ⟨0⟩ := by
  obtain ⟨hblock, -, -, hport, -, hnet⟩ := queries_agree ((Reachable.new "top").run reusedName)
  exact ⟨(hblock "a" ⟨0⟩).2 ⟨rfl, by decide +kernel⟩, hport ⟨1⟩ rfl, hnet ⟨0⟩ rfl⟩

end Netlist

end MappedNetlist
