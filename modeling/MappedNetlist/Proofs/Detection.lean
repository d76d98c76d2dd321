import MappedNetlist.Proofs.Invariance
import MappedNetlist.Proofs.Redundancy
import MappedNetlist.Proofs.Verdict

/-!
# Verification detects damage

`Damage.Corrupts` lists the single changes that contradict something else in a netlist: another
entry where a column is guarded, another pin at a bit of a port or in a slot of a net, a port that
its owner does not list any more or that another block lists, any change to a lookup, and any change
to the length of a column. Whatever the wrong entry is, verification reports a consistent netlist
that suffered one of them, and it never faults on the way.
-/

namespace MappedNetlist

/-- The change makes a difference to the lookup. -/
def LookupChange.Alters {κ : Type} [Ord κ] [Std.TransOrd κ] {k : Kind} (m : Lookup κ k) :
    LookupChange κ k → Prop
  | clear => m ≠ ∅
  | remove key => ∃ h, m[key]? = some h
  | insert key h => m[key]? ≠ some h

theorem LookupChange.Alters.apply_ne {κ : Type} [Ord κ] [Std.TransOrd κ] {k : Kind} {m : Lookup κ k}
    {change : LookupChange κ k} (h : change.Alters m) : change.apply m ≠ m := by
  cases change with
  | clear => exact Ne.symm h
  | remove key =>
    obtain ⟨x, hx⟩ := h
    intro heq
    have hnone : (m.erase key)[key]? = none := Std.ExtTreeMap.getElem?_erase_self
    rw [show m.erase key = m from heq, hx] at hnone
    cases hnone
  | insert key x =>
    intro heq
    have hsome : (m.insert key x)[key]? = some x := Std.ExtTreeMap.getElem?_insert_self
    rw [show m.insert key x = m from heq] at hsome
    exact h hsome

/-- The damage contradicts something else in the netlist. -/
inductive Damage.Corrupts (n : Netlist) : Damage → Prop
  /-- Another entry at a guarded position. -/
  | entry {a : Attribute} {i : Nat} {old new : a.Entry} (hold : (n.column a)[i]? = some old)
      (hg : a.Guarded n i) (hne : new ≠ old) : Corrupts n (.column a (.set i new))
  /-- Another pin, or none any more, at a bit of a live port. -/
  | bit {p : PortId} {row : List (Option PinId)} {bit : Nat} {old new : Option PinId}
      (hp : n.IsLive p) (hrow : n.ports.pins[p.index]? = some row) (hold : row[bit]? = some old)
      (hne : new ≠ old) : Corrupts n (.column .portPins (.set p.index (row.set bit new)))
  /-- Another pin, or none any more, in a slot of a live net. -/
  | slot {e : NetId} {slots : List (Option PinId)} {slot : Nat} {old new : Option PinId}
      (he : n.IsLive e) (hslots : n.nets.pins[e.index]? = some slots)
      (hold : slots[slot]? = some old) (hne : new ≠ old) :
      Corrupts n (.column .netPins (.set e.index (slots.set slot new)))
  /-- A live port that its owner listed once is listed no more. -/
  | unlisted {b : BlockId} {c : PortClass} {p : PortId} {before after : List PortId}
      (hlist : (n.blocks.listed c)[b.index]? = some (before ++ p :: after))
      (hp : n.portBlock p = .ok b) (honce : p ∉ before ++ after) :
      Corrupts n (.column (.blockPorts c) (.set b.index (before ++ after)))
  /-- A live block lists a live port that it does not own. -/
  | listed {b : BlockId} {c : PortClass} {p : PortId} {before after : List PortId}
      (hb : n.IsLive b) (hlist : (n.blocks.listed c)[b.index]? = some (before ++ after))
      (hp : n.IsLive p) (howner : n.portBlock p ≠ .ok b) :
      Corrupts n (.column (.blockPorts c) (.set b.index (before ++ p :: after)))
  /-- One entry more in a column. -/
  | push {a : Attribute} (new : a.Entry) : Corrupts n (.column a (.push new))
  /-- One entry less in a column. -/
  | pop {a : Attribute} (h : n.column a ≠ #[]) : Corrupts n (.column a .pop)
  | blockLookup {change : LookupChange StringId .block} (h : change.Alters n.index.blocks) :
      Corrupts n (.blockLookup change)
  | portLookup {change : LookupChange PortKey .port} (h : change.Alters n.index.ports) :
      Corrupts n (.portLookup change)
  | pinLookup {change : LookupChange BitKey .pin} (h : change.Alters n.index.pins) :
      Corrupts n (.pinLookup change)
  | netLookup {change : LookupChange StringId .net} (h : change.Alters n.index.nets) :
      Corrupts n (.netLookup change)

namespace Netlist

variable {n m : Netlist} {d : Damage}

/-! ## Rows -/

/-- Rows that are as long as the widths can be read, whatever the pins tell. -/
theorem Consistent.readable_of_ports_eq (hn : n.Consistent) (h : m.ports = n.ports) :
    m.Readable := by
  intro i r q _ hq hbit
  rw [store_ports, h] at hq
  rwa [hn.coherent.width hq]

/-- Pins that stand within the rows find their slots, whatever the widths tell. -/
theorem Consistent.readable_of_pins_eq (hn : n.Consistent) (h : m.pins = n.pins)
    (hrows : ∀ i : Nat, (m.ports.pins[i]?).map List.length = (n.ports.pins[i]?).map List.length) :
    m.Readable := by
  intro i r q hr hq _
  rw [store_pins, h] at hr
  obtain ⟨q', hq', -, hslot⟩ := hn.coherent.placed hr
  obtain ⟨-, -, -, -, -, hrow⟩ := Ports.record?_eq_some_iff.1 hq
  obtain ⟨-, -, -, -, -, hrow'⟩ := Ports.record?_eq_some_iff.1 hq'
  have hlength := hrows r.port.index
  rw [hrow, hrow', Option.map_some, Option.map_some, Option.some.injEq] at hlength
  rw [hlength]
  exact (List.getElem?_eq_some_iff.1 hslot).1

/-! ## What contradicts the damage -/

/-- The other columns or the index have the old entry. -/
theorem Consistent.not_consistent_entry (hn : n.Consistent) {a : Attribute} {i : Nat}
    {old new : a.Entry} (hold : (n.column a)[i]? = some old) (hg : a.Guarded n i)
    (hne : new ≠ old) : ¬(n.damage (.column a (.set i new))).Consistent := fun hm => by
  have hget := (n.agreesBut_setColumn a ((n.column a).setIfInBounds i new)).getElem?_eq hn hm hg
  have hlt := (Array.getElem?_eq_some_iff.1 hold).1
  rw [column_setColumn, Array.getElem?_setIfInBounds_self_of_lt hlt, hold,
    Option.some.injEq] at hget
  exact hne hget

/-- The pins tell where they stand. -/
theorem Consistent.not_consistent_bit (hn : n.Consistent) {p : PortId} {row : List (Option PinId)}
    {bit : Nat} {old new : Option PinId} (hp : n.IsLive p)
    (hrow : n.ports.pins[p.index]? = some row) (hold : row[bit]? = some old) (hne : new ≠ old) :
    ¬(n.damage (.column .portPins (.set p.index (row.set bit new)))).Consistent := fun hm => by
  obtain ⟨q, hq⟩ := hn.sized.isLive_port_iff.1 hp
  obtain ⟨-, -, -, -, -, hrow'⟩ := Ports.record?_eq_some_iff.1 hq
  obtain rfl : row = q.pins := Option.some.inj (hrow.symm.trans hrow')
  have hr := congrFun (Ports.record?_setPins n.ports p (q.pins.set bit new)) p
  rw [Function.update_self, ← store_ports, hq] at hr
  refine hne (hn.bit_eq hm rfl hq hr hold ?_)
  exact List.getElem?_set_self (List.getElem?_eq_some_iff.1 hold).1

/-- The pins tell which net they are on, and each of them is in one slot. -/
theorem Consistent.not_consistent_slot (hn : n.Consistent) {e : NetId}
    {slots : List (Option PinId)} {slot : Nat} {old new : Option PinId} (he : n.IsLive e)
    (hslots : n.nets.pins[e.index]? = some slots) (hold : slots[slot]? = some old)
    (hne : new ≠ old) :
    ¬(n.damage (.column .netPins (.set e.index (slots.set slot new)))).Consistent := fun hm => by
  obtain ⟨t, ht⟩ := hn.sized.isLive_net_iff.1 he
  obtain ⟨-, -, hslots'⟩ := Nets.record?_eq_some_iff.1 ht
  obtain rfl : slots = t.pins := Option.some.inj (hslots.symm.trans hslots')
  have hu := congrFun (Nets.record?_setPins n.nets e (t.pins.set slot new)) e
  rw [Function.update_self, ← store_nets, ht] at hu
  refine hne (hn.slot_eq hm rfl ht hu (fun j hj => ?_) hold ?_)
  · exact List.getElem?_set_ne (Ne.symm hj)
  · exact List.getElem?_set_self (List.getElem?_eq_some_iff.1 hold).1

/-- The port tells that it belongs to the block. -/
theorem Consistent.not_consistent_unlisted (hn : n.Consistent) {b : BlockId} {c : PortClass}
    {p : PortId} {before after : List PortId}
    (hlist : (n.blocks.listed c)[b.index]? = some (before ++ p :: after))
    (hp : n.portBlock p = .ok b) (honce : p ∉ before ++ after) :
    ¬(n.damage (.column (.blockPorts c) (.set b.index (before ++ after)))).Consistent := by
  intro hm
  obtain ⟨q, hq, rfl⟩ := (portBlock_eq_ok_iff hn.sized).1 hp
  obtain ⟨r, hr, -⟩ := hn.coherent.owned hq
  have hlist' := (Blocks.record?_eq_some_iff.1 hr).2.2.2.2 c
  rw [hlist, Option.some.injEq] at hlist'
  have hmem : p ∈ r.listed c := hlist' ▸ List.mem_append_right before List.mem_cons_self
  obtain rfl : q.portClass = c := ((hn.coherent.listed hr hmem).2 q hq).2
  have hr' := congrFun (Blocks.record?_setListed n.blocks q.owner (before ++ after) q.portClass)
    q.owner
  rw [Function.update_self, ← store_blocks, hr] at hr'
  obtain ⟨t, ht, hlisted⟩ := hm.coherent.owned hq
  obtain rfl := Option.some.inj (ht.symm.trans hr')
  exact honce (by simpa using hlisted)

/-- The port tells that it belongs to another block. -/
theorem Consistent.not_consistent_listed (hn : n.Consistent) {b : BlockId} {c : PortClass}
    {p : PortId} {list : List PortId} (hb : n.IsLive b) (hp : n.IsLive p)
    (howner : n.portBlock p ≠ .ok b) (hmem : p ∈ list) :
    ¬(n.damage (.column (.blockPorts c) (.set b.index list))).Consistent := fun hm => by
  obtain ⟨q, hq⟩ := hn.sized.isLive_port_iff.1 hp
  obtain ⟨r, hr⟩ := hn.sized.isLive_block_iff.1 hb
  have hr' := congrFun (Blocks.record?_setListed n.blocks b list c) b
  rw [Function.update_self, ← store_blocks, hr] at hr'
  have hlisted := hm.coherent.listed hr' (c := c) (p := p) (by simpa using hmem)
  exact howner ((portBlock_eq_ok_iff hn.sized).2 ⟨q, hq, (hlisted.2 q hq).1⟩)

/-! ## Lengths -/

/-- A column that is not the only one of its kind cannot change its length. -/
theorem Sized.size_apply (hn : n.Sized) {a : Attribute} {change : ColumnChange a.Entry}
    (hm : (n.damage (.column a change)).Sized) :
    (change.apply (n.column a)).size = (n.column a).size := by
  have hsize := (n.agreesBut_setColumn a (change.apply (n.column a))).size_eq hn hm
  rwa [column_setColumn] at hsize

theorem Sized.not_sized_push (hn : n.Sized) {a : Attribute} (new : a.Entry) :
    ¬(n.damage (.column a (.push new))).Sized := fun hm => by
  have hsize := hn.size_apply hm
  rw [ColumnChange.apply, Array.size_push] at hsize
  omega

theorem Sized.not_sized_pop (hn : n.Sized) {a : Attribute} (h : n.column a ≠ #[]) :
    ¬(n.damage (.column a .pop)).Sized := fun hm => by
  have hsize := hn.size_apply hm
  rw [ColumnChange.apply, Array.size_pop] at hsize
  exact h (Array.eq_empty_of_size_eq_zero (by omega))

end Netlist

/-! ## All damage -/

namespace Damage.Corrupts

open Netlist

variable {n : Netlist} {d : Damage}

/-- No damage to the pins or to the ports leads a pin to a slot that its port does not have. -/
theorem readable (hd : d.Corrupts n) (hn : n.Consistent) (hm : (n.damage d).Sized) :
    (n.damage d).Readable := by
  cases hd with
  | @entry a i old new hold hg hne =>
    have h := n.agreesBut_setColumn a ((n.column a).setIfInBounds i new)
    by_cases ha : a.kind = .pin
    · exact hn.readable_of_ports_eq (h.ports_eq (by rw [ha]; nofun))
    · have hrows : (n.setColumn a ((n.column a).setIfInBounds i new)).ports.pins = n.ports.pins :=
        h.column (b := .portPins) (by rintro rfl; exact hg)
      exact hn.readable_of_pins_eq (h.pins_eq ha) fun j => by rw [← hrows]; rfl
  | @bit p row bit old new hp hrow hold hne =>
    refine hn.readable_of_pins_eq rfl fun j => ?_
    change ((n.ports.pins.setIfInBounds p.index (row.set bit new))[j]?).map List.length = _
    by_cases hj : p.index = j
    · subst hj
      rw [Array.getElem?_setIfInBounds_self_of_lt (Array.getElem?_eq_some_iff.1 hrow).1, hrow]
      simp
    · rw [Array.getElem?_setIfInBounds_ne hj]
  | slot => exact hn.readable_of_ports_eq rfl
  | unlisted => exact hn.readable_of_ports_eq rfl
  | listed => exact hn.readable_of_ports_eq rfl
  | push new => exact absurd hm (hn.sized.not_sized_push new)
  | pop h => exact absurd hm (hn.sized.not_sized_pop h)
  | blockLookup => exact hn.readable_of_ports_eq rfl
  | portLookup => exact hn.readable_of_ports_eq rfl
  | pinLookup => exact hn.readable_of_ports_eq rfl
  | netLookup => exact hn.readable_of_ports_eq rfl

theorem not_consistent (hd : d.Corrupts n) (hn : n.Consistent) : ¬(n.damage d).Consistent := by
  cases hd with
  | entry hold hg hne => exact hn.not_consistent_entry hold hg hne
  | bit hp hrow hold hne => exact hn.not_consistent_bit hp hrow hold hne
  | slot he hslots hold hne => exact hn.not_consistent_slot he hslots hold hne
  | unlisted hlist hp honce => exact hn.not_consistent_unlisted hlist hp honce
  | listed hb hlist hp howner => exact hn.not_consistent_listed hb hp howner (by simp)
  | push new => exact fun hm => hn.sized.not_sized_push new hm.sized
  | pop h => exact fun hm => hn.sized.not_sized_pop h hm.sized
  | blockLookup h => exact fun hm => h.apply_ne (congrArg Index.blocks (hm.indexed.eq hn.indexed))
  | portLookup h => exact fun hm => h.apply_ne (congrArg Index.ports (hm.indexed.eq hn.indexed))
  | pinLookup h => exact fun hm => h.apply_ne (congrArg Index.pins (hm.indexed.eq hn.indexed))
  | netLookup h => exact fun hm => h.apply_ne (congrArg Index.nets (hm.indexed.eq hn.indexed))

end Damage.Corrupts

namespace Netlist

/-- If verification finds nothing in a netlist, it reports the netlist after any damage that
contradicts something else in it. -/
theorem verify_detects {n : Netlist} {d : Damage} (hn : n.verify = .ok (none, []))
    (hd : d.Corrupts n) : ∃ found events, (n.damage d).verify = .ok (some found, events) :=
  verify_of_not_consistent (hd.readable (consistent_of_verify hn))
    (hd.not_consistent (consistent_of_verify hn))

/-- One block drives another, and a third one is removed. -/
def chained : List Edit :=
  let buffer : Model := { name := "buf", ports := [.input "i" 1, .output "o" 1] }
  [.createBlock "drv" buffer [], .createBlock "load" buffer [], .createBlock "spare" buffer [],
    .createPort ⟨0⟩ "o", .createPort ⟨1⟩ "i", .createNet "x",
    .createPin ⟨0⟩ 0 (some ⟨0⟩) .driver, .createPin ⟨1⟩ 0 (some ⟨0⟩) .sink, .removeBlock ⟨2⟩]

/-- The pin that drives the net takes the place of the one that it drives; the removed block is
back. -/
theorem verify_detects_chained :
    (Edit.run (.new "top") chained).verify = .ok (none, []) ∧
    (∃ found events, ((Edit.run (.new "top") chained).damage
      (.column .netPins (.set 0 [some ⟨0⟩, some ⟨0⟩]))).verify = .ok (some found, events)) ∧
    ∃ found events, ((Edit.run (.new "top") chained).damage
      (.column .blockSlot (.set 2 (some ⟨2⟩)))).verify = .ok (some found, events) := by
  have hn := ((Reachable.new "top").run chained).consistent.verify_eq_ok
  have hslots : (Edit.run (.new "top") chained).nets.pins[(⟨0⟩ : NetId).index]? =
      some [some ⟨0⟩, some ⟨1⟩] := by decide +kernel
  have hslot : [some (⟨0⟩ : PinId), some ⟨1⟩][1]? = some (some ⟨1⟩) := rfl
  have hold : ((Edit.run (.new "top") chained).column .blockSlot)[2]? = some none := rfl
  exact ⟨hn, verify_detects hn (.slot (by decide +kernel) hslots hslot (by decide)),
    verify_detects hn (.entry hold trivial nofun)⟩

end Netlist

end MappedNetlist
