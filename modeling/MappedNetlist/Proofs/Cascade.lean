import MappedNetlist.Proofs.Frame
import MappedNetlist.Proofs.Invariance
import MappedNetlist.Proofs.Twin.Loss

/-!
# The cascade of a removed block

With a block its live ports are removed, and with these their pins, while the nets of the pins stay.
`Netlist.Cascades` says that the removal takes exactly that: what is within the block is gone, the
slots of its pins on nets are empty, and whatever else there is keeps its record.
-/

namespace MappedNetlist.Netlist

/-- The block `b` itself, its ports, and the pins of these. -/
inductive Within (n : Netlist) (b : BlockId) : {k : Kind} → Handle k → Prop
  | block : n.Within b b
  | port {p : PortId} (h : n.portBlock p = .ok b) : n.Within b p
  | pin {i : PinId} {p : PortId} (hi : n.pinPort i = .ok p) (h : n.portBlock p = .ok b) :
    n.Within b i

variable {n m : Netlist} {b : BlockId}

theorem not_within_net {e : NetId} : ¬n.Within b e := by rintro ⟨⟩

/-- What is within a block is what is lost with it. -/
theorem Consistent.within_iff (hn : n.Consistent) {k : Kind} {a : Handle k} (ha : n.IsLive a) :
    n.Within b a ↔ (Loss.ofBlocks n.store (· == b)).takes a = true := by
  cases k with
  | block =>
    constructor
    · rintro ⟨⟩
      simp [Loss.takes, Loss.ofBlocks]
    · intro h
      obtain rfl : a = b := by simpa [Loss.takes, Loss.ofBlocks] using h
      exact .block
  | port =>
    obtain ⟨r, hr⟩ := hn.sized.isLive_port_iff.1 ha
    have htakes : (Loss.ofBlocks n.store (· == b)).takes a = true ↔ r.owner = b := by
      simp [Loss.takes, Loss.ofBlocks, hr]
    rw [htakes, ← Except.ok.injEq (ε := Fault), ← portBlock_eq_ok hr]
    exact ⟨fun h => by cases h with | port h => exact h, .port⟩
  | pin =>
    obtain ⟨r, hr⟩ := hn.sized.isLive_pin_iff.1 ha
    obtain ⟨q, hq, -⟩ := hn.coherent.placed hr
    have htakes : (Loss.ofBlocks n.store (· == b)).takes a = true ↔ q.owner = b := by
      simp [Loss.takes, Loss.ofBlocks, hr, hq]
    rw [htakes]
    constructor
    · rintro (_ | _ | ⟨hi, h⟩)
      rw [pinPort_eq_ok hr, Except.ok.injEq] at hi
      rw [← hi, portBlock_eq_ok hq, Except.ok.injEq] at h
      exact h
    · rintro rfl
      exact .pin (pinPort_eq_ok hr) (portBlock_eq_ok hq)
  | net => simp [Loss.takes, Loss.ofBlocks, not_within_net]

/-- `m` is `n` without the block `b`. -/
structure Cascades (n m : Netlist) (b : BlockId) : Prop where
  retires : n.Retires m (n.Within b)
  /-- No net is removed. -/
  net_isLive_iff (e : NetId) : m.IsLive e ↔ n.IsLive e
  /-- Of a net the slots stay. Those of the pins that are removed are empty. -/
  slots {e : NetId} {slots : List (Option PinId)} : n.netSlots e = .ok slots →
    m.netSlots e = .ok (clear (fun i => ¬m.IsLive i) slots)
  driver {e : NetId} {driver : Option PinId} : n.netDriver e = .ok driver →
    m.netDriver e = .ok (driver.filter fun i => m.IsLive i)
  sinks {e : NetId} {sinks : List PinId} : n.netSinks e = .ok sinks →
    m.netSinks e = .ok (sinks.filter fun i => m.IsLive i)
  netName (e : NetId) : m.netName e = n.netName e
  /-- What else is live keeps its record, and so does a net that none of the removed pins is on. -/
  record {k : Kind} {a : Handle k} : k ≠ .net → m.IsLive a → m.store.record? a = n.store.record? a
  net {e : NetId} : (∀ i, n.Within b i → n.pinNet i ≠ .ok (some e)) →
    m.store.nets e = n.store.nets e
  dirty : m.dirty = true

section Cascades

variable (hn : n.Consistent) (h : n.Shrinks m (.ofBlocks n.store (· == b)))
include hn h

/-- The slots of a net after a block was removed. -/
theorem Shrinks.nets_of_ofBlocks {e : NetId} {r : NetRecord} (he : n.store.nets e = some r) :
    m.store.nets e = some (r.clear fun i => ¬m.IsLive i) := by
  rw [h.store]
  refine Store.without_nets_eq_some_iff.2 ⟨rfl, r, he, NetRecord.ext rfl ?_⟩
  refine clear_congr fun i hi => ?_
  obtain ⟨slot, hslot⟩ := List.mem_iff_getElem?.1 hi
  obtain ⟨q, hq, -⟩ := hn.coherent.attached he hslot
  have hi : n.IsLive i := Pins.isLive_of_record? hq
  simp [h.isLive_iff hn.sized, hi, Loss.takes, Loss.ofBlocks]

/-- What is left outside the block keeps its record. -/
theorem Shrinks.record?_of_ofBlocks {k : Kind} {a : Handle k} (hk : k ≠ .net) (ha : m.IsLive a) :
    m.store.record? a = n.store.record? a := by
  have hkept := ((h.isLive_iff hn.sized).1 ha).2
  rw [h.store]
  cases k with
  | block => exact Store.without_blocks_of_kept hkept
  | port =>
    refine hn.coherent.without_ports_of_kept hkept fun {i r} hi hport => ?_
    -- a pin goes only with its port
    simpa [Loss.ofBlocks, Loss.takes, hi, hport] using hkept
  | pin => exact Store.without_pins_of_kept hkept fun _ _ => ⟨rfl, rfl⟩
  | net => exact absurd rfl hk

theorem Shrinks.cascades (hb : n.IsLive b) : n.Cascades m b where
  retires := h.retires hn hn.within_iff
  net_isLive_iff e := by
    rw [h.isLive_iff hn.sized]
    exact and_iff_left rfl
  slots {e slots} hslots := by
    obtain ⟨r, hr, rfl⟩ := (netSlots_eq_ok_iff hn.sized).1 hslots
    exact netSlots_eq_ok (h.nets_of_ofBlocks hn hr)
  driver {e driver} hdriver := by
    obtain ⟨r, hr, rfl⟩ := (netDriver_eq_ok_iff hn.sized).1 hdriver
    rw [netDriver_eq_ok (h.nets_of_ofBlocks hn hr), Except.ok.injEq]
    simpa [NetRecord.driver] using r.driver_clear fun i => ¬m.IsLive i
  sinks {e sinks} hsinks := by
    obtain ⟨r, hr, rfl⟩ := (netSinks_eq_ok_iff hn.sized).1 hsinks
    rw [netSinks_eq_ok (h.nets_of_ofBlocks hn hr), Except.ok.injEq]
    simpa [NetRecord.sinks] using r.sinks_clear fun i => ¬m.IsLive i
  netName e := by
    by_cases he : n.IsLive e
    · obtain ⟨r, hr⟩ := hn.sized.isLive_net_iff.1 he
      rw [netName_eq (h.nets_of_ofBlocks hn hr), netName_eq hr, string, string, h.strings]
      rfl
    · have he' : ¬m.IsLive e := fun hl => he ((h.isLive_iff hn.sized).1 hl).1
      rw [netName, netName, require_of_dead he, require_of_dead he']
      rfl
  record := h.record?_of_ofBlocks hn
  net {e} he := by
    rw [h.store]
    refine hn.coherent.without_nets_of_kept rfl fun {i r} hi hnet => ⟨?_, rfl⟩
    by_contra htaken
    have hwithin : n.Within b i :=
      (hn.within_iff (Pins.isLive_of_record? hi)).2 (by simpa [Loss.takes] using htaken)
    exact he i hwithin ((pinNet_eq_ok hi).trans (by rw [hnet]))
  dirty := by
    refine h.dirty_of_ne fun heq => ?_
    have hgone := (h.isLive_iff hn.sized (x := b)).1 (heq ▸ hb)
    simp [Loss.ofBlocks, Loss.takes] at hgone

end Cascades

/-- The removal of a live block takes the block, its live ports and the pins of these, and nothing
else. Nets only lose the pins that are removed, whose slots stay, empty. -/
theorem removeBlock_cascades {n : Netlist} (hn : n.Reachable) {b : BlockId} (hb : n.IsLive b) :
    ∃ m es, n.removeBlock b = .ok (m, es) ∧ n.Cascades m b := by
  obtain ⟨m, es, hremove, hm⟩ := exists_removeBlock hn.consistent hb
  exact ⟨m, es, hremove, hm.cascades hn.consistent hb⟩

/-- A block that drives two of its own inputs and one of another block, and that goes on listing a
port which was swept. -/
def fedBack : List Edit :=
  let cell : Model := { name := "cell", ports := [.output "o" 1, .input "i" 2, .output "spare" 1] }
  [.createBlock "a" cell [], .createBlock "b" cell [], .createPort ⟨0⟩ "o", .createPort ⟨0⟩ "i",
    .createPort ⟨0⟩ "spare", .createPort ⟨1⟩ "i", .createNet "x",
    .createPin ⟨0⟩ 0 (some ⟨0⟩) .driver, .createPin ⟨1⟩ 0 (some ⟨0⟩) .sink,
    .createPin ⟨3⟩ 0 (some ⟨0⟩) .sink, .createPin ⟨1⟩ 1 (some ⟨0⟩) .sink, .sweep]

theorem removeBlock_cascades_fedBack : ∃ m es,
    (Edit.run (.new "top") fedBack).removeBlock ⟨0⟩ = .ok (m, es) ∧
      (Edit.run (.new "top") fedBack).Cascades m ⟨0⟩ ∧
      m.netSlots ⟨0⟩ = .ok [none, none, some ⟨2⟩, none] := by
  obtain ⟨m, es, hremove, hm⟩ := removeBlock_cascades ((Reachable.new "top").run fedBack)
    (show (Edit.run (.new "top") fedBack).IsLive (⟨0⟩ : BlockId) by decide +kernel)
  refine ⟨m, es, hremove, hm, ?_⟩
  have hslots : ((Edit.run (.new "top") fedBack).removeBlock ⟨0⟩).toOption.bind
      (fun r => (r.1.netSlots ⟨0⟩).toOption) = some [none, none, some ⟨2⟩, none] := by
    decide +kernel
  rw [hremove] at hslots
  cases hm' : m.netSlots ⟨0⟩ <;> simp_all [Except.toOption]

/-- The block lists the port that was swept, and all its pins are on one net. -/
example : ((Edit.run (.new "top") fedBack).portsOf ⟨0⟩).toOption = some [⟨1⟩, ⟨0⟩, ⟨2⟩] ∧
    ¬(Edit.run (.new "top") fedBack).IsLive (⟨2⟩ : PortId) ∧
    ((Edit.run (.new "top") fedBack).netSlots ⟨0⟩).toOption =
      some [some ⟨0⟩, some ⟨1⟩, some ⟨2⟩, some ⟨3⟩] := by
  decide +kernel

end MappedNetlist.Netlist
