import MappedNetlist.Proofs.Confluence
import MappedNetlist.Proofs.Frame
import MappedNetlist.Proofs.Idempotence

/-!
# One sweep is enough

A sweep empties the slots of the unused ports and blocks, takes them out of the index, and writes
nothing else: `Netlist.Sweeps` compares all columns, those of removed entities included. A block
that lists a live port with a pin keeps it, and a port with a pin is kept, so what the sweep leaves
is used, and a second sweep finds nothing.
-/

namespace MappedNetlist

/-- The slot of a dead handle that was issued is empty. -/
theorem Slots.Placed.getElem?_of_dead {k : Kind} {s : Slots k} (hs : s.Placed) {a : Handle k}
    (ha : ¬s.IsLive a) (hlt : a.index < s.size) : s[a.index]? = some none := by
  obtain ⟨slot, hslot⟩ := Column.exists_getElem? hlt
  cases slot with
  | none => exact hslot
  | some b =>
    have hb : b.index = a.index := hs a.index b hslot
    obtain rfl : b = a := by cases a; cases b; simp_all
    exact absurd hslot ha

namespace Netlist

variable {n m : Netlist} {d : Loss}

/-- A port without a pin, or a block that lists ports but none that is live and has a pin. -/
inductive Unused (n : Netlist) : {k : Kind} → Handle k → Prop
  | port {p : PortId} (h : n.portPins p = .ok []) : n.Unused p
  | block {b : BlockId} {ports : List PortId} (h : n.portsOf b = .ok ports) (hne : ports ≠ [])
    (hbare : ∀ p ∈ ports, n.IsLive p → n.portPins p = .ok []) : n.Unused b

theorem not_unused_pin {i : PinId} : ¬n.Unused i := by rintro ⟨⟩

theorem not_unused_net {e : NetId} : ¬n.Unused e := by rintro ⟨⟩

theorem portPins_eq_nil_iff {p : PortId} {r : PortRecord} (hp : n.store.ports p = some r) :
    n.portPins p = .ok [] ↔ r.bare = true := by
  rw [portPins_eq_ok hp, Except.ok.injEq, PortRecord.bare_iff, List.eq_nil_iff_forall_not_mem]
  simp

/-- What is unused is what a sweep takes. -/
theorem Consistent.unused_iff (hn : n.Consistent) {k : Kind} {a : Handle k} (ha : n.IsLive a) :
    n.Unused a ↔ n.store.unused.takes a = true := by
  cases k with
  | block =>
    obtain ⟨r, hr⟩ := hn.sized.isLive_block_iff.1 ha
    have hall (p : PortId) : (n.store.ports p).all PortRecord.bare = true ↔
        (n.IsLive p → n.portPins p = .ok []) := by
      rw [hn.sized.isLive_port_iff]
      cases hp : n.store.ports p with
      | none => simp
      | some q => simp [portPins_eq_nil_iff hp]
    have htakes : n.store.unused.takes a = true ↔
        r.ports ≠ [] ∧ ∀ p ∈ r.ports, n.IsLive p → n.portPins p = .ok [] := by
      simp only [Loss.takes, Store.unused, hr, Option.any_some, Bool.and_eq_true,
        decide_eq_true_eq, List.all_eq_true, hall]
    rw [htakes]
    constructor
    · rintro (_ | ⟨h, hne, hbare⟩)
      rw [portsOf_eq_ok hr, Except.ok.injEq] at h
      exact h ▸ ⟨hne, hbare⟩
    · rintro ⟨hne, hbare⟩
      exact .block (portsOf_eq_ok hr) hne hbare
  | port =>
    obtain ⟨r, hr⟩ := hn.sized.isLive_port_iff.1 ha
    have htakes : n.store.unused.takes a = true ↔ r.bare = true := by
      simp [Loss.takes, Store.unused, hr]
    rw [htakes, ← portPins_eq_nil_iff hr]
    exact ⟨fun h => by cases h with | port h => exact h, .port⟩
  | pin => simp [Loss.takes, Store.unused, not_unused_pin]
  | net => simp [Loss.takes, Store.unused, not_unused_net]

theorem Unused.isLive (hn : n.Consistent) {k : Kind} {a : Handle k} (h : n.Unused a) :
    n.IsLive a := by
  cases h with
  | port h =>
    by_contra hl
    rw [portPins, require_of_dead hl] at h
    cases h
  | block h =>
    obtain ⟨r, hr, -⟩ := (portsOf_eq_ok_iff hn.sized).1 h
    exact Blocks.isLive_of_record? hr

/-! ## Columns -/

namespace Shrinks

variable (hn : n.Consistent) (h : n.Shrinks m d)
include hn h

/-- A slot whose entity is not taken is as before. -/
theorem getElem?_slots {k : Kind} {a : Handle k} (ha : n.IsLive a → d.takes a = false) :
    (m.slots k)[a.index]? = (n.slots k)[a.index]? := by
  by_cases hl : n.IsLive a
  · exact ((h.isLive_iff hn.sized).2 ⟨hl, ha hl⟩).trans hl.symm
  · have hl' : ¬m.IsLive a := fun hm => hl ((h.isLive_iff hn.sized).1 hm).1
    by_cases hlt : a.index < (n.slots k).size
    · rw [(hn.sized.placed k).getElem?_of_dead hl hlt,
        (h.consistent.sized.placed k).getElem?_of_dead hl' (h.issued k ▸ hlt)]
    · rw [Array.getElem?_eq_none (Nat.not_lt.1 hlt),
        Array.getElem?_eq_none (h.issued k ▸ Nat.not_lt.1 hlt)]

/-- The slot of an entity that is taken is empty. -/
theorem getElem?_slots_of_taken {k : Kind} {a : Handle k} (hl : n.IsLive a)
    (ha : d.takes a = true) : (m.slots k)[a.index]? = some none := by
  have hgone : ¬m.IsLive a := by simp [h.isLive_iff hn.sized, ha]
  exact (h.consistent.sized.placed k).getElem?_of_dead hgone (h.issued k ▸ hl.lt_size)

end Shrinks

section Unused

variable (hn : n.Consistent) (h : n.Shrinks m n.store.unused)
include hn h

theorem pins_of_unused : m.pins = n.pins := by
  have hslots : m.pins.slots = n.pins.slots :=
    Array.ext_getElem? fun i => h.getElem?_slots hn (a := (⟨i⟩ : PinId)) fun _ => rfl
  have hnets : m.pins.nets = n.pins.nets := by
    refine Column.eq_of_getElem? .pin fun i => ?_
    by_cases hi : n.IsLive i
    · obtain ⟨r, hr⟩ := hn.sized.isLive_pin_iff.1 hi
      have hr' : m.store.pins i = some r := by rw [h.store, Store.without_unused_pins, hr]
      rw [(Pins.record?_eq_some_iff.1 hr).2.2.2.1, (Pins.record?_eq_some_iff.1 hr').2.2.2.1]
    · exact h.remains.oldPin hi
  rw [h.remains.pins, hslots, hnets]

theorem nets_of_unused : m.nets = n.nets := by
  have hslots : m.nets.slots = n.nets.slots :=
    Array.ext_getElem? fun i => h.getElem?_slots hn (a := (⟨i⟩ : NetId)) fun _ => rfl
  have hpins : m.nets.pins = n.nets.pins := by
    refine Column.eq_of_getElem? .net fun e => ?_
    by_cases he : n.IsLive e
    · obtain ⟨r, hr⟩ := hn.sized.isLive_net_iff.1 he
      have hr' : m.store.nets e = some r := by rw [h.store, Store.without_unused_nets, hr]
      rw [(Nets.record?_eq_some_iff.1 hr).2.2, (Nets.record?_eq_some_iff.1 hr').2.2]
    · exact h.remains.oldNet he
  rw [h.remains.nets, hslots, hpins]

/-- The rows of swept ports hold no pins, so that none is taken out of them. -/
theorem ports_pins_of_unused : m.ports.pins = n.ports.pins := by
  refine Column.eq_of_getElem? .port fun p => ?_
  by_cases hp : n.IsLive p
  · obtain ⟨r, hr⟩ := hn.sized.isLive_port_iff.1 hp
    have hrow := (Ports.record?_eq_some_iff.1 hr).2.2.2.2.2
    cases hbare : r.bare with
    | false =>
      have hr' : m.store.ports p = some r := by
        rw [h.store]
        exact Store.without_unused_ports_eq_some_iff.2 ⟨hr, hbare⟩
      rw [hrow, (Ports.record?_eq_some_iff.1 hr').2.2.2.2.2]
    | true =>
      obtain ⟨gone, hgone, -⟩ := h.remains.port hp
      have hkept : clear gone r.pins = r.pins :=
        clear_eq_self fun i hi => absurd hi (PortRecord.bare_iff.1 hbare i)
      rw [hgone, hrow, Option.map_some, hkept]
  · exact h.remains.oldPort hp

end Unused

/-- `m` is `n` without its unused ports and blocks. -/
structure Sweeps (n m : Netlist) : Prop where
  retires : n.Retires m n.Unused
  /-- Pins and nets are the same, those removed before included, and so is what finds them. -/
  pins : m.pins = n.pins
  nets : m.nets = n.nets
  pinIndex : m.index.pins = n.index.pins
  netIndex : m.index.nets = n.index.nets
  /-- Of ports and blocks all columns are the same but those of the slots. -/
  ports : m.ports = { n.ports with slots := m.ports.slots }
  blocks : m.blocks = { n.blocks with slots := m.blocks.slots }
  /-- The slots of what is swept are empty, and the others are the same. -/
  swept {k : Kind} {a : Handle k} : n.Unused a → (m.slots k)[a.index]? = some none
  kept {k : Kind} {a : Handle k} : ¬n.Unused a → (m.slots k)[a.index]? = (n.slots k)[a.index]?
  dirty : m.dirty = true ↔ n.dirty = true ∨ ∃ (k : Kind) (a : Handle k), n.Unused a
  unchanged : (∀ {k : Kind} (a : Handle k), ¬n.Unused a) → m = n
  /-- Every live port has a pin, and every live block that lists ports has a live one. -/
  port {p : PortId} : m.IsLive p → m.portPins p ≠ .ok []
  block {b : BlockId} {ports : List PortId} : m.portsOf b = .ok ports → ports ≠ [] →
    ∃ p ∈ ports, m.IsLive p
  /-- A second sweep changes nothing. -/
  again : ∃ es, m.sweep = .ok (m, es)

/-- A sweep that takes nothing leaves the netlist as it is. -/
theorem eq_of_all_used (hn : n.Consistent) (h : n.Shrinks m n.store.unused)
    (hused : ∀ {k : Kind} (a : Handle k), ¬n.Unused a) : m = n := by
  have hlive {k : Kind} (a : Handle k) : m.IsLive a ↔ n.IsLive a := by
    rw [h.isLive_iff hn.sized]
    refine and_iff_left_of_imp fun ha => ?_
    rw [← Bool.not_eq_true, ← hn.unused_iff ha]
    exact hused a
  refine h.changed.resolve_right fun ⟨_, hlost⟩ => hlost ?_
  refine likewise_of_sameWires hn.sized h.consistent.sized ⟨fun i => ?_, fun e => ?_⟩
    (fun b => (hlive b).symm) fun p => (hlive p).symm
  · rw [h.store, Store.without_unused_pins]
  · rw [h.store, Store.without_unused_nets]

theorem sweeps_of_unused (hn : n.Consistent) (h : n.Shrinks m n.store.unused) : n.Sweeps m := by
  have hretires : n.Retires m n.Unused := h.retires hn hn.unused_iff
  have hused : m.AllUsed := .of_sweep h
  exact {
    retires := hretires
    pins := pins_of_unused hn h
    nets := nets_of_unused hn h
    pinIndex := by
      refine Lookup.ext fun key => Option.ext fun i => ?_
      exact (hretires.find?_eq_some_iff (k := .pin) key i).trans (and_iff_left not_unused_pin)
    netIndex := by
      refine Lookup.ext fun key => Option.ext fun e => ?_
      exact (hretires.find?_eq_some_iff (k := .net) key e).trans (and_iff_left not_unused_net)
    ports := by rw [h.remains.ports, ports_pins_of_unused hn h]
    blocks := h.remains.blocks
    swept := fun ha =>
      h.getElem?_slots_of_taken hn (ha.isLive hn) ((hn.unused_iff (ha.isLive hn)).1 ha)
    kept := fun {k a} ha => h.getElem?_slots hn fun hl => by
      rwa [← Bool.not_eq_true, ← hn.unused_iff hl]
    dirty := by
      constructor
      · intro hdirty
        by_cases hall : ∀ (k : Kind) (a : Handle k), ¬n.Unused a
        · exact .inl (eq_of_all_used hn h (hall _) ▸ hdirty)
        · simpa using Or.inr hall
      · rintro (hdirty | ⟨k, a, ha⟩)
        · rcases h.changed with rfl | ⟨hmarked, -⟩
          · exact hdirty
          · exact hmarked
        · exact h.dirty_of_ne fun heq => ((hretires.isLive_iff a).1 (heq ▸ ha.isLive hn)).2 ha
    unchanged := eq_of_all_used hn h
    port := fun {p} hp => by
      obtain ⟨r, hr⟩ := h.consistent.sized.isLive_port_iff.1 hp
      rw [ne_eq, portPins_eq_nil_iff hr, hused.ports hr]
      exact Bool.false_ne_true
    block := fun {b ports} hb hne => by
      obtain ⟨r, hr, rfl⟩ := (portsOf_eq_ok_iff h.consistent.sized).1 hb
      exact (hused.blocks hr).resolve_left hne
    again := hused.exists_sweep_eq_self h.consistent }

/-- If verification finds nothing, a sweep takes the unused ports and blocks and nothing else, and a
second sweep takes nothing at all. -/
theorem sweep_exact {n : Netlist} (hn : n.verify = .ok (none, [])) :
    ∃ m es, n.sweep = .ok (m, es) ∧ n.Sweeps m := by
  have hn := consistent_of_verify hn
  obtain ⟨m, es, hsweep, hm⟩ := exists_sweep hn
  exact ⟨m, es, hsweep, sweeps_of_unused hn hm⟩

/-- A block whose one port was swept before its other one lost its pin, beside a block without
ports. -/
def emptied : List Edit :=
  let cell : Model := { name := "cell", ports := [.output "o" 1, .input "i" 2] }
  [.createBlock "a" cell [], .createBlock "b" cell [], .createPort ⟨0⟩ "o", .createPort ⟨0⟩ "i",
    .createPin ⟨1⟩ 1 none .sink, .sweep, .removePin ⟨0⟩]

theorem sweep_exact_emptied : ∃ m es, (Edit.run (.new "top") emptied).sweep = .ok (m, es) ∧
    (Edit.run (.new "top") emptied).Sweeps m ∧ ¬m.IsLive (⟨0⟩ : BlockId) ∧
      m.IsLive (⟨1⟩ : BlockId) := by
  obtain ⟨m, es, hsweep, hm⟩ :=
    sweep_exact ((Reachable.new "top").run emptied).consistent.verify_eq_ok
  have hlive : (Edit.run (.new "top") emptied).sweep.toOption.map
      (fun r => (decide (r.1.IsLive (⟨0⟩ : BlockId)), decide (r.1.IsLive (⟨1⟩ : BlockId)))) =
        some (false, true) := by
    decide +kernel
  rw [hsweep] at hlive
  refine ⟨m, es, hsweep, hm, ?_⟩
  simpa [Except.toOption] using hlive

end Netlist

end MappedNetlist
