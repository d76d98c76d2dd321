import MappedNetlist.Netlist.Sweep
import MappedNetlist.Proofs.Removal

/-!
# Sweeping consistent netlists

A sweep goes through the positions of ports and then through those of blocks. What it takes is said
by the store alone (`Store.unused`): the ports without a pin, and the blocks that list ports, but
only such as are removed or without a pin. No pin and no net is lost.
-/

namespace MappedNetlist

/-- No bit of the port has a pin. -/
def PortRecord.bare (r : PortRecord) : Bool := r.pins.all Option.isNone

theorem PortRecord.bare_iff {r : PortRecord} : r.bare = true ↔ ∀ i, some i ∉ r.pins := by
  rw [bare, List.all_eq_true]
  constructor
  · intro h i hi
    simpa using h _ hi
  · intro h slot hslot
    cases slot with
    | none => rfl
    | some i => exact absurd hslot (h i)

theorem PortRecord.bare_eq_false_iff {r : PortRecord} : r.bare = false ↔ ∃ i, some i ∈ r.pins := by
  rw [← Bool.not_eq_true, bare_iff]
  simp

/-- The block lists ports, and none of them is live. -/
def Store.idle (s : Store) (r : BlockRecord) : Bool :=
  decide (r.ports ≠ []) && r.ports.all fun p => (s.ports p).isNone

/-- What a sweep takes: ports without a pin, and blocks that list nothing but ports which are
removed or without a pin. -/
def Store.unused (s : Store) : Loss where
  ports p := (s.ports p).any PortRecord.bare
  blocks b := (s.blocks b).any fun r =>
    decide (r.ports ≠ []) && r.ports.all fun p => (s.ports p).all PortRecord.bare

namespace Store

variable {s : Store}

theorem without_unused_blocks_eq_some_iff {b : BlockId} {r : BlockRecord} :
    (s.without s.unused).blocks b = some r ↔ s.blocks b = some r ∧
      (r.ports = [] ∨ ∃ p ∈ r.ports, ∃ q, s.ports p = some q ∧ q.bare = false) := by
  rw [without_blocks_eq_some_iff, and_comm]
  refine and_congr_right fun hr => ?_
  have hall (p : PortId) : (s.ports p).all PortRecord.bare = false ↔
      ∃ q, s.ports p = some q ∧ q.bare = false := by
    cases hp : s.ports p <;> simp
  simp only [unused, hr, Option.any_some, Bool.and_eq_false_iff, decide_eq_false_iff_not, not_not,
    ne_eq, List.all_eq_false, Bool.not_eq_true, hall]

theorem without_unused_ports_eq_some_iff {p : PortId} {r : PortRecord} :
    (s.without s.unused).ports p = some r ↔ s.ports p = some r ∧ r.bare = false := by
  rw [without_ports_eq_some_iff]
  constructor
  · rintro ⟨hbare, q, hq, rfl⟩
    have hclear : q.clear s.unused.pins = q := PortRecord.clear_none q
    rw [hclear]
    exact ⟨hq, by simpa [unused, hq] using hbare⟩
  · rintro ⟨hr, hbare⟩
    exact ⟨by simp [unused, hr, hbare], r, hr, PortRecord.clear_none r⟩

theorem without_unused_pins : (s.without s.unused).pins = s.pins := by
  funext i
  simp [unused]

theorem without_unused_nets : (s.without s.unused).nets = s.nets := by
  funext e
  simp [unused]

end Store

namespace Netlist

variable {n : Netlist}

/-- If a step succeeds and the others succeed on what it leaves, all of them do. -/
theorem exists_tryEach_cons {step : Netlist → Nat → Except Fault (Option (Netlist × List Event))}
    {i : Nat} {is : List Nat} {r : Option (Netlist × List Event)} {m : Netlist} {es : List Event}
    {count count' : Int32} (h : step n i = .ok r)
    (hs : tryEach .wrapping step (r.elim n Prod.fst) (r.elim count fun _ => count + 1) is =
      .ok (m, es, count')) :
    ∃ es', tryEach .wrapping step n count (i :: is) = .ok (m, es', count') := by
  rw [tryEach, h, ok_bind]
  cases r with
  | none => exact ⟨es, hs⟩
  | some r =>
    rw [Option.elim_some, Option.elim_some] at hs
    exact ⟨r.2 ++ es, by simp [Arithmetic.add, hs]⟩

/-- Counters that may wrap are always reported, if their sum is positive. -/
theorem sweepReport_wrapping (ports blocks : Int32) : sweepReport .wrapping ports blocks =
    .ok (if 0 < ports + blocks then [.swept ports blocks] else []) := by
  rw [sweepReport, Arithmetic.add, ok_bind]
  split <;> rfl

/-- A slot that is not empty holds the handle of its position, which is live. -/
theorem Consistent.record_of_port_slot (hn : n.Consistent) {i : Nat} {p : PortId}
    (h : n.ports.slots[i]? = some (some p)) : p.index = i ∧ ∃ r, n.store.ports p = some r := by
  obtain rfl : p.index = i := hn.sized.ports.placed i p h
  exact ⟨rfl, hn.sized.isLive_port_iff.1 h⟩

theorem Consistent.record_of_block_slot (hn : n.Consistent) {i : Nat} {b : BlockId}
    (h : n.blocks.slots[i]? = some (some b)) : b.index = i ∧ ∃ r, n.store.blocks b = some r := by
  obtain rfl : b.index = i := hn.sized.blocks.placed i b h
  exact ⟨rfl, hn.sized.isLive_block_iff.1 h⟩

/-- A port without pins is dropped alone. -/
theorem exists_dropPort_of_bare (hn : n.Consistent) {p : PortId} {r : PortRecord}
    (hp : n.store.ports p = some r) (hbare : r.bare = true) :
    ∃ m es, n.dropPort p = .ok (m, es) ∧ n.Shrinks m (.ofPort p) := by
  obtain ⟨m, hdrop, hm⟩ := exists_dropPort hn hp
  refine ⟨m, _, hdrop, hm.congr hn ?_⟩
  refine ⟨fun _ => rfl, fun _ => rfl, fun {i q} hi => ?_, fun _ => rfl, fun _ => rfl⟩
  have hport : q.port ≠ p := by
    intro hport
    exact PortRecord.bare_iff.1 hbare i ((hn.mem_pins_iff hp).2 ⟨q, hi, hport⟩)
  simp [Loss.ofPorts, Loss.ofPort, hi, hport]

/-- A block whose ports are all removed is dropped alone. -/
theorem exists_dropBlock_of_idle (hn : n.Consistent) {b : BlockId} {r : BlockRecord}
    (hb : n.store.blocks b = some r) (hidle : n.store.idle r = true) :
    ∃ m es, n.dropBlock b = .ok (m, es) ∧ n.Shrinks m (.ofBlock b) := by
  obtain ⟨m, es, hdrop, hm⟩ := exists_dropBlock hn hb
  have howner {p : PortId} {q : PortRecord} (hp : n.store.ports p = some q) : q.owner ≠ b := by
    intro howner
    have hnone := List.all_eq_true.1 (Bool.and_eq_true_iff.1 hidle).2 p
      ((hn.mem_ports_iff hb hp).2 howner)
    simp [hp] at hnone
  refine ⟨m, es, hdrop, hm.congr hn ?_⟩
  refine ⟨fun _ => rfl, fun hp => ?_, fun hi => ?_, fun _ => rfl, fun _ => rfl⟩
  · simp [Loss.ofBlocks, Loss.ofBlock, hp, howner hp]
  · obtain ⟨t, ht, -⟩ := hn.coherent.placed hi
    simp [Loss.ofBlocks, Loss.ofBlock, hi, ht, howner ht]

/-- A step of the sweep takes the port at a position if it has no pins. -/
theorem exists_sweepPort (hn : n.Consistent) {i : Nat} (hi : i < n.ports.slots.size) :
    ∃ r, n.sweepPort i = .ok r ∧ n.Shrinks (r.elim n Prod.fst)
      { ports := fun p => p.index == i && (n.store.ports p).any PortRecord.bare } := by
  obtain ⟨slot, hslot⟩ := Column.exists_getElem? hi
  cases slot with
  | none =>
    refine ⟨none, by simp [sweepPort, Column.read_of_getElem? hslot], (Shrinks.refl hn).congr hn ?_⟩
    refine ⟨fun _ => rfl, fun {p r} hp => ?_, fun _ => rfl, fun _ => rfl, fun _ => rfl⟩
    have hpi : p.index ≠ i := by
      rintro rfl
      have hl := hslot.symm.trans (Ports.isLive_of_record? hp)
      simp at hl
    simp [hpi]
  | some p =>
    obtain ⟨rfl, r, hr⟩ := hn.record_of_port_slot hslot
    have hself {q : PortId} {t : PortRecord} (hq : n.store.ports q = some t) :
        (q.index == p.index && (n.store.ports q).any PortRecord.bare) = (q == p && r.bare) := by
      by_cases hqp : q = p
      · subst hqp
        simp [hr]
      · have hindex : q.index ≠ p.index := fun h => hqp (by cases q; cases p; simp_all)
        rw [beq_eq_false_iff_ne.2 hindex, beq_eq_false_iff_ne.2 hqp, Bool.false_and, Bool.false_and]
    have hread : n.sweepPort p.index =
        if r.bare then (do return some (← n.dropPort p)) else .ok none := by
      simp only [sweepPort, Column.read_of_getElem? hslot, ok_bind, Ports.read_pins hr]
      rfl
    cases hbare : r.bare with
    | false =>
      refine ⟨none, by simp [hread, hbare], (Shrinks.refl hn).congr hn ?_⟩
      refine ⟨fun _ => rfl, fun hq => ?_, fun _ => rfl, fun _ => rfl, fun _ => rfl⟩
      simp [hself hq, hbare]
    | true =>
      obtain ⟨m, es, hdrop, hm⟩ := exists_dropPort_of_bare hn hr hbare
      refine ⟨some (m, es), by simp [hread, hbare, hdrop], hm.congr hn ?_⟩
      refine ⟨fun _ => rfl, fun hq => ?_, fun _ => rfl, fun _ => rfl, fun _ => rfl⟩
      simp [Loss.ofPort, hself hq, hbare]

theorem exists_tryEach_sweepPort (hn : n.Consistent) (count : Int32) {is : List Nat}
    (his : ∀ i ∈ is, i < n.ports.slots.size) :
    ∃ m es count', tryEach .wrapping sweepPort n count is = .ok (m, es, count') ∧ n.Shrinks m
      { ports := fun p => is.contains p.index && (n.store.ports p).any PortRecord.bare } := by
  induction is generalizing n count with
  | nil => exact ⟨n, [], count, rfl, Shrinks.refl hn⟩
  | cons i is ih =>
    obtain ⟨hi, his⟩ := List.forall_mem_cons.1 his
    obtain ⟨r, hstep, hm⟩ := exists_sweepPort hn hi
    have hissued : (r.elim n Prod.fst).ports.slots.size = n.ports.slots.size := hm.issued .port
    obtain ⟨l, es, count', hrest, hl⟩ := ih hm.consistent _ (hissued ▸ his)
    obtain ⟨es', htry⟩ := exists_tryEach_cons hstep hrest
    refine ⟨l, es', count', htry, (hm.trans hl).congr hn ?_⟩
    refine ⟨fun _ => rfl, fun {p r} hp => ?_, fun _ => rfl, fun _ => rfl, fun _ => rfl⟩
    rw [Loss.ports_union, hm.store]
    cases hbare : r.bare with
    | false => simp [hp, hbare]
    | true => by_cases hpi : p.index = i <;> simp [hp, hbare, hpi]

/-- A step of the sweep takes the block at a position if it lists ports and none of them is live. -/
theorem exists_sweepBlock (hn : n.Consistent) {i : Nat} (hi : i < n.blocks.slots.size) :
    ∃ r, n.sweepBlock i = .ok r ∧ n.Shrinks (r.elim n Prod.fst)
      { blocks := fun b => b.index == i && (n.store.blocks b).any n.store.idle } := by
  obtain ⟨slot, hslot⟩ := Column.exists_getElem? hi
  cases slot with
  | none =>
    refine ⟨none, by simp [sweepBlock, Column.read_of_getElem? hslot],
      (Shrinks.refl hn).congr hn ?_⟩
    refine ⟨fun {b r} hb => ?_, fun _ => rfl, fun _ => rfl, fun _ => rfl, fun _ => rfl⟩
    have hbi : b.index ≠ i := by
      rintro rfl
      have hl := hslot.symm.trans (Blocks.isLive_of_record? hb)
      simp at hl
    simp [hbi]
  | some b =>
    obtain ⟨rfl, r, hr⟩ := hn.record_of_block_slot hslot
    have hself {c : BlockId} {t : BlockRecord} (hc : n.store.blocks c = some t) :
        (c.index == b.index && (n.store.blocks c).any n.store.idle) =
          (c == b && n.store.idle r) := by
      by_cases hcb : c = b
      · subst hcb
        simp [hr]
      · have hindex : c.index ≠ b.index := fun h => hcb (by cases c; cases b; simp_all)
        rw [beq_eq_false_iff_ne.2 hindex, beq_eq_false_iff_ne.2 hcb, Bool.false_and, Bool.false_and]
    have hdead (p : PortId) : ¬n.IsLive p ↔ (n.store.ports p).isNone = true := by
      rw [hn.sized.isLive_port_iff, Option.isNone_iff_eq_none, Option.eq_none_iff_forall_ne_some,
        not_exists]
    have hread : n.sweepBlock b.index =
        if n.store.idle r then (do return some (← n.dropBlock b)) else .ok none := by
      simp only [sweepBlock, Column.read_of_getElem? hslot, ok_bind, portsOf_eq_ok hr, hdead]
      simp [Store.idle]
    cases hidle : n.store.idle r with
    | false =>
      refine ⟨none, by simp [hread, hidle], (Shrinks.refl hn).congr hn ?_⟩
      refine ⟨fun hc => ?_, fun _ => rfl, fun _ => rfl, fun _ => rfl, fun _ => rfl⟩
      simp [hself hc, hidle]
    | true =>
      obtain ⟨m, es, hdrop, hm⟩ := exists_dropBlock_of_idle hn hr hidle
      refine ⟨some (m, es), by simp [hread, hidle, hdrop], hm.congr hn ?_⟩
      refine ⟨fun hc => ?_, fun _ => rfl, fun _ => rfl, fun _ => rfl, fun _ => rfl⟩
      simp [Loss.ofBlock, hself hc, hidle]

theorem exists_tryEach_sweepBlock (hn : n.Consistent) (count : Int32) {is : List Nat}
    (his : ∀ i ∈ is, i < n.blocks.slots.size) :
    ∃ m es count', tryEach .wrapping sweepBlock n count is = .ok (m, es, count') ∧ n.Shrinks m
      { blocks := fun b => is.contains b.index && (n.store.blocks b).any n.store.idle } := by
  induction is generalizing n count with
  | nil => exact ⟨n, [], count, rfl, Shrinks.refl hn⟩
  | cons i is ih =>
    obtain ⟨hi, his⟩ := List.forall_mem_cons.1 his
    obtain ⟨r, hstep, hm⟩ := exists_sweepBlock hn hi
    have hissued : (r.elim n Prod.fst).blocks.slots.size = n.blocks.slots.size := hm.issued .block
    obtain ⟨l, es, count', hrest, hl⟩ := ih hm.consistent _ (hissued ▸ his)
    obtain ⟨es', htry⟩ := exists_tryEach_cons hstep hrest
    refine ⟨l, es', count', htry, (hm.trans hl).congr hn ?_⟩
    refine ⟨fun {b q} hb => ?_, fun _ => rfl, fun _ => rfl, fun _ => rfl, fun _ => rfl⟩
    have hidle : (r.elim n Prod.fst).store.idle = n.store.idle := by
      funext r
      simp [Store.idle, hm.store]
    rw [Loss.blocks_union, hidle, hm.store]
    cases hq : n.store.idle q with
    | false => simp [hb, hq]
    | true => by_cases hbi : b.index = i <;> simp [hb, hq, hbi]

/-- A sweep whose counters wrap succeeds and takes what is unused. -/
theorem exists_sweep (hn : n.Consistent) :
    ∃ m es, n.sweep = .ok (m, es) ∧ n.Shrinks m n.store.unused := by
  have hrange (k : Nat) : ∀ i ∈ List.range k, i < k := fun i hi => List.mem_range.1 hi
  obtain ⟨l, es, ports, hports, hl⟩ := exists_tryEach_sweepPort hn 0 (hrange _)
  obtain ⟨m, fs, blocks, hblocks, hm⟩ := exists_tryEach_sweepBlock hl.consistent 0 (hrange _)
  have hrest := sweepReport_wrapping ports blocks
  generalize (if 0 < ports + blocks then [Event.swept ports blocks] else []) = rest at hrest
  refine ⟨m, es ++ fs ++ rest, ?_, (hl.trans hm).congr hn ?_⟩
  · simp only [sweep, sweepWith, hports, ok_bind, hblocks, hrest, pure_eq_ok]
  · have hall {p : PortId} {r : PortRecord} (hp : n.store.ports p = some r) :
        p.index < n.ports.slots.size :=
      (Ports.isLive_of_record? hp).lt_size
    refine ⟨fun {b r} hb => ?_, fun hp => ?_, fun _ => rfl, fun _ => rfl, fun _ => rfl⟩
    · have hlb : l.store.blocks b = some r := by
        rw [hl.store]
        exact Store.without_blocks_eq_some_iff.2 ⟨rfl, hb⟩
      have hbound : (List.range l.blocks.slots.size).contains b.index = true := by
        simpa using (Blocks.isLive_of_record? hlb).lt_size
      have hgone (p : PortId) :
          (l.store.ports p).isNone = (n.store.ports p).all PortRecord.bare := by
        rw [hl.store]
        cases hp : n.store.ports p with
        | none => simp [hp]
        | some r => cases hbare : r.bare <;> simp [hp, hall hp, hbare]
      simp only [Loss.blocks_union, hlb, hb, hbound, Store.unused, Store.idle, hgone,
        Option.any_some, Bool.true_and, Bool.false_or]
    · simp [hp, hall hp, Store.unused]

end Netlist

end MappedNetlist
