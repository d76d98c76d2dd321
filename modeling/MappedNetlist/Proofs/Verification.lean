import MappedNetlist.Netlist.Verify
import MappedNetlist.Proofs.Consistency

/-!
# Verification decides consistency

Each check finds nothing exactly if the clause of consistency that belongs to it holds. The checks
of references and of the index read positions that the check of sizes has made sure of, so their
lemmas take `Netlist.Sized` for granted. Put together, verification finds nothing exactly in the
consistent netlists (`verify_eq_ok_none_iff`).
-/

namespace MappedNetlist

/-- Four searches in turn find nothing if none of them does. -/
theorem append_four_eq_ok_nil_iff {β : Type} {x y z w : Except Fault (List β)} :
    (do return (← x) ++ (← y) ++ (← z) ++ (← w)) = Except.ok [] ↔
      x = .ok [] ∧ y = .ok [] ∧ z = .ok [] ∧ w = .ok [] := by
  cases x <;> cases y <;> cases z <;> cases w <;> simp

/-! ## Sizes -/

theorem checkSize_eq_nil_iff {k : Kind} {slots : Nat} {column : String × Nat} :
    checkSize k slots column = [] ↔ column.2 = slots :=
  expect_eq_nil_iff

theorem Slots.misplaced?_eq_none_iff {k : Kind} {s : Slots k} :
    s.misplaced? = none ↔ s.Placed := by
  simp only [misplaced?, List.findSome?_eq_none_iff, List.mem_zipIdx_iff_getElem?, Prod.forall,
    Array.getElem?_toList]
  constructor
  · intro hall i h hi
    have := hall (some h) i hi
    by_contra hne
    simp [hne] at this
  · intro hp slot i hi
    cases slot with
    | none => rfl
    | some h => simp [hp i h hi]

theorem checkPositions_eq_nil_iff {k : Kind} {s : Slots k} : checkPositions s = [] ↔ s.Placed := by
  rw [← Slots.misplaced?_eq_none_iff, checkPositions]
  cases s.misplaced? <;> simp

namespace Netlist

variable {n : Netlist}

theorem checkSizes_eq_nil_iff : n.checkSizes = [] ↔ n.Sized := by
  simp only [checkSizes, Blocks.sizes, Ports.sizes, Pins.sizes, Nets.sizes, List.append_eq_nil_iff,
    List.flatMap_eq_nil_iff, List.forall_mem_cons, List.not_mem_nil, false_imp_iff, imp_true_iff,
    and_true, checkSize_eq_nil_iff, checkPositions_eq_nil_iff]
  constructor
  · rintro ⟨⟨⟨⟨⟨⟨⟨⟨bn, bm, bt, bi, bo, bc⟩, pn, po, pw, pc, pp⟩, ip, ib, inn, ir⟩, en, ep⟩, hb⟩, hp⟩,
      hi⟩, he⟩
    refine ⟨⟨hb, bn, bm, bt, fun c => ?_⟩, ⟨hp, pn, po, pw, pc, pp⟩, ⟨hi, ip, ib, inn, ir⟩,
      ⟨he, en, ep⟩⟩
    cases c <;> assumption
  · rintro ⟨hb, hp, hi, he⟩
    exact ⟨⟨⟨⟨⟨⟨⟨⟨hb.names, hb.models, hb.tables, hb.listed .input, hb.listed .output,
      hb.listed .clock⟩, hp.names, hp.owners, hp.widths, hp.classes, hp.pins⟩, hi.ports, hi.bits,
      hi.nets, hi.roles⟩, he.names, he.pins⟩, hb.placed⟩, hp.placed⟩, hi.placed⟩, he.placed⟩

/-! ## References -/

theorem checkListedPort_eq_ok_nil_iff (hn : n.Sized) {b : BlockId} {c : PortClass} {p : PortId} :
    n.checkListedPort b c p = .ok [] ↔
      p.index < n.ports.slots.size ∧
        ∀ q, n.store.ports p = some q → q.owner = b ∧ q.portClass = c := by
  by_cases hl : n.IsLive p
  · obtain ⟨q, hq⟩ := hn.isLive_port_iff.1 hl
    have hlt : p.index < n.ports.slots.size := Slots.IsLive.lt_size hl
    simp [checkListedPort, hl, hlt, Ports.read_owners hq, Ports.read_classes hq, hq]
  · have hnone : ∀ q, n.store.ports p ≠ some q := fun q hq => hl (hn.isLive_port_iff.2 ⟨q, hq⟩)
    simp [checkListedPort, hl, hnone]

theorem checkBlock_eq_ok_nil_iff (hn : n.Sized) {b : BlockId} {r : BlockRecord}
    (hr : n.store.blocks b = some r) :
    n.checkBlock b = .ok [] ↔ ∀ (c : PortClass) (p : PortId), p ∈ r.listed c →
      p.index < n.ports.slots.size ∧
        ∀ q, n.store.ports p = some q → q.owner = b ∧ q.portClass = c := by
  have hclass (c : PortClass) : n.checkListed b c = .ok [] ↔ ∀ p ∈ r.listed c,
      p.index < n.ports.slots.size ∧
        ∀ q, n.store.ports p = some q → q.owner = b ∧ q.portClass = c := by
    rw [checkListed, Blocks.read_listed hr c, ok_bind, collect_eq_ok_nil_iff]
    simp only [checkListedPort_eq_ok_nil_iff hn]
  rw [checkBlock, collect_eq_ok_nil_iff]
  simp only [List.forall_mem_cons, List.not_mem_nil, false_imp_iff, imp_true_iff, and_true, hclass]
  constructor
  · rintro ⟨hi, ho, hc⟩ c
    cases c <;> assumption
  · intro h
    exact ⟨h .input, h .output, h .clock⟩

theorem checkOwner_eq_ok_nil_iff (hn : n.Sized) {p : PortId} {r : PortRecord}
    (hr : n.store.ports p = some r) :
    n.checkOwner p = .ok [] ↔
      ∃ q, n.store.blocks r.owner = some q ∧ p ∈ q.listed r.portClass := by
  rw [checkOwner, Ports.read_owners hr, ok_bind]
  by_cases hl : n.IsLive r.owner
  · obtain ⟨q, hq⟩ := hn.isLive_block_iff.1 hl
    simp only [hl, if_true, Ports.read_classes hr, Blocks.read_listed hq, ok_bind, hq]
    simp
  · have hnone : ∀ q, n.store.blocks r.owner ≠ some q :=
      fun q hq => hl (hn.isLive_block_iff.2 ⟨q, hq⟩)
    simp only [hl, if_false, hnone]
    simp

theorem checkBit_eq_ok_nil_iff (hn : n.Sized) {p : PortId} {slot : Option PinId} {bit : Nat} :
    n.checkBit p (slot, bit) = .ok [] ↔
      ∀ i, slot = some i → ∃ q, n.store.pins i = some q ∧ q.port = p ∧ q.bit = bit := by
  cases slot with
  | none => simp [checkBit]
  | some i =>
    simp only [Option.some.injEq, forall_eq']
    by_cases hl : n.IsLive i
    · obtain ⟨q, hq⟩ := hn.isLive_pin_iff.1 hl
      simp only [checkBit, hl, if_true, Pins.read_ports hq, Pins.read_bits hq, ok_bind, hq]
      simp
    · have hnone : ∀ q, n.store.pins i ≠ some q := fun q hq => hl (hn.isLive_pin_iff.2 ⟨q, hq⟩)
      simp only [checkBit, hl, if_false, hnone]
      simp

theorem checkPort_eq_ok_nil_iff (hn : n.Sized) {p : PortId} {r : PortRecord}
    (hr : n.store.ports p = some r) :
    n.checkPort p = .ok [] ↔
      (∃ q, n.store.blocks r.owner = some q ∧ p ∈ q.listed r.portClass) ∧
        r.pins.length = r.width ∧
        ∀ (bit : Nat) (i : PinId), r.pins[bit]? = some (some i) →
          ∃ q, n.store.pins i = some q ∧ q.port = p ∧ q.bit = bit := by
  have hbits : collect (n.checkBit p) r.pins.zipIdx = .ok [] ↔
      ∀ (bit : Nat) (i : PinId), r.pins[bit]? = some (some i) →
        ∃ q, n.store.pins i = some q ∧ q.port = p ∧ q.bit = bit := by
    simp only [collect_eq_ok_nil_iff, Prod.forall, List.mem_zipIdx_iff_getElem?,
      checkBit_eq_ok_nil_iff hn]
    constructor
    · intro h bit i hi
      exact h _ _ hi i rfl
    · rintro h slot bit hs i rfl
      exact h bit i hs
  rw [← checkOwner_eq_ok_nil_iff hn hr, ← hbits, checkPort, Ports.read_widths hr,
    Ports.read_pins hr]
  simp only [ok_bind]
  cases n.checkOwner p with
  | error f => simp
  | ok vs => cases collect (n.checkBit p) r.pins.zipIdx <;> simp

theorem checkPlace_eq_ok_nil_iff (hn : n.Sized) {i : PinId} {r : PinRecord}
    (hr : n.store.pins i = some r) :
    n.checkPlace i = .ok [] ↔
      ∃ q, n.store.ports r.port = some q ∧ r.bit < q.width ∧ q.pins[r.bit]? = some (some i) := by
  rw [checkPlace, Pins.read_ports hr, ok_bind, Pins.read_bits hr, ok_bind]
  by_cases hl : n.IsLive r.port
  · obtain ⟨q, hq⟩ := hn.isLive_port_iff.1 hl
    simp only [hl, if_true, Ports.read_widths hq, ok_bind, hq, Option.some.injEq,
      exists_eq_left']
    by_cases hb : r.bit < q.width
    · simp only [hb, if_true, Ports.read_pins hq, ok_bind, true_and]
      cases hs : q.pins[r.bit]? <;> simp [readSlot, hs]
    · simp [hb]
  · have hnone : ∀ q, n.store.ports r.port ≠ some q :=
      fun q hq => hl (hn.isLive_port_iff.2 ⟨q, hq⟩)
    simp only [hl, if_false, hnone]
    simp

/-- A pin is placed on a net if it stands in a slot for its role. -/
theorem isPlaced_iff {i : PinId} {slots : List (Option PinId)} {role : PinRole} :
    isPlaced i slots role ↔ ∃ slot, slots[slot]? = some (some i) ∧ slotRole slot = role := by
  cases role with
  | driver =>
    rw [isPlaced, List.head?_eq_getElem?]
    constructor
    · exact fun h => ⟨0, h, rfl⟩
    · rintro ⟨slot, hs, hrole⟩
      obtain rfl : slot = 0 := by
        by_contra h
        simp [slotRole, h] at hrole
      exact hs
  | sink =>
    rw [isPlaced, List.mem_iff_getElem?]
    constructor
    · rintro ⟨k, hk⟩
      rw [List.getElem?_tail] at hk
      exact ⟨k + 1, hk, rfl⟩
    · rintro ⟨slot, hs, hrole⟩
      obtain ⟨k, rfl⟩ : ∃ k, slot = k + 1 := by
        refine Nat.exists_eq_succ_of_ne_zero fun h => ?_
        simp [slotRole, h] at hrole
      exact ⟨k, by rwa [List.getElem?_tail]⟩

theorem checkConnection_eq_ok_nil_iff (hn : n.Sized) {i : PinId} {r : PinRecord}
    (hr : n.store.pins i = some r) :
    n.checkConnection i = .ok [] ↔ ∀ e, r.net = some e → ∃ q, n.store.nets e = some q ∧
      ∃ slot, q.pins[slot]? = some (some i) ∧ slotRole slot = r.role := by
  rw [checkConnection, Pins.read_nets hr, ok_bind]
  cases hnet : r.net with
  | none => simp
  | some e =>
    simp only [Option.some.injEq, forall_eq']
    by_cases hl : n.IsLive e
    · obtain ⟨q, hq⟩ := hn.isLive_net_iff.1 hl
      simp only [hl, if_true, Nets.read_pins hq, Pins.read_roles hr, ok_bind, hq,
        Option.some.injEq, exists_eq_left', ← isPlaced_iff]
      simp
    · have hnone : ∀ q, n.store.nets e ≠ some q := fun q hq => hl (hn.isLive_net_iff.2 ⟨q, hq⟩)
      simp only [hl, if_false, hnone]
      simp

theorem checkPin_eq_ok_nil_iff (hn : n.Sized) {i : PinId} {r : PinRecord}
    (hr : n.store.pins i = some r) :
    n.checkPin i = .ok [] ↔
      (∃ q, n.store.ports r.port = some q ∧ r.bit < q.width ∧ q.pins[r.bit]? = some (some i)) ∧
        ∀ e, r.net = some e → ∃ q, n.store.nets e = some q ∧
          ∃ slot, q.pins[slot]? = some (some i) ∧ slotRole slot = r.role := by
  rw [checkPin, append_eq_ok_nil_iff, checkPlace_eq_ok_nil_iff hn hr,
    checkConnection_eq_ok_nil_iff hn hr]

/-- Two slots do not hold the same pin. -/
def Apart (a b : Option PinId) : Prop := ∀ i, a = some i → b ≠ some i

theorem pairwise_apart_iff {slots : List (Option PinId)} :
    slots.Pairwise Apart ↔ ∀ (i : PinId) (j k : Nat),
      slots[j]? = some (some i) → slots[k]? = some (some i) → j = k := by
  rw [List.pairwise_iff_getElem]
  constructor
  · intro h i j k hj hk
    obtain ⟨hj', hj⟩ := List.getElem?_eq_some_iff.1 hj
    obtain ⟨hk', hk⟩ := List.getElem?_eq_some_iff.1 hk
    rcases Nat.lt_trichotomy j k with hlt | heq | hlt
    · exact absurd hk (h j k hj' hk' hlt i hj)
    · exact heq
    · exact absurd hj (h k j hk' hj' hlt i hk)
  · intro h j k hj hk hlt i hi hi'
    exact Nat.ne_of_lt hlt (h i j k (List.getElem?_eq_some_iff.2 ⟨hj, hi⟩)
      (List.getElem?_eq_some_iff.2 ⟨hk, hi'⟩))

theorem checkSlots_eq_ok_nil_iff (hn : n.Sized) {e : NetId} {earlier : List PinId}
    {slots : List (Option PinId × Nat)} :
    n.checkSlots e earlier slots = .ok [] ↔
      (∀ i slot, (some i, slot) ∈ slots → i ∉ earlier ∧
        ∃ q, n.store.pins i = some q ∧ q.net = some e ∧ q.role = slotRole slot) ∧
      (slots.map Prod.fst).Pairwise Apart := by
  induction slots generalizing earlier with
  | nil => simp [checkSlots]
  | cons entry slots ih =>
    obtain ⟨held, slot⟩ := entry
    cases held with
    | none => simp [checkSlots, ih, Apart]
    | some i =>
      by_cases hl : n.IsLive i
      · obtain ⟨q, hq⟩ := hn.isLive_pin_iff.1 hl
        have hstep : n.checkSlots e earlier ((some i, slot) :: slots) = .ok [] ↔
            (i ∉ earlier ∧ q.net = some e ∧ q.role = slotRole slot) ∧
              n.checkSlots e (i :: earlier) slots = .ok [] := by
          simp only [checkSlots, hl, if_true, Pins.read_roles hq, Pins.read_nets hq, ok_bind]
          cases n.checkSlots e (i :: earlier) slots with
          | error f => simp
          | ok later => simp [and_comm, and_assoc]
        rw [hstep, ih, List.map_cons, List.pairwise_cons]
        constructor
        · rintro ⟨⟨hfresh, hnet, hrole⟩, hrest, hapart⟩
          refine ⟨fun j s hj => ?_, fun a ha j hj => ?_, hapart⟩
          · rcases List.mem_cons.1 hj with heq | hj
            · cases heq
              exact ⟨hfresh, q, hq, hnet, hrole⟩
            · exact ⟨fun h => (hrest j s hj).1 (List.mem_cons_of_mem i h), (hrest j s hj).2⟩
          · rintro rfl
            obtain ⟨⟨held, s⟩, hs, rfl⟩ := List.mem_map.1 ha
            cases hj
            exact (hrest i s hs).1 List.mem_cons_self
        · rintro ⟨hall, hhead, hapart⟩
          obtain ⟨hfresh, q', hq', hnet, hrole⟩ := hall i slot List.mem_cons_self
          obtain rfl : q = q' := Option.some.inj (hq.symm.trans hq')
          refine ⟨⟨hfresh, hnet, hrole⟩, fun j s hj => ⟨?_, ?_⟩, hapart⟩
          · intro h
            rcases List.mem_cons.1 h with rfl | h
            · exact hhead _ (List.mem_map_of_mem hj) j rfl rfl
            · exact (hall j s (List.mem_cons_of_mem _ hj)).1 h
          · exact (hall j s (List.mem_cons_of_mem _ hj)).2
      · have hnone : ∀ q, n.store.pins i ≠ some q := fun q hq => hl (hn.isLive_pin_iff.2 ⟨q, hq⟩)
        constructor
        · intro h
          cases hrest : n.checkSlots e earlier slots <;> simp [checkSlots, hl, hrest] at h
        · rintro ⟨hall, -⟩
          obtain ⟨-, q, hq, -⟩ := hall i slot List.mem_cons_self
          exact absurd hq (hnone q)

theorem checkNet_eq_ok_nil_iff (hn : n.Sized) {e : NetId} {r : NetRecord}
    (hr : n.store.nets e = some r) :
    n.checkNet e = .ok [] ↔ r.pins ≠ [] ∧
      (∀ (i : PinId) (j k : Nat), r.pins[j]? = some (some i) → r.pins[k]? = some (some i) →
        j = k) ∧
      ∀ (slot : Nat) (i : PinId), r.pins[slot]? = some (some i) →
        ∃ q, n.store.pins i = some q ∧ q.net = some e ∧ q.role = slotRole slot := by
  rw [checkNet, Nets.read_pins hr, ok_bind]
  by_cases hnil : r.pins = []
  · simp [hnil]
  · rw [if_neg hnil, checkSlots_eq_ok_nil_iff hn, List.zipIdx_map_fst, pairwise_apart_iff]
    simp only [List.mem_zipIdx_iff_getElem?, List.not_mem_nil, not_false_eq_true, true_and, hnil,
      ne_eq]
    constructor
    · rintro ⟨hall, honce⟩
      exact ⟨honce, fun slot i hi => hall i slot hi⟩
    · rintro ⟨honce, hall⟩
      exact ⟨fun i slot hi => hall slot i hi, honce⟩

/-- The live handles are those with a record. -/
theorem Sized.mem_live_iff (hn : n.Sized) {k : Kind} {h : Handle k} :
    h ∈ n.live k ↔ n.IsLive h := by
  cases k
  · exact Slots.mem_live_iff hn.blocks.placed
  · exact Slots.mem_live_iff hn.ports.placed
  · exact Slots.mem_live_iff hn.pins.placed
  · exact Slots.mem_live_iff hn.nets.placed

/-- The check of references finds nothing exactly if the references agree. -/
theorem checkReferences_eq_ok_nil_iff (hn : n.Sized) :
    n.checkReferences = .ok [] ↔ n.store.Coherent n.ports.slots.size := by
  simp only [checkReferences, append_four_eq_ok_nil_iff, collect_eq_ok_nil_iff, hn.mem_live_iff,
    hn.isLive_block_iff, hn.isLive_port_iff, hn.isLive_pin_iff, hn.isLive_net_iff]
  constructor
  · rintro ⟨hblocks, hports, hpins, hnets⟩
    have hb {b r} (hr : n.store.blocks b = some r) :=
      (checkBlock_eq_ok_nil_iff hn hr).1 (hblocks b ⟨r, hr⟩)
    have hp {p r} (hr : n.store.ports p = some r) :=
      (checkPort_eq_ok_nil_iff hn hr).1 (hports p ⟨r, hr⟩)
    have hi {i r} (hr : n.store.pins i = some r) :=
      (checkPin_eq_ok_nil_iff hn hr).1 (hpins i ⟨r, hr⟩)
    have he {e r} (hr : n.store.nets e = some r) :=
      (checkNet_eq_ok_nil_iff hn hr).1 (hnets e ⟨r, hr⟩)
    exact {
      listed := fun hr => hb hr _ _
      owned := fun hr => (hp hr).1
      width := fun hr => (hp hr).2.1
      filled := fun hr => (hp hr).2.2 _ _
      placed := fun hr => (hi hr).1
      connected := fun hr => (hi hr).2 _
      slotted := fun hr => (he hr).1
      once := fun hr => (he hr).2.1 _ _ _
      attached := fun hr => (he hr).2.2 _ _ }
  · intro hc
    refine ⟨?_, ?_, ?_, ?_⟩
    · rintro b ⟨r, hr⟩
      exact (checkBlock_eq_ok_nil_iff hn hr).2 fun c p hp => hc.listed hr hp
    · rintro p ⟨r, hr⟩
      exact (checkPort_eq_ok_nil_iff hn hr).2
        ⟨hc.owned hr, hc.width hr, fun bit i hi => hc.filled hr hi⟩
    · rintro i ⟨r, hr⟩
      exact (checkPin_eq_ok_nil_iff hn hr).2 ⟨hc.placed hr, fun e he => hc.connected hr he⟩
    · rintro e ⟨r, hr⟩
      exact (checkNet_eq_ok_nil_iff hn hr).2
        ⟨hc.slotted hr, fun i j k hj hk => hc.once hr hj hk, fun slot i hi => hc.attached hr hi⟩

/-! ## The index -/

section Lookup

variable {κ : Type} [Ord κ] [Std.TransOrd κ] [Std.LawfulEqOrd κ] [DecidableEq κ] {k : Kind}

theorem ascending_eq_nil_iff {is : List Nat} : ascending is = [] ↔ is = [] := by
  cases is with
  | nil => simp [ascending]
  | cons i is =>
    simp only [ascending, List.foldr_cons, reduceCtorEq, iff_false]
    cases List.foldr insertAscending [] is with
    | nil => simp [insertAscending]
    | cons j js =>
      simp only [insertAscending]
      split <;> simp

/-- The check of one lookup finds nothing exactly if the lookup is exact, where `keyOf` reads from
the columns what is the `key` of the record. -/
theorem checkLookup_eq_ok_nil_iff (hn : n.Sized) {ρ : Type} {lookup : Lookup κ k}
    {keyOf : Handle k → Except Fault κ} {record? : Handle k → Option ρ} {key : ρ → κ}
    {what entry : String} (hlive : ∀ h, n.IsLive h ↔ ∃ r, record? h = some r)
    (hread : ∀ {h r}, record? h = some r → keyOf h = .ok (key r)) :
    n.checkLookup lookup keyOf what entry = .ok [] ↔
      lookup.Exact fun h => (record? h).map key := by
  have hsplit : n.checkLookup lookup keyOf what entry = .ok [] ↔
      collect (checkFound lookup keyOf what) (n.live k) = .ok [] ∧
        collect (n.stalePosition keyOf) lookup.toList = .ok [] := by
    rw [checkLookup]
    cases collect (checkFound lookup keyOf what) (n.live k) <;>
      cases collect (n.stalePosition keyOf) lookup.toList <;> simp [ascending_eq_nil_iff]
  have hfound {h : Handle k} {r : ρ} (hr : record? h = some r) :
      checkFound lookup keyOf what h = .ok [] ↔ lookup[key r]? = some h := by
    simp [checkFound, hread hr]
  have hstale (a : κ) (h : Handle k) :
      n.stalePosition keyOf (a, h) = .ok [] ↔ (record? h).map key = some a := by
    cases hr : record? h with
    | none =>
      have hl : ¬n.IsLive h := by simp [hlive, hr]
      simp [stalePosition, hl]
    | some r =>
      have hl : n.IsLive h := (hlive h).2 ⟨r, hr⟩
      by_cases heq : key r = a <;> simp [stalePosition, hl, hread hr, heq]
  rw [hsplit, collect_eq_ok_nil_iff, collect_eq_ok_nil_iff]
  simp only [hn.mem_live_iff, Prod.forall, Std.ExtTreeMap.mem_toList_iff_getElem?_eq_some, hstale,
    hlive]
  constructor
  · rintro ⟨hall, hentries⟩ a h
    refine ⟨hentries a h, fun ha => ?_⟩
    obtain ⟨r, hr, rfl⟩ := Option.map_eq_some_iff.1 ha
    exact (hfound hr).1 (hall h ⟨r, hr⟩)
  · intro hexact
    refine ⟨?_, fun a h => (hexact a h).1⟩
    rintro h ⟨r, hr⟩
    exact (hfound hr).2 ((hexact _ h).2 (by simp [hr]))

end Lookup

/-- The check of the index finds nothing exactly if the index is exact. -/
theorem checkIndex_eq_ok_nil_iff (hn : n.Sized) :
    n.checkIndex = .ok [] ↔ n.index.Exact n.store := by
  simp only [checkIndex]
  rw [append_four_eq_ok_nil_iff,
    checkLookup_eq_ok_nil_iff hn (fun _ => hn.isLive_block_iff) Blocks.read_names,
    checkLookup_eq_ok_nil_iff hn (fun _ => hn.isLive_port_iff) fun hr => by
      rw [Ports.read_owners hr, ok_bind, Ports.read_names hr]
      rfl,
    checkLookup_eq_ok_nil_iff hn (fun _ => hn.isLive_pin_iff) fun hr => by
      rw [Pins.read_ports hr, ok_bind, Pins.read_bits hr]
      rfl,
    checkLookup_eq_ok_nil_iff hn (fun _ => hn.isLive_net_iff) Nets.read_names]
  exact ⟨fun ⟨hb, hp, hi, he⟩ => ⟨hb, hp, hi, he⟩, fun ⟨hb, hp, hi, he⟩ => ⟨hb, hp, hi, he⟩⟩

/-! ## Names -/

/-- The texts of the table are distinct, so that none can lead to another handle. -/
@[simp] theorem checkTexts_eq_nil (n : Netlist) : n.checkTexts = [] := by
  refine List.flatMap_eq_nil_iff.2 ?_
  rintro ⟨id, text⟩ hentry
  exact expect_eq_nil_iff.2 (StringTable.find?_eq_some_iff.2 (StringTable.mem_entries_iff.1 hentry))

theorem checkNames_eq_nil_iff {k : Kind} {names : Column StringId} :
    n.checkNames k names = [] ↔
      ∀ name ∈ names.toList, ∃ text, n.strings.text? name = some text := by
  simp only [checkNames, List.flatMap_eq_nil_iff, Prod.forall, expect_eq_nil_iff,
    StringTable.contains_iff]
  constructor
  · intro h name hname
    obtain ⟨i, hi⟩ := List.mem_iff_getElem?.1 hname
    exact h name i (List.mem_zipIdx_iff_getElem?.2 hi)
  · intro h name i hi
    exact h name (List.mem_of_getElem? (List.mem_zipIdx_iff_getElem?.1 hi))

theorem checkStrings_eq_nil_iff : n.checkStrings = [] ↔ n.NamesInterned := by
  simp only [checkStrings, checkTexts_eq_nil, List.nil_append, List.append_eq_nil_iff,
    checkNames_eq_nil_iff, NamesInterned, namesInUse, List.mem_append]
  constructor
  · rintro ⟨⟨hb, hp⟩, he⟩ name ((hname | hname) | hname)
    · exact hb name hname
    · exact hp name hname
    · exact he name hname
  · intro h
    exact ⟨⟨fun name hname => h name (.inl (.inl hname)),
      fun name hname => h name (.inl (.inr hname))⟩, fun name hname => h name (.inr hname)⟩

/-! ## All checks -/

theorem violations_eq_ok_nil_iff : n.violations = .ok [] ↔ n.Consistent := by
  simp only [violations]
  by_cases hn : n.checkSizes = []
  · have hsized := checkSizes_eq_nil_iff.1 hn
    have hsplit : (do return (← n.checkReferences) ++ (← n.checkIndex) ++ n.checkStrings) =
        Except.ok [] ↔ n.checkReferences = .ok [] ∧ n.checkIndex = .ok [] ∧ n.checkStrings = [] := by
      cases n.checkReferences <;> cases n.checkIndex <;> simp
    rw [if_pos hn, hsplit, checkReferences_eq_ok_nil_iff hsized, checkIndex_eq_ok_nil_iff hsized,
      checkStrings_eq_nil_iff]
    exact ⟨fun ⟨hc, hx, hs⟩ => ⟨hsized, hc, hx, hs⟩, fun h => ⟨h.coherent, h.indexed, h.interned⟩⟩
  · rw [if_neg hn]
    constructor
    · intro h
      simp [hn] at h
    · intro h
      exact absurd (checkSizes_eq_nil_iff.2 h.sized) hn

theorem verify_eq_ok_iff_violations : n.verify = .ok (none, []) ↔ n.violations = .ok [] := by
  rw [verify]
  cases n.violations with
  | error f => simp
  | ok vs => cases vs <;> simp

theorem Consistent.verify_eq_ok (hn : n.Consistent) : n.verify = .ok (none, []) :=
  verify_eq_ok_iff_violations.2 (violations_eq_ok_nil_iff.2 hn)

theorem consistent_of_verify (h : n.verify = .ok (none, [])) : n.Consistent :=
  violations_eq_ok_nil_iff.1 (verify_eq_ok_iff_violations.1 h)

/-- Verification finds nothing, and does not fault, in exactly the consistent netlists, whatever
else the columns and the index hold. -/
theorem verify_eq_ok_none_iff (n : Netlist) : n.verify = .ok (none, []) ↔ n.Consistent := by
  rw [verify_eq_ok_iff_violations, violations_eq_ok_nil_iff]

end Netlist

end MappedNetlist
