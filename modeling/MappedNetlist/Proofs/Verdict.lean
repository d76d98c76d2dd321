import MappedNetlist.Proofs.Verification

/-!
# Verification comes to a verdict

The checks of references and of the index run on netlists in which nothing can be relied on but the
lengths of the columns and the positions of the handles, which were looked at before. With these
every read of a column is in bounds, because each check asks whether a handle is live before it
looks the entity up. One read is not of a column: the slot at the bit of a pin, in the row of the
port. There the check relies on the width of the port, so it comes to a verdict if rows reach as far
as the widths that pins rely on (`Netlist.Readable`).
-/

namespace MappedNetlist

theorem exists_bind {α β : Type} {x : Except Fault α} {f : α → Except Fault β}
    (hx : ∃ a, x = .ok a) (hf : ∀ a, ∃ b, f a = .ok b) : ∃ b, x >>= f = .ok b := by
  obtain ⟨a, rfl⟩ := hx
  exact hf a

theorem collect_cons_eq_ok_iff {α β : Type} {find : α → Except Fault (List β)} {a : α}
    {as : List α} {found : List β} : collect find (a :: as) = .ok found ↔
      ∃ first later, find a = .ok first ∧ collect find as = .ok later ∧ first ++ later = found := by
  simp only [collect, bind_eq_ok_iff, pure_eq_ok, Except.ok.injEq]
  constructor
  · rintro ⟨first, hfirst, later, hlater, h⟩
    exact ⟨first, later, hfirst, hlater, h⟩
  · rintro ⟨first, later, hfirst, hlater, h⟩
    exact ⟨first, hfirst, later, hlater, h⟩

/-- A search through a list succeeds if it does for every entry. -/
theorem exists_collect {α β : Type} {find : α → Except Fault (List β)} {as : List α}
    (h : ∀ a ∈ as, ∃ bs, find a = .ok bs) : ∃ bs, collect find as = .ok bs := by
  induction as with
  | nil => exact ⟨[], rfl⟩
  | cons a as ih =>
    obtain ⟨ha, has⟩ := List.forall_mem_cons.1 h
    obtain ⟨bs, hbs⟩ := ha
    obtain ⟨later, hlater⟩ := ih has
    exact ⟨bs ++ later, collect_cons_eq_ok_iff.2 ⟨bs, later, hbs, hlater, rfl⟩⟩

namespace Netlist

variable {n : Netlist}

/-- Where a pin tells to stand at a bit within the width of its port, the port has a slot. -/
def Readable (n : Netlist) : Prop :=
  ∀ ⦃i : PinId⦄ ⦃r : PinRecord⦄ ⦃q : PortRecord⦄, n.store.pins i = some r →
    n.store.ports r.port = some q → r.bit < q.width → r.bit < q.pins.length

/-! ## References -/

section References

variable (hn : n.Sized)
include hn

theorem exists_checkListedPort (b : BlockId) (c : PortClass) (p : PortId) :
    ∃ vs, n.checkListedPort b c p = .ok vs := by
  by_cases hl : n.IsLive p
  · obtain ⟨q, hq⟩ := hn.isLive_port_iff.1 hl
    simp [checkListedPort, hl, Ports.read_owners hq, Ports.read_classes hq]
  · simp [checkListedPort, hl]

theorem exists_checkBlock {b : BlockId} {r : BlockRecord} (hr : n.store.blocks b = some r) :
    ∃ vs, n.checkBlock b = .ok vs := by
  refine exists_collect fun c _ => ?_
  rw [checkListed, Blocks.read_listed hr c, ok_bind]
  exact exists_collect fun p _ => exists_checkListedPort hn b c p

theorem exists_checkOwner {p : PortId} {r : PortRecord} (hr : n.store.ports p = some r) :
    ∃ vs, n.checkOwner p = .ok vs := by
  rw [checkOwner, Ports.read_owners hr, ok_bind]
  by_cases hl : n.IsLive r.owner
  · obtain ⟨q, hq⟩ := hn.isLive_block_iff.1 hl
    simp [hl, Ports.read_classes hr, Blocks.read_listed hq]
  · simp [hl]

theorem exists_checkBit (p : PortId) (slot : Option PinId × Nat) :
    ∃ vs, n.checkBit p slot = .ok vs := by
  obtain ⟨held, bit⟩ := slot
  cases held with
  | none => exact ⟨[], rfl⟩
  | some i =>
    by_cases hl : n.IsLive i
    · obtain ⟨q, hq⟩ := hn.isLive_pin_iff.1 hl
      simp [checkBit, hl, Pins.read_ports hq, Pins.read_bits hq]
    · simp [checkBit, hl]

theorem exists_checkPort {p : PortId} {r : PortRecord} (hr : n.store.ports p = some r) :
    ∃ vs, n.checkPort p = .ok vs := by
  obtain ⟨owner, howner⟩ := exists_checkOwner hn hr
  obtain ⟨bits, hbits⟩ : ∃ vs, collect (n.checkBit p) r.pins.zipIdx = .ok vs :=
    exists_collect fun slot _ => exists_checkBit hn p slot
  simp [checkPort, howner, hbits, Ports.read_widths hr, Ports.read_pins hr]

/-- The place of a pin is looked up in the row of its port. -/
theorem exists_checkPlace {i : PinId} {r : PinRecord} (hr : n.store.pins i = some r)
    (hrow : ∀ q, n.store.ports r.port = some q → r.bit < q.width → r.bit < q.pins.length) :
    ∃ vs, n.checkPlace i = .ok vs := by
  rw [checkPlace, Pins.read_ports hr, ok_bind, Pins.read_bits hr, ok_bind]
  by_cases hl : n.IsLive r.port
  · obtain ⟨q, hq⟩ := hn.isLive_port_iff.1 hl
    by_cases hb : r.bit < q.width
    · have hslot := readSlot_eq_ok_iff.2 (List.getElem?_eq_getElem (hrow q hq hb))
      simp [hl, Ports.read_widths hq, hb, Ports.read_pins hq, hslot]
    · simp [hl, Ports.read_widths hq, hb]
  · simp [hl]

theorem exists_checkConnection {i : PinId} {r : PinRecord} (hr : n.store.pins i = some r) :
    ∃ vs, n.checkConnection i = .ok vs := by
  rw [checkConnection, Pins.read_nets hr, ok_bind]
  cases r.net with
  | none => exact ⟨[], rfl⟩
  | some e =>
    by_cases hl : n.IsLive e
    · obtain ⟨q, hq⟩ := hn.isLive_net_iff.1 hl
      simp [hl, Nets.read_pins hq, Pins.read_roles hr]
    · simp [hl]

theorem exists_checkPin {i : PinId} {r : PinRecord} (hr : n.store.pins i = some r)
    (hrow : ∀ q, n.store.ports r.port = some q → r.bit < q.width → r.bit < q.pins.length) :
    ∃ vs, n.checkPin i = .ok vs := by
  obtain ⟨place, hplace⟩ := exists_checkPlace hn hr hrow
  obtain ⟨connection, hconnection⟩ := exists_checkConnection hn hr
  simp [checkPin, hplace, hconnection]

theorem exists_checkSlots (e : NetId) (earlier : List PinId) (slots : List (Option PinId × Nat)) :
    ∃ vs, n.checkSlots e earlier slots = .ok vs := by
  induction slots generalizing earlier with
  | nil => exact ⟨[], rfl⟩
  | cons entry slots ih =>
    obtain ⟨held, slot⟩ := entry
    cases held with
    | none => exact ih earlier
    | some i =>
      by_cases hl : n.IsLive i
      · obtain ⟨q, hq⟩ := hn.isLive_pin_iff.1 hl
        obtain ⟨later, hlater⟩ := ih (i :: earlier)
        simp [checkSlots, hl, Pins.read_roles hq, Pins.read_nets hq, hlater]
      · obtain ⟨later, hlater⟩ := ih earlier
        simp [checkSlots, hl, hlater]

theorem exists_checkNet {e : NetId} {r : NetRecord} (hr : n.store.nets e = some r) :
    ∃ vs, n.checkNet e = .ok vs := by
  rw [checkNet, Nets.read_pins hr, ok_bind]
  split
  · exact ⟨_, rfl⟩
  · exact exists_checkSlots hn e [] r.pins.zipIdx

theorem exists_checkBlocks : ∃ vs, collect n.checkBlock (n.live .block) = .ok vs := by
  refine exists_collect fun b hb => ?_
  obtain ⟨r, hr⟩ := hn.isLive_block_iff.1 (hn.mem_live_iff.1 hb)
  exact exists_checkBlock hn hr

theorem exists_checkPorts : ∃ vs, collect n.checkPort (n.live .port) = .ok vs := by
  refine exists_collect fun p hp => ?_
  obtain ⟨r, hr⟩ := hn.isLive_port_iff.1 (hn.mem_live_iff.1 hp)
  exact exists_checkPort hn hr

theorem exists_checkNets : ∃ vs, collect n.checkNet (n.live .net) = .ok vs := by
  refine exists_collect fun e he => ?_
  obtain ⟨r, hr⟩ := hn.isLive_net_iff.1 (hn.mem_live_iff.1 he)
  exact exists_checkNet hn hr

theorem exists_checkReferences (hrow : n.Readable) : ∃ vs, n.checkReferences = .ok vs := by
  refine exists_bind (exists_checkBlocks hn) fun _ => exists_bind (exists_checkPorts hn) fun _ =>
    exists_bind (exists_collect fun i hi => ?_) fun _ =>
    exists_bind (exists_checkNets hn) fun _ => ⟨_, rfl⟩
  obtain ⟨r, hr⟩ := hn.isLive_pin_iff.1 (hn.mem_live_iff.1 hi)
  exact exists_checkPin hn hr fun q => hrow hr

/-! ## The index -/

/-- A lookup can be checked if every live handle has a key in the columns. -/
theorem exists_checkLookup {κ : Type} [Ord κ] [Std.TransOrd κ] [DecidableEq κ] {k : Kind}
    {lookup : Lookup κ k} {keyOf : Handle k → Except Fault κ} {what entry : String}
    (hread : ∀ h, n.IsLive h → ∃ key, keyOf h = .ok key) :
    ∃ vs, n.checkLookup lookup keyOf what entry = .ok vs := by
  refine exists_bind (exists_collect fun h hh => ?_) fun _ =>
    exists_bind (exists_collect fun (key, h) _ => ?_) fun _ => ⟨_, rfl⟩
  · exact exists_bind (hread h (hn.mem_live_iff.1 hh)) fun _ => ⟨_, rfl⟩
  · rw [stalePosition]
    by_cases hl : n.IsLive h
    · obtain ⟨key', hkey⟩ := hread h hl
      by_cases heq : key' = key <;> simp [hl, hkey, heq]
    · simp [hl]

theorem exists_checkIndex : ∃ vs, n.checkIndex = .ok vs := by
  refine exists_bind (exists_checkLookup hn fun b hb => ?_) fun _ =>
    exists_bind (exists_checkLookup hn fun p hp => ?_) fun _ =>
    exists_bind (exists_checkLookup hn fun i hi => ?_) fun _ =>
    exists_bind (exists_checkLookup hn fun e he => ?_) fun _ => ⟨_, rfl⟩
  · obtain ⟨r, hr⟩ := hn.isLive_block_iff.1 hb
    exact ⟨_, Blocks.read_names hr⟩
  · obtain ⟨r, hr⟩ := hn.isLive_port_iff.1 hp
    exact ⟨r.key, by rw [Ports.read_owners hr, ok_bind, Ports.read_names hr]; rfl⟩
  · obtain ⟨r, hr⟩ := hn.isLive_pin_iff.1 hi
    exact ⟨r.key, by rw [Pins.read_ports hr, ok_bind, Pins.read_bits hr]; rfl⟩
  · obtain ⟨r, hr⟩ := hn.isLive_net_iff.1 he
    exact ⟨_, Nets.read_names hr⟩

end References

/-! ## All checks -/

/-- Verification looks at references only if the columns are sized. -/
theorem exists_violations (h : n.Sized → n.Readable) : ∃ vs, n.violations = .ok vs := by
  by_cases hn : n.checkSizes = []
  · have hsized := checkSizes_eq_nil_iff.1 hn
    obtain ⟨references, hreferences⟩ := exists_checkReferences hsized (h hsized)
    obtain ⟨index, hindex⟩ := exists_checkIndex hsized
    simp [violations, hn, hreferences, hindex]
  · simp [violations, hn]

/-- A netlist that is not consistent is reported, if its rows can be read. -/
theorem verify_of_not_consistent (h : n.Sized → n.Readable) (hn : ¬n.Consistent) :
    ∃ found events, n.verify = .ok (some found, events) := by
  obtain ⟨vs, hvs⟩ := exists_violations h
  cases vs with
  | nil => exact absurd (violations_eq_ok_nil_iff.1 hvs) hn
  | cons v vs => exact ⟨_, _, by rw [verify, hvs]; rfl⟩

end Netlist

end MappedNetlist
