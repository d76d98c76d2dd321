import MappedNetlist.Proofs.Stability

/-!
# Reports of removals

The events that lead from one netlist to another account for what was removed on the way
(`Netlist.Accounts`): every handle that retired is reported once, no other handle is, and the parts of an
entity are reported before the entity itself. Accounts are kept by creations, which report nothing, and
by the removal of a single entity that has no parts left; they add up, so that a cascade, a sweep and a
run without compactions have them as well.
-/

namespace MappedNetlist

/-! ## Order in a list -/

/-- Wherever the list has `b`, it has `a` before. -/
def Precedes {α : Type} (a b : α) (as : List α) : Prop := ∀ xs ys, as = xs ++ b :: ys → a ∈ xs

namespace Precedes

variable {α : Type} {a b : α} {as bs : List α}

theorem of_notMem (h : b ∉ as) : Precedes a b as := by
  rintro xs ys rfl
  exact absurd (List.mem_append_right xs List.mem_cons_self) h

theorem append_right (h : Precedes a b as) (ha : a ∈ as) (bs : List α) :
    Precedes a b (as ++ bs) := by
  intro xs ys heq
  rcases List.append_eq_append_iff.1 heq with ⟨cs, rfl, -⟩ | ⟨cs, rfl, hcs⟩
  · exact List.mem_append_left cs ha
  · cases cs with
    | nil => simpa using ha
    | cons c cs =>
      obtain ⟨rfl, -⟩ := List.cons.inj hcs
      exact h xs cs rfl

theorem append_left (h : Precedes a b bs) (hb : b ∉ as) : Precedes a b (as ++ bs) := by
  intro xs ys heq
  rcases List.append_eq_append_iff.1 heq with ⟨cs, rfl, hcs⟩ | ⟨cs, rfl, hcs⟩
  · exact List.mem_append_right as (h cs ys hcs)
  · cases cs with
    | nil => exact absurd (h [] ys hcs.symm) List.not_mem_nil
    | cons c cs =>
      obtain ⟨rfl, -⟩ := List.cons.inj hcs
      exact absurd (List.mem_append_right xs List.mem_cons_self) hb

end Precedes

namespace Netlist

variable {n m l : Netlist} {d : Loss} {es fs : List Event}

/-! ## Parts -/

/-- `a` is a pin of the port `b`, or a port of the block `b`. -/
inductive PartOf (n : Netlist) : {k l : Kind} → Handle k → Handle l → Prop
  | pin {i : PinId} {p : PortId} (h : n.pinPort i = .ok p) : n.PartOf i p
  | port {p : PortId} {b : BlockId} (h : n.portBlock p = .ok b) : n.PartOf p b

section

variable {k k' : Kind} {a : Handle k} {b : Handle k'}

/-- The parts of a live entity only: what has a live part is live. -/
theorem PartOf.isLive (hn : n.Consistent) (h : n.PartOf a b) : n.IsLive b := by
  cases h with
  | pin h =>
    obtain ⟨r, hr, rfl⟩ := (pinPort_eq_ok_iff hn.sized).1 h
    obtain ⟨q, hq, -⟩ := hn.coherent.placed hr
    exact Ports.isLive_of_record? hq
  | port h =>
    obtain ⟨r, hr, rfl⟩ := (portBlock_eq_ok_iff hn.sized).1 h
    obtain ⟨q, hq, -⟩ := hn.coherent.owned hr
    exact Blocks.isLive_of_record? hq

theorem PartOf.isLive_part (hn : n.Consistent) (h : n.PartOf a b) : n.IsLive a := by
  cases h with
  | pin h =>
    obtain ⟨r, hr, -⟩ := (pinPort_eq_ok_iff hn.sized).1 h
    exact Pins.isLive_of_record? hr
  | port h =>
    obtain ⟨r, hr, -⟩ := (portBlock_eq_ok_iff hn.sized).1 h
    exact Ports.isLive_of_record? hr

/-- As long as a part is live, it is a part of the same entity. -/
theorem Stays.partOf (hs : n.Stays m) (hn : n.Consistent) (hm : m.Consistent) (h : n.PartOf a b)
    (hl : m.IsLive a) : m.PartOf a b := by
  have hissued := (h.isLive_part hn).lt_size
  cases h with
  | pin h =>
    obtain ⟨r, hr, rfl⟩ := (pinPort_eq_ok_iff hn.sized).1 h
    obtain ⟨q, hq⟩ := hm.sized.isLive_pin_iff.1 hl
    obtain ⟨t, ht, hfixed⟩ := hs.store.pins hissued hq
    obtain rfl : r = t := Option.some.inj (hr.symm.trans ht)
    exact .pin ((pinPort_eq_ok_iff hm.sized).2 ⟨q, hq, (PinRecord.fixed_eq_iff.1 hfixed).1.symm⟩)
  | port h =>
    obtain ⟨r, hr, rfl⟩ := (portBlock_eq_ok_iff hn.sized).1 h
    obtain ⟨q, hq⟩ := hm.sized.isLive_port_iff.1 hl
    obtain ⟨t, ht, hfixed⟩ := hs.store.ports hissued hq
    obtain rfl : r = t := Option.some.inj (hr.symm.trans ht)
    exact .port
      ((portBlock_eq_ok_iff hm.sized).2 ⟨q, hq, (PortRecord.fixed_eq_iff.1 hfixed).2.1.symm⟩)

end

/-! ## Accounts -/

/-- The handle was issued, and its entity was removed. -/
def IsRetired (n : Netlist) {k : Kind} (x : Handle k) : Prop :=
  x.index < n.issued.get k ∧ ¬n.IsLive x

instance (n : Netlist) {k : Kind} (x : Handle k) : Decidable (n.IsRetired x) :=
  inferInstanceAs (Decidable (_ ∧ _))

theorem isRetired_iff {k : Kind} {x : Handle k} :
    n.IsRetired x ↔ x.index < (n.slots k).size ∧ ¬n.IsLive x := by
  rw [IsRetired, issued, Tally.get_of]

/-- The events `es` tell what was removed between `n` and `m`. -/
structure Accounts (n m : Netlist) (es : List Event) : Prop where
  consistent : m.Consistent
  stays : n.Stays m
  /-- Every handle that retired is reported once, and no other is. -/
  count {k : Kind} (x : Handle k) : (if n.IsRetired x then 1 else 0) + es.count (.removed k x) =
    if m.IsRetired x then 1 else 0
  /-- The parts of an entity are reported before the entity. -/
  ordered {k k' : Kind} {a : Handle k} {b : Handle k'} : n.PartOf a b →
    Precedes (.removed k a) (.removed k' b) es

namespace Accounts

/-- What is live in the end was not reported. -/
theorem notMem_of_isLive (h : n.Accounts m es) {k : Kind} {x : Handle k} (hx : m.IsLive x) :
    .removed k x ∉ es := by
  have hcount := h.count x
  rw [if_neg fun hr : m.IsRetired x => hr.2 hx] at hcount
  exact List.count_eq_zero.1 (Nat.eq_zero_of_add_eq_zero hcount).2

/-- What was live and was not reported still is. -/
theorem isLive_of_notMem (h : n.Accounts m es) {k : Kind} {x : Handle k} (hx : n.IsLive x)
    (hmem : .removed k x ∉ es) : m.IsLive x := by
  have hcount := h.count x
  rw [if_neg fun hr : n.IsRetired x => hr.2 hx, List.count_eq_zero.2 hmem] at hcount
  have hretired : ¬m.IsRetired x := fun hr => by simp [if_pos hr] at hcount
  rw [isRetired_iff, not_and_not_right] at hretired
  exact hretired (Nat.lt_of_lt_of_le hx.lt_size (h.stays.issued k))

/-- Events that are no removals account for no change. -/
theorem of_silent (hn : n.Consistent) (hes : ∀ {k : Kind} (x : Handle k), .removed k x ∉ es) :
    n.Accounts n es where
  consistent := hn
  stays := .refl n
  count x := by rw [List.count_eq_zero.2 (hes x), Nat.add_zero]
  ordered _ := .of_notMem (hes _)

/-- If no handles were issued, what is reported was live. -/
theorem isLive_of_mem (h : n.Accounts m es) {k : Kind} {x : Handle k}
    (hissued : (m.slots k).size = (n.slots k).size) (hx : .removed k x ∈ es) : n.IsLive x := by
  have hcount := h.count x
  have hpos := List.count_pos_iff.2 hx
  simp only [isRetired_iff, hissued] at hcount
  by_contra hl
  by_cases hlt : x.index < (n.slots k).size
  · rw [if_pos ⟨hlt, hl⟩] at hcount
    split at hcount <;> omega
  · simp only [hlt, false_and, if_false] at hcount
    omega

theorem refl (hn : n.Consistent) : n.Accounts n [] := .of_silent hn fun _ => List.not_mem_nil

theorem trans (hn : n.Consistent) (h : n.Accounts m es) (h' : m.Accounts l fs) :
    n.Accounts l (es ++ fs) where
  consistent := h'.consistent
  stays := h.stays.trans h'.stays
  count x := by rw [List.count_append, ← Nat.add_assoc, h.count, h'.count]
  ordered {k k' a b} hpart := by
    by_cases ha : .removed k a ∈ es
    · exact (h.ordered hpart).append_right ha fs
    · -- the part and the whole outlive the first events
      have hpart' : m.PartOf a b :=
        h.stays.partOf hn h.consistent hpart (h.isLive_of_notMem (hpart.isLive_part hn) ha)
      exact (h'.ordered hpart').append_left (h.notMem_of_isLive (hpart'.isLive h.consistent))

end Accounts

/-! ## Removals of a single entity -/

/-- What is live after a loss was live before and is not lost. -/
theorem Shrinks.isLive_iff (hn : n.Sized) (h : n.Shrinks m d) {k : Kind} {x : Handle k} :
    m.IsLive x ↔ n.IsLive x ∧ d.takes x = false := by
  have hm := h.consistent.sized
  cases k with
  | block =>
    simp only [hm.isLive_block_iff, hn.isLive_block_iff, h.store, Loss.takes,
      Store.without_blocks_eq_some_iff, exists_and_left, and_comm]
  | port =>
    simp only [hm.isLive_port_iff, hn.isLive_port_iff, h.store, Loss.takes,
      Store.without_ports_eq_some_iff]
    tauto
  | pin =>
    simp only [hm.isLive_pin_iff, hn.isLive_pin_iff, h.store, Loss.takes,
      Store.without_pins_eq_some_iff]
    tauto
  | net =>
    simp only [hm.isLive_net_iff, hn.isLive_net_iff, h.store, Loss.takes,
      Store.without_nets_eq_some_iff]
    tauto

/-- Reports of what is lost, each once and the parts first, account for a loss. -/
theorem Accounts.of_shrinks (hn : n.Consistent) (h : n.Shrinks m d) (hnodup : es.Nodup)
    (hmem : ∀ {k : Kind} {x : Handle k}, .removed k x ∈ es ↔ n.IsLive x ∧ d.takes x = true)
    (hordered : ∀ {k k' : Kind} {a : Handle k} {b : Handle k'}, n.PartOf a b →
      Precedes (.removed k a) (.removed k' b) es) : n.Accounts m es where
  consistent := h.consistent
  stays := .of_shrinks h
  count {k} x := by
    simp only [isRetired_iff, h.issued, h.isLive_iff hn.sized]
    by_cases hx : n.IsLive x
    · cases htakes : d.takes x with
      | false => simp [hx, List.count_eq_zero, hmem, htakes]
      | true => simp [hx, hx.lt_size, hnodup.count, hmem, htakes]
    · simp [hx, List.count_eq_zero, hmem]
  ordered := hordered

/-- The removal of one entity without parts is reported by one event. -/
theorem Accounts.of_single (hn : n.Consistent) (h : n.Shrinks m d) {k : Kind} {x : Handle k}
    (hx : n.IsLive x)
    (htakes : ∀ {l : Kind} {y : Handle l}, d.takes y = true ↔ Event.removed l y = .removed k x)
    (hbare : ∀ {l : Kind} {a : Handle l}, ¬n.PartOf a x) : n.Accounts m [.removed k x] := by
  refine .of_shrinks hn h (List.pairwise_singleton ..) (fun {l y} => ?_) fun hpart => .of_notMem fun hb => ?_
  · rw [List.mem_singleton, htakes]
    refine ⟨fun heq => ⟨?_, heq⟩, And.right⟩
    cases heq
    exact hx
  · cases List.mem_singleton.1 hb
    exact hbare hpart

/-! ## Cascades -/

/-- Pins have no parts, and neither are they wholes. -/
theorem accounts_pins (hn : n.Consistent) {is : List PinId} (his : ∀ i ∈ is, n.IsLive i)
    (hnodup : is.Nodup) (h : n.Shrinks m { pins := is.contains }) :
    n.Accounts m (is.map (.removed .pin)) := by
  refine .of_shrinks hn h ?_ (fun {k x} => ?_) fun hpart => .of_notMem ?_
  · exact List.pairwise_map.2 (hnodup.imp fun hne heq => hne (by simpa using heq))
  · cases k with
    | pin => simpa [Loss.takes] using his x
    | _ => simp [Loss.takes]
  · cases hpart <;> simp

/-- A live pin is dropped with a report of it. -/
theorem accounts_dropPin (hn : n.Consistent) {i : PinId} (hi : n.IsLive i)
    (h : n.dropPin i = .ok (m, es)) : n.Accounts m es := by
  obtain ⟨l, hdrop, hl⟩ := exists_dropPin hn hi
  cases hdrop.symm.trans h
  refine .of_single hn hl hi (fun {k y} => ?_) nofun
  cases k <;> simp [Loss.takes, Loss.ofPin]

/-- A live port is dropped with reports of its pins and then of itself. -/
theorem accounts_dropPort (hn : n.Consistent) {p : PortId} {r : PortRecord}
    (hp : n.store.ports p = some r) (h : n.dropPort p = .ok (m, es)) : n.Accounts m es := by
  obtain ⟨l, q, hpins, hdrop, hl, hq, hbare⟩ := dropPort_eq_ok hn hp
  cases hdrop.symm.trans h
  refine (accounts_pins hn (hn.isLive_of_mem_pins hp) (hn.nodup_pins hp) hl).trans hn ?_
  refine .of_single hl.consistent (shrinks_withoutPort hl.consistent hq hbare)
    (Ports.isLive_of_record? hq) (fun {k y} => ?_) fun hpart => ?_
  · cases k <;> simp [Loss.takes, Loss.ofPort]
  · cases hpart with
    | pin hi =>
      obtain ⟨t, ht, hport⟩ := (pinPort_eq_ok_iff hl.consistent.sized).1 hi
      exact hbare _ ((hl.consistent.mem_pins_iff hq).2 ⟨t, ht, hport⟩)

theorem accounts_dropLivePort (hn : n.Consistent) {p : PortId}
    (h : n.dropLivePort p = .ok (m, es)) : n.Accounts m es := by
  by_cases hp : n.IsLive p
  · obtain ⟨r, hr⟩ := hn.sized.isLive_port_iff.1 hp
    exact accounts_dropPort hn hr (by rwa [dropLivePort, if_pos hp] at h)
  · rw [dropLivePort, if_neg hp] at h
    cases h
    exact .refl hn

/-- Steps that account for what they do do so in turn. -/
theorem accounts_inTurn {α : Type} {step : Netlist → α → Except Fault (Netlist × List Event)}
    (hstep : ∀ {n m : Netlist} {a : α} {es : List Event}, n.Consistent → step n a = .ok (m, es) →
      n.Accounts m es)
    (hn : n.Consistent) {as : List α} (h : inTurn step n as = .ok (m, es)) : n.Accounts m es := by
  induction as generalizing n es with
  | nil =>
    cases h
    exact .refl hn
  | cons a as ih =>
    simp only [inTurn_cons, bind_eq_ok_iff, Prod.exists, pure_eq_ok, Except.ok.injEq,
      Prod.mk.injEq] at h
    obtain ⟨l, now, hnow, _, later, hlater, rfl, rfl⟩ := h
    have hl := hstep hn hnow
    exact hl.trans hn (ih hl.consistent hlater)

/-- A live block is dropped with reports of its pins and ports and then of itself. -/
theorem accounts_dropBlock (hn : n.Consistent) {b : BlockId} {r : BlockRecord}
    (hb : n.store.blocks b = some r) (h : n.dropBlock b = .ok (m, es)) : n.Accounts m es := by
  obtain ⟨l, fs, hports, hdrop, hl, hlb, hbare⟩ := dropBlock_eq_ok hn hb
  cases hdrop.symm.trans h
  refine (accounts_inTurn (fun hn h => accounts_dropLivePort hn h) hn hports).trans hn ?_
  refine .of_single hl.consistent (shrinks_withoutBlock hl.consistent hlb hbare)
    (Blocks.isLive_of_record? hlb) (fun {k y} => ?_) fun hpart => ?_
  · cases k <;> simp [Loss.takes, Loss.ofBlock]
  · cases hpart with
    | port hp =>
      obtain ⟨t, ht, howner⟩ := (portBlock_eq_ok_iff hl.consistent.sized).1 hp
      exact hbare ht howner

/-- A live net is dropped with a report of it. -/
theorem accounts_dropNet (hn : n.Consistent) {e : NetId} (he : n.IsLive e)
    (h : n.dropNet e = .ok (m, es)) : n.Accounts m es := by
  obtain ⟨l, hdrop, hl⟩ := exists_dropNet hn he
  cases hdrop.symm.trans h
  refine .of_single hn hl he (fun {k y} => ?_) nofun
  cases k <;> simp [Loss.takes, Loss.ofNet]

/-! ## Sweeps -/

/-- Where a step removes anything, it removes one entity of kind `k` and accounts for it. -/
def RemovesOne (k : Kind) (step : Netlist → Nat → Except Fault (Option (Netlist × List Event))) : Prop :=
  ∀ ⦃n m : Netlist⦄ ⦃i : Nat⦄ ⦃es : List Event⦄, n.Consistent → step n i = .ok (some (m, es)) →
    (∃ x : Handle k, es = [.removed k x]) ∧ n.Accounts m es

/-- What a sweep removes at a position is a port without pins, and nothing else. -/
theorem removesOne_sweepPort : RemovesOne .port sweepPort := by
  intro n m i es hn h
  obtain ⟨slot, hslot, h⟩ := bind_eq_ok_iff.1 h
  cases slot with
  | none => cases h
  | some p =>
    obtain ⟨row, hrow, h⟩ := bind_eq_ok_iff.1 h
    split at h
    · next hbare =>
      obtain ⟨⟨l, fs⟩, hdrop, h⟩ := bind_eq_ok_iff.1 h
      cases h
      obtain ⟨rfl, r, hr⟩ := hn.record_of_port_slot (Column.read_eq_ok_iff.1 hslot)
      obtain rfl : r.pins = row := Except.ok.inj ((Ports.read_pins hr).symm.trans hrow)
      obtain ⟨l', hdrop', -⟩ := exists_dropPort hn hr
      have hnone : r.pins.filterMap id = [] :=
        List.filterMap_eq_nil_iff.2 fun slot hmem => by simpa using List.all_eq_true.1 hbare slot hmem
      refine ⟨⟨p, ?_⟩, accounts_dropPort hn hr hdrop⟩
      cases hdrop'.symm.trans hdrop
      rw [hnone]
      rfl
    · cases h

/-- Ports that are removed are passed over in silence. -/
theorem inTurn_dropLivePort_of_dead {ps : List PortId} (h : ∀ p ∈ ps, ¬n.IsLive p) :
    inTurn dropLivePort n ps = .ok (n, []) := by
  induction ps with
  | nil => rfl
  | cons p ps ih =>
    obtain ⟨hp, hps⟩ := List.forall_mem_cons.1 h
    exact inTurn_cons_eq_ok (if_neg hp) (ih hps)

/-- What a sweep removes at a position is a block without live ports, and nothing else. -/
theorem removesOne_sweepBlock : RemovesOne .block sweepBlock := by
  intro n m i es hn h
  obtain ⟨slot, hslot, h⟩ := bind_eq_ok_iff.1 h
  cases slot with
  | none => cases h
  | some b =>
    obtain ⟨ports, hports, h⟩ := bind_eq_ok_iff.1 h
    split at h
    · next hidle =>
      obtain ⟨⟨l, fs⟩, hdrop, h⟩ := bind_eq_ok_iff.1 h
      cases h
      obtain ⟨rfl, r, hr⟩ := hn.record_of_block_slot (Column.read_eq_ok_iff.1 hslot)
      obtain rfl : r.ports = ports := Except.ok.inj ((portsOf_eq_ok hr).symm.trans hports)
      obtain ⟨l', fs', hturn, hdrop', -⟩ := dropBlock_eq_ok hn hr
      cases (inTurn_dropLivePort_of_dead hidle.2).symm.trans hturn
      refine ⟨⟨b, ?_⟩, accounts_dropBlock hn hr hdrop⟩
      cases hdrop'.symm.trans hdrop
      rfl
    · cases h

/-- Tries that remove one entity each account for what they do, and are counted. -/
theorem accounts_tryEach {k : Kind}
    {step : Netlist → Nat → Except Fault (Option (Netlist × List Event))} (hstep : RemovesOne k step)
    (hn : n.Consistent) {a : Arithmetic} {is : List Nat} {count count' : Int32}
    (h : tryEach a step n count is = .ok (m, es, count')) :
    (∃ xs : List (Handle k), es = xs.map (.removed k) ∧ count' = count + Int32.ofNat xs.length) ∧
      n.Accounts m es := by
  induction is generalizing n es count with
  | nil =>
    cases h
    exact ⟨⟨[], rfl, (Int32.add_zero _).symm⟩, .refl hn⟩
  | cons i is ih =>
    obtain ⟨r, hr, h⟩ := bind_eq_ok_iff.1 h
    match r with
    | none => exact ih hn h
    | some (l, now) =>
      obtain ⟨next, hnext, h⟩ := bind_eq_ok_iff.1 h
      obtain rfl := a.eq_of_add_eq_ok hnext
      obtain ⟨⟨m', later, count'⟩, hlater, h⟩ := bind_eq_ok_iff.1 h
      cases h
      obtain ⟨⟨x, rfl⟩, hl⟩ := hstep hn hr
      obtain ⟨⟨xs, rfl, rfl⟩, hm⟩ := ih hl.consistent hlater
      refine ⟨⟨x :: xs, rfl, ?_⟩, hl.trans hn hm⟩
      rw [List.length_cons, Nat.add_comm, Int32.ofNat_add, Int32.add_assoc]
      rfl

/-- What is reported of the counters is no removal. -/
theorem notMem_sweepReport {a : Arithmetic} {ports blocks : Int32} (h : sweepReport a ports blocks = .ok es)
    {k : Kind} (x : Handle k) : .removed k x ∉ es := by
  obtain ⟨sum, -, h⟩ := bind_eq_ok_iff.1 h
  split at h <;> cases h <;> simp

/-- A sweep from `n` to `m` goes through the ports and then, from `l` on, through the blocks. It removes
`ps` and `bs`, and in the end it reports `rest` of the counters. -/
structure Passes (a : Arithmetic) (n l m : Netlist) (ps : List PortId) (bs : List BlockId)
    (rest : List Event) : Prop where
  ports : tryEach a sweepPort n 0 (List.range n.ports.slots.size) =
    .ok (l, ps.map (.removed .port), .ofNat ps.length)
  blocks : tryEach a sweepBlock l 0 (List.range l.blocks.slots.size) =
    .ok (m, bs.map (.removed .block), .ofNat bs.length)
  report : sweepReport a (.ofNat ps.length) (.ofNat bs.length) = .ok rest
  consistent : l.Consistent
  accounts : n.Accounts m (ps.map (.removed .port) ++ bs.map (.removed .block) ++ rest)

/-- A sweep reports the ports that it removes, then the blocks, and in the end what the counters of both
hold. -/
theorem exists_passes (hn : n.Consistent) {a : Arithmetic} (h : n.sweepWith a = .ok (m, es)) :
    ∃ l ps bs rest, Passes a n l m ps bs rest ∧
      es = ps.map (.removed .port) ++ bs.map (.removed .block) ++ rest := by
  obtain ⟨⟨l, ports, sweptPorts⟩, hports, h⟩ := bind_eq_ok_iff.1 h
  obtain ⟨⟨m', blocks, sweptBlocks⟩, hblocks, h⟩ := bind_eq_ok_iff.1 h
  obtain ⟨rest, hrest, h⟩ := bind_eq_ok_iff.1 h
  cases h
  obtain ⟨⟨ps, rfl, rfl⟩, hl⟩ := accounts_tryEach removesOne_sweepPort hn hports
  obtain ⟨⟨bs, rfl, rfl⟩, hm⟩ :=
    accounts_tryEach removesOne_sweepBlock hl.consistent hblocks
  rw [Int32.zero_add] at hports hblocks
  rw [Int32.zero_add, Int32.zero_add] at hrest
  have hsilent := Accounts.of_silent hm.consistent fun x => notMem_sweepReport hrest x
  exact ⟨l, ps, bs, rest, ⟨hports, hblocks, hrest, hl.consistent, (hl.trans hn hm).trans hn hsilent⟩,
    rfl⟩

theorem accounts_sweep (hn : n.Consistent) (h : n.sweep = .ok (m, es)) : n.Accounts m es := by
  obtain ⟨l, ps, bs, rest, hpasses, rfl⟩ := exists_passes hn h
  exact hpasses.accounts

/-! ## Edits -/

/-- Creations remove nothing. -/
theorem Grows.isRetired_iff {k l : Kind} (h : n.Grows m l) {x : Handle k} :
    m.IsRetired x ↔ n.IsRetired x := by
  rw [Netlist.isRetired_iff, Netlist.isRetired_iff, h.issued, IsLive, IsLive, h.slots]
  split
  · have hnext : x = ⟨(n.slots k).size⟩ ↔ x.index = (n.slots k).size := by
      cases x
      exact Handle.mk.injEq .. ▸ Iff.rfl
    have hlt : (n.slots k).IsLive x → x.index < (n.slots k).size := fun hl => hl.lt_size
    rw [Slots.isLive_push, hnext]
    by_cases hl : (n.slots k).IsLive x
    · simp [hl]
    · simp only [hl, or_false, not_false_eq_true, and_true]
      omega
  · rfl

/-- An edit that finds or creates something has nothing to report. -/
theorem Accounts.of_step (hn : n.Consistent) {e : Edit} {x : (k : Kind) × Handle k}
    (h : n.Step e (some x) m) (he : e ≠ .compact) : n.Accounts m [] where
  consistent := h.consistent hn
  stays := h.stays he
  count x := by
    have hiff : m.IsRetired x ↔ n.IsRetired x := by
      cases h with
      | found => exact Iff.rfl
      | block hm => exact hm.isRetired_iff
      | port hm => exact hm.isRetired_iff
      | pin hm => exact hm.isRetired_iff
      | net hm => exact hm.isRetired_iff
    simp [hiff]
  ordered _ := .of_notMem List.not_mem_nil

/-- A pin that leaves its net is not reported. -/
theorem accounts_removeNetPin (hn : n.Consistent) {e : NetId} {i : PinId}
    (h : n.removeNetPin e i = .ok m) : n.Accounts m [] := by
  obtain ⟨-, hrest⟩ := demand_bind_eq_ok_iff.1 h
  obtain ⟨hi, hrest⟩ := demand_bind_eq_ok_iff.1 hrest
  obtain ⟨r, hr⟩ := hn.sized.isLive_pin_iff.1 hi
  rw [Pins.read_nets hr, liftM_ok, ok_bind] at hrest
  obtain ⟨hnet, -⟩ := demand_bind_eq_ok_iff.1 hrest
  obtain ⟨l, hremove, hl⟩ := exists_removeNetPin hn hr hnet
  cases hremove.symm.trans h
  refine .of_shrinks hn hl List.Pairwise.nil (fun {k x} => ?_) fun _ => .of_notMem List.not_mem_nil
  cases k <;> simp [Loss.takes, Loss.ofLink]

/-- Every edit but compaction accounts for what it does. -/
theorem Consistent.accounts_apply (hn : n.Consistent) {e : Edit} {r : Edited}
    (h : e.apply n = .ok r) (he : e ≠ .compact) : n.Accounts r.netlist r.events := by
  have hstep := hn.step h
  cases e with
  | createBlock name model table =>
    cases h
    exact .of_step hn hstep he
  | createPort block name =>
    obtain ⟨q, -, hq⟩ := bind_eq_ok_iff.1 h
    cases hq
    exact .of_step hn hstep he
  | createPin port bit net role =>
    obtain ⟨q, -, hq⟩ := bind_eq_ok_iff.1 h
    cases hq
    exact .of_step hn hstep he
  | createNet name =>
    cases h
    exact .of_step hn hstep he
  | addNet name driver sinks =>
    obtain ⟨q, -, hq⟩ := bind_eq_ok_iff.1 h
    cases hq
    exact .of_step hn hstep he
  | removeBlock block =>
    obtain ⟨q, hq, hr⟩ := bind_eq_ok_iff.1 h
    cases hr
    obtain ⟨hl, hdrop⟩ := demand_bind_eq_ok_iff.1 hq
    obtain ⟨t, ht⟩ := hn.sized.isLive_block_iff.1 hl
    exact accounts_dropBlock hn ht (liftM_eq_ok_iff.1 hdrop)
  | removePin pin =>
    obtain ⟨q, hq, hr⟩ := bind_eq_ok_iff.1 h
    cases hr
    obtain ⟨hl, hdrop⟩ := demand_bind_eq_ok_iff.1 hq
    exact accounts_dropPin hn hl (liftM_eq_ok_iff.1 hdrop)
  | removeNet net =>
    obtain ⟨q, hq, hr⟩ := bind_eq_ok_iff.1 h
    cases hr
    obtain ⟨hl, hdrop⟩ := demand_bind_eq_ok_iff.1 hq
    exact accounts_dropNet hn hl (liftM_eq_ok_iff.1 hdrop)
  | removeNetPin net pin =>
    obtain ⟨q, hq, hr⟩ := bind_eq_ok_iff.1 h
    cases hr
    exact accounts_removeNetPin hn hq
  | sweep =>
    obtain ⟨q, hq, hr⟩ := bind_eq_ok_iff.1 h
    cases hr
    exact accounts_sweep hn (liftM_eq_ok_iff.1 hq)
  | compact => exact absurd rfl he

theorem Consistent.accounts_after (hn : n.Consistent) {e : Edit} (he : e ≠ .compact) :
    n.Accounts (e.after n) (e.events n) := by
  cases h : e.apply n with
  | error err =>
    rw [Edit.after_of_error h, Edit.events_of_error h]
    exact .refl hn
  | ok r =>
    rw [Edit.after_of_ok h, Edit.events_of_ok h]
    exact hn.accounts_apply h he

/-- A run without compactions accounts for what it does. -/
theorem Consistent.accounts_run (hn : n.Consistent) {es : List Edit} (hes : .compact ∉ es) :
    n.Accounts (Edit.run n es) (Edit.log n es) := by
  induction es generalizing n with
  | nil => exact .refl hn
  | cons e es ih =>
    have hm := hn.accounts_after fun he : e = .compact => hes (he ▸ List.mem_cons_self)
    exact hm.trans hn (ih hm.consistent fun h => hes (List.mem_cons_of_mem e h))

end Netlist

end MappedNetlist
