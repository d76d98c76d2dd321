import MappedNetlist.Netlist.Remove
import MappedNetlist.Proofs.Creation
import MappedNetlist.Proofs.Remains

/-!
# Removal in consistent netlists

Removing something that is live succeeds, takes a loss from the store and leaves the netlist
consistent (`Netlist.Shrinks`). The removal of a port is the loss of its pins one after the other
and then of the bare port, and the removal of a block that of its ports and then of the bare block;
added up, a port is lost with all its pins and a block with all its ports.
-/

namespace MappedNetlist

section Slots

variable {i : PinId} {slots : List (Option PinId)}

/-- Emptying the one slot that holds a pin takes the pin out. -/
theorem set_none_eq_clear {k : Nat}
    (h : ∀ {j : Nat}, slots[j]? = some (some i) → j = k) (hk : slots[k]? = some (some i)) :
    slots.set k none = clear (· == i) slots := by
  refine List.ext_getElem? fun j => ?_
  rw [clear, List.getElem?_map, List.getElem?_set]
  by_cases hj : k = j
  · subst hj
    rw [hk]
    simp [(List.getElem?_eq_some_iff.1 hk).1, Option.filter]
  · rw [if_neg hj]
    rcases hslot : slots[j]? with _ | _ | l
    · rfl
    · rfl
    · have hl : l ≠ i := by
        rintro rfl
        exact hj (h hslot).symm
      simp [Option.filter, hl]

/-- Vacating takes a pin out that is in one slot at most. -/
theorem vacate_eq_clear
    (h : ∀ {j k : Nat}, slots[j]? = some (some i) → slots[k]? = some (some i) → j = k) :
    vacate i slots = clear (· == i) slots := by
  induction slots with
  | nil => rfl
  | cons slot slots ih =>
    by_cases hslot : slot = some i
    · subst hslot
      have hrest : ∀ j, some j ∈ slots → (j == i) = false := by
        intro j hj
        obtain ⟨k, hk⟩ := List.mem_iff_getElem?.1 hj
        rw [beq_eq_false_iff_ne]
        rintro rfl
        simpa using h (j := 0) (k := k + 1) rfl hk
      have hself := clear_eq_self hrest
      rw [clear] at hself
      simp [vacate, clear, hself, Option.filter]
    · have hrest : vacate i slots = clear (· == i) slots :=
        ih fun hj hk => Nat.succ.inj (h (j := _ + 1) (k := _ + 1) hj hk)
      rw [vacate, if_neg hslot, hrest, clear, clear, List.map_cons]
      cases slot with
      | none => rfl
      | some j =>
        have hj : j ≠ i := fun hj => hslot (congrArg some hj)
        simp [Option.filter, hj]

end Slots

namespace Netlist

variable {n m l : Netlist} {d e : Loss}

theorem inTurn_cons_eq_ok {α : Type} {step : Netlist → α → Except Fault (Netlist × List Event)}
    {a : α} {as : List α} {now later : List Event} (h : step n a = .ok (m, now))
    (hs : inTurn step m as = .ok (l, later)) :
    inTurn step n (a :: as) = .ok (l, now ++ later) := by
  rw [inTurn_cons, h, ok_bind]
  simp only [hs, ok_bind, pure_eq_ok]

/-- The store suffered a loss, and the columns are what such a loss leaves of them; names and issued
handles are as before. The netlist is marked as dirty if anything was lost. -/
structure Shrinks (n m : Netlist) (d : Loss) : Prop where
  consistent : m.Consistent
  store : m.store = n.store.without d
  strings : m.strings = n.strings
  issued (k : Kind) : (m.slots k).size = (n.slots k).size
  remains : n.Remains m
  changed : m = n ∨ m.dirty = true ∧ ¬n.store.Likewise m.store

theorem Shrinks.trans (hd : n.Shrinks m d) (he : m.Shrinks l e) : n.Shrinks l (d ∪ e) where
  consistent := he.consistent
  store := by rw [he.store, hd.store, Store.without_without]
  strings := he.strings.trans hd.strings
  issued k := (he.issued k).trans (hd.issued k)
  remains := hd.remains.trans he.remains
  changed := by
    rcases hd.changed with rfl | ⟨-, hlost⟩
    · exact he.changed
    · rcases he.changed with rfl | ⟨hdirty, -⟩
      · exact hd.changed
      · refine .inr ⟨hdirty, fun h => hlost ?_⟩
        rw [he.store, hd.store, Store.without_without] at h
        exact hd.store ▸ h.of_union

theorem Shrinks.congr (hn : n.Consistent) (hd : n.Shrinks m d) (h : n.store.Agree d e) :
    n.Shrinks m e :=
  { hd with store := hd.store.trans (hn.coherent.without_congr h) }

theorem Shrinks.refl (hn : n.Consistent) : n.Shrinks n {} where
  consistent := hn
  store := Store.without_nothing.symm
  strings := rfl
  issued _ := rfl
  remains := .refl n
  changed := .inl rfl

/-! ## Pins -/

/-- A pin stands at one bit of one port. -/
theorem Consistent.eq_of_filled (hn : n.Consistent) {i : PinId} {r : PinRecord} {p : PortId}
    {q : PortRecord} {bit : Nat} (hi : n.store.pins i = some r) (hp : n.store.ports p = some q)
    (h : q.pins[bit]? = some (some i)) : r.port = p ∧ r.bit = bit := by
  obtain ⟨t, ht, hplace⟩ := hn.coherent.filled hp h
  obtain rfl : r = t := Option.some.inj (hi.symm.trans ht)
  exact hplace

theorem Consistent.clear_port_eq_self (hn : n.Consistent) {i : PinId} {r : PinRecord} {p : PortId}
    {q : PortRecord} (hi : n.store.pins i = some r) (hp : n.store.ports p = some q)
    (h : p ≠ r.port) : q.clear (· == i) = q := by
  refine PortRecord.ext rfl rfl rfl rfl (clear_eq_self fun j hj => ?_)
  rw [beq_eq_false_iff_ne]
  rintro rfl
  obtain ⟨bit, hbit⟩ := List.mem_iff_getElem?.1 hj
  exact h (hn.eq_of_filled hi hp hbit).1.symm

theorem Consistent.clear_net_eq_self (hn : n.Consistent) {i : PinId} {r : PinRecord} {e : NetId}
    {q : NetRecord} (hi : n.store.pins i = some r) (he : n.store.nets e = some q)
    (h : r.net ≠ some e) : q.clear (· == i) = q := by
  refine NetRecord.ext rfl (clear_eq_self fun j hj => ?_)
  rw [beq_eq_false_iff_ne]
  rintro rfl
  obtain ⟨slot, hslot⟩ := List.mem_iff_getElem?.1 hj
  obtain ⟨t, ht, hnet, -⟩ := hn.coherent.attached he hslot
  obtain rfl : r = t := Option.some.inj (hi.symm.trans ht)
  exact h hnet

/-- Taking a pin out of its net takes it out of all nets. -/
theorem Consistent.vacate_nets (hn : n.Consistent) {i : PinId} {r : PinRecord} {e : NetId}
    {q : NetRecord} (hi : n.store.pins i = some r) (hnet : r.net = some e)
    (he : n.store.nets e = some q) :
    Nets.record? { n.nets with pins := n.nets.pins.setIfInBounds e.index (vacate i q.pins) } =
      fun x => (n.store.nets x).map (·.clear (· == i)) := by
  rw [store_nets] at he
  rw [Nets.record?_setPins, he]
  funext x
  by_cases hx : x = e
  · subst hx
    rw [Function.update_self, store_nets, he, vacate_eq_clear (hn.coherent.once he)]
    rfl
  · rw [Function.update_of_ne hx, store_nets]
    cases ht : n.nets.record? x with
    | none => rfl
    | some t =>
      have hother : r.net ≠ some x := fun h => hx (Option.some.inj (h.symm.trans hnet))
      rw [Option.map_some, hn.clear_net_eq_self hi ht hother]

/-- Taking a pin off its bit takes it off all ports. -/
theorem Consistent.vacate_ports (hn : n.Consistent) {i : PinId} {r : PinRecord} {q : PortRecord}
    (hi : n.store.pins i = some r) (hp : n.store.ports r.port = some q) :
    Ports.record? { n.ports with
      pins := n.ports.pins.setIfInBounds r.port.index (q.pins.set r.bit none) } =
        fun x => (n.store.ports x).map (·.clear (· == i)) := by
  obtain ⟨q', hq', -, hget⟩ := hn.coherent.placed hi
  obtain rfl : q = q' := Option.some.inj (hp.symm.trans hq')
  have hset : q.pins.set r.bit none = clear (· == i) q.pins :=
    set_none_eq_clear (fun hj => (hn.eq_of_filled hi hp hj).2.symm) hget
  rw [store_ports] at hp
  rw [Ports.record?_setPins, hp, hset]
  funext x
  by_cases hx : x = r.port
  · subst hx
    rw [Function.update_self, store_ports, hp]
    rfl
  · rw [Function.update_of_ne hx, store_ports]
    cases ht : n.ports.record? x with
    | none => rfl
    | some t => rw [Option.map_some, hn.clear_port_eq_self hi ht hx]

/-- The columns after a pin was dropped, those of nets being given. -/
def withoutPin (n : Netlist) (i : PinId) (r : PinRecord) (q : PortRecord) (nets : Nets) :
    Netlist :=
  { n with
    dirty := true
    ports := { n.ports with
      pins := n.ports.pins.setIfInBounds r.port.index (q.pins.set r.bit none) }
    pins := { n.pins with
      slots := n.pins.slots.setIfInBounds i.index none
      nets := n.pins.nets.setIfInBounds i.index none }
    nets
    index := { n.index with pins := n.index.pins.erase r.key } }

theorem dropPin_eq_ok (hn : n.Consistent) {i : PinId} {r : PinRecord} {q : PortRecord}
    (hi : n.store.pins i = some r) (hp : n.store.ports r.port = some q) :
    ∃ nets : Nets, n.dropPin i = .ok (n.withoutPin i r q nets, [.removed .pin i]) ∧
      nets.Sized ∧ nets.slots = n.nets.slots ∧ nets.names = n.nets.names ∧
      (nets.record? = fun x => (n.store.nets x).map (·.clear (· == i))) ∧
      ∀ x : NetId, ¬n.IsLive x → nets.pins[x.index]? = n.nets.pins[x.index]? := by
  obtain ⟨hl, -, -, hnets, -⟩ := Pins.record?_eq_some_iff.1 hi
  obtain ⟨q', hq', -, hget⟩ := hn.coherent.placed hi
  obtain rfl : q = q' := Option.some.inj (hp.symm.trans hq')
  have hrow : writeSlot q.pins r.bit none = .ok (q.pins.set r.bit none) :=
    writeSlot_eq_ok_iff.2 ⟨(List.getElem?_eq_some_iff.1 hget).1, rfl⟩
  have hpins := (Ports.record?_eq_some_iff.1 hp).2.2.2.2.2
  cases hnet : r.net with
  | none =>
    refine ⟨n.nets, ?_, hn.sized.nets, rfl, rfl, ?_, fun _ _ => rfl⟩
    · simp only [dropPin, Pins.read_nets hi, hnet, ok_bind, Column.write_of_getElem? hnets,
        Pins.read_ports hi, Pins.read_bits hi, Ports.read_pins hp, hrow,
        Column.write_of_getElem? hpins, Column.write_of_getElem? hl, pure_eq_ok]
      rfl
    · funext x
      rw [store_nets]
      cases ht : n.nets.record? x with
      | none => rfl
      | some t => rw [Option.map_some, hn.clear_net_eq_self hi ht (by simp [hnet])]
  | some e =>
    obtain ⟨t, ht, -⟩ := hn.coherent.connected hi hnet
    refine ⟨{ n.nets with pins := n.nets.pins.setIfInBounds e.index (vacate i t.pins) }, ?_,
      hn.sized.nets.setPins .., rfl, rfl, hn.vacate_nets hi hnet ht,
      fun x hx => Column.getElem?_set_of_dead (Nets.isLive_of_record? ht) hx _⟩
    simp only [dropPin, Pins.read_nets hi, hnet, ok_bind,
      Column.alter_of_getElem? (Nets.record?_eq_some_iff.1 ht).2.2, Column.write_of_getElem? hnets,
      Pins.read_ports hi, Pins.read_bits hi, Ports.read_pins hp, hrow,
      Column.write_of_getElem? hpins, Column.write_of_getElem? hl, pure_eq_ok]
    rfl

/-- A live pin is dropped. -/
theorem exists_dropPin (hn : n.Consistent) {i : PinId} (hi : n.IsLive i) :
    ∃ m, n.dropPin i = .ok (m, [.removed .pin i]) ∧ n.Shrinks m (.ofPin i) := by
  obtain ⟨r, hr⟩ := hn.sized.isLive_pin_iff.1 hi
  obtain ⟨q, hq, -⟩ := hn.coherent.placed hr
  obtain ⟨nets, hdrop, hsized, hslots, hnames, hrecord, hold⟩ := dropPin_eq_ok hn hr hq
  have hstore : (n.withoutPin i r q nets).store = n.store.without (.ofPin i) := by
    rw [Store.without_ofPin]
    refine Store.ext rfl (hn.vacate_ports hr hq) ?_ hrecord
    refine (Pins.record?_retire { n.pins with
      nets := n.pins.nets.setIfInBounds i.index none } i).trans ?_
    rw [Pins.record?_setNet, Function.update_idem]
    rfl
  have hclosed : (Loss.ofPin i).Closed n.store := ⟨by simp [Loss.ofPin], by simp [Loss.ofPin]⟩
  have hpins : (n.pins.nets.setIfInBounds i.index none).size = n.pins.nets.size :=
    Array.size_setIfInBounds
  have hm : (n.withoutPin i r q nets).Consistent := by
    refine .of_store hstore ?_ ?_ ?_ ?_
    · exact { hn.sized with
        ports := hn.sized.ports.setPins ..
        pins := (hn.sized.pins.withNets hpins).retire i
        nets := hsized }
    · exact hn.coherent.without hclosed
    · refine .without hn.indexed.blocks hn.indexed.ports ?_ hn.indexed.nets
      rw [Loss.ofPin, ite_beq_none]
      exact hn.indexed.pins.erase (by rw [hr, Option.map_some])
    · refine hn.interned.of_subset rfl fun y hy => ?_
      simpa only [namesInUse, withoutPin, hnames] using hy
  refine ⟨_, hdrop, hm, hstore, rfl, ?_, ?_, .inr ⟨rfl, fun h => ?_⟩⟩
  · intro k
    cases k <;> simp [slots, withoutPin, hslots]
  · refine .of_store hn hm hstore rfl rfl rfl rfl ?_ ?_ ?_ hold ?_ ?_ ?_
    · rw [Nets.mk.injEq]
      exact ⟨rfl, hnames, rfl⟩
    · exact fun p hp => Column.getElem?_set_of_dead (Ports.isLive_of_record? hq) hp _
    · exact fun j hj => Column.getElem?_set_of_dead hi hj _
    · exact fun p hp hp' => absurd hp hp'
    · intro j hj hj'
      obtain rfl : j = i := by
        by_contra hne
        exact hj' (Slots.isLive_setIfInBounds_none.2 ⟨hne, hj⟩)
      exact Array.getElem?_setIfInBounds_self_of_lt (by rw [hn.sized.pins.nets]; exact hi.lt_size)
    · intro e he he'
      rw [IsLive, slots, withoutPin, hslots] at he'
      exact absurd he he'
  · have hlost := h.pin i
    rw [hstore] at hlost
    simp [Loss.ofPin, hr] at hlost

/-- What is still live after a loss. -/
theorem Shrinks.isLive_pin (hn : n.Consistent) (h : n.Shrinks m d) {i : PinId} (hi : n.IsLive i)
    (hd : d.pins i = false) : m.IsLive i := by
  obtain ⟨r, hr⟩ := hn.sized.isLive_pin_iff.1 hi
  rw [h.consistent.sized.isLive_pin_iff, h.store]
  exact ⟨_, Store.without_pins_eq_some_iff.2 ⟨hd, r, hr, rfl⟩⟩

theorem exists_inTurn_dropPin (hn : n.Consistent) {is : List PinId} (his : ∀ i ∈ is, n.IsLive i)
    (hnodup : is.Nodup) : ∃ m, inTurn dropPin n is = .ok (m, is.map (.removed .pin)) ∧
      n.Shrinks m { pins := is.contains } := by
  induction is generalizing n with
  | nil => exact ⟨n, rfl, Shrinks.refl hn⟩
  | cons i is ih =>
    obtain ⟨hi, hnodup⟩ := List.nodup_cons.1 hnodup
    obtain ⟨m, hdrop, hm⟩ := exists_dropPin hn (his i List.mem_cons_self)
    have hlive : ∀ j ∈ is, m.IsLive j := by
      intro j hj
      refine hm.isLive_pin hn (his j (List.mem_cons_of_mem i hj)) ?_
      rw [Loss.ofPin, beq_eq_false_iff_ne]
      rintro rfl
      exact hi hj
    obtain ⟨l, hrest, hl⟩ := ih hm.consistent hlive hnodup
    refine ⟨l, inTurn_cons_eq_ok hdrop hrest, (hm.trans hl).congr hn ?_⟩
    exact ⟨fun _ => rfl, fun _ => rfl, fun _ => List.contains_cons.symm, fun _ => rfl,
      fun _ => rfl⟩

/-! ## Ports -/

/-- The columns after the port `p`, whose record is `r`, was dropped, its pins having been dropped
before. -/
def withoutPort (n : Netlist) (p : PortId) (r : PortRecord) : Netlist :=
  { n with
    dirty := true
    ports := { n.ports with slots := n.ports.slots.setIfInBounds p.index none }
    index := { n.index with ports := n.index.ports.erase r.key } }

theorem shrinks_withoutPort (hn : n.Consistent) {p : PortId} {r : PortRecord}
    (hp : n.store.ports p = some r) (hbare : ∀ i, some i ∉ r.pins) :
    n.Shrinks (n.withoutPort p r) (.ofPort p) := by
  have hstore : (n.withoutPort p r).store = n.store.without (.ofPort p) := by
    rw [Store.without_ofPort]
    exact Store.ext rfl (Ports.record?_retire ..) rfl rfl
  have hclosed : (Loss.ofPort p).Closed n.store := by
    refine ⟨by simp [Loss.ofPort], fun {i q} hq hport => ?_⟩
    obtain ⟨t, ht, -, hget⟩ := hn.coherent.placed hq
    obtain rfl : q.port = p := by simpa [Loss.ofPort] using hport
    obtain rfl : r = t := Option.some.inj (hp.symm.trans ht)
    exact absurd (List.mem_of_getElem? hget) (hbare i)
  have hm : (n.withoutPort p r).Consistent := by
    refine .of_store hstore ?_ ?_ ?_ ?_
    · exact { hn.sized with ports := hn.sized.ports.retire p }
    · simpa [withoutPort] using hn.coherent.without hclosed
    · refine .without hn.indexed.blocks ?_ hn.indexed.pins hn.indexed.nets
      rw [Loss.ofPort, ite_beq_none]
      exact hn.indexed.ports.erase (by rw [hp, Option.map_some])
    · exact hn.interned
  refine ⟨hm, hstore, rfl, ?_, ?_, .inr ⟨rfl, fun h => ?_⟩⟩
  · intro k
    cases k <;> simp [slots, withoutPort]
  · refine .of_store hn hm hstore rfl rfl rfl rfl rfl (fun _ _ => rfl) (fun _ _ => rfl)
      (fun _ _ => rfl) ?_ (fun i hi hi' => absurd hi hi') (fun e he he' => absurd he he')
    intro q hq hq'
    obtain rfl : q = p := by
      by_contra hne
      exact hq' (Slots.isLive_setIfInBounds_none.2 ⟨hne, hq⟩)
    change n.ports.pins[q.index]? = _
    rw [(Ports.record?_eq_some_iff.1 hp).2.2.2.2.2, Option.map_some,
      clear_eq_self fun i hi => absurd hi (hbare i)]
  · have hlost := h.port p
    rw [hstore] at hlost
    simp [Loss.ofPort, hp] at hlost

/-- The pins of a port are listed by bit. -/
theorem Consistent.pairwise_pins (hn : n.Consistent) {p : PortId} {r : PortRecord}
    (hp : n.store.ports p = some r) : (r.pins.filterMap id).Pairwise fun i j =>
      ∃ q t, n.store.pins i = some q ∧ n.store.pins j = some t ∧ q.bit < t.bit := by
  rw [List.pairwise_filterMap, List.pairwise_iff_getElem]
  intro j k hj hk hlt i hi i' hi'
  obtain ⟨q, hq, -, hbit⟩ := hn.coherent.filled hp (List.getElem?_eq_some_iff.2 ⟨hj, hi⟩)
  obtain ⟨t, ht, -, hbit'⟩ := hn.coherent.filled hp (List.getElem?_eq_some_iff.2 ⟨hk, hi'⟩)
  exact ⟨q, t, hq, ht, by rwa [hbit, hbit']⟩

/-- No pin stands at two bits of a port. -/
theorem Consistent.nodup_pins (hn : n.Consistent) {p : PortId} {r : PortRecord}
    (hp : n.store.ports p = some r) : (r.pins.filterMap id).Nodup := by
  refine (hn.pairwise_pins hp).imp ?_
  rintro i _ ⟨q, t, hq, ht, hlt⟩ rfl
  obtain rfl : q = t := Option.some.inj (hq.symm.trans ht)
  exact Nat.lt_irrefl _ hlt

theorem Consistent.mem_pins_iff (hn : n.Consistent) {p : PortId} {r : PortRecord}
    (hp : n.store.ports p = some r) {i : PinId} :
    some i ∈ r.pins ↔ ∃ q, n.store.pins i = some q ∧ q.port = p := by
  constructor
  · intro hi
    obtain ⟨bit, hbit⟩ := List.mem_iff_getElem?.1 hi
    obtain ⟨q, hq, hport, -⟩ := hn.coherent.filled hp hbit
    exact ⟨q, hq, hport⟩
  · rintro ⟨q, hq, rfl⟩
    obtain ⟨t, ht, -, hget⟩ := hn.coherent.placed hq
    obtain rfl : r = t := Option.some.inj (hp.symm.trans ht)
    exact List.mem_of_getElem? hget

theorem Consistent.isLive_of_mem_pins (hn : n.Consistent) {p : PortId} {r : PortRecord}
    (hp : n.store.ports p = some r) : ∀ i ∈ r.pins.filterMap id, n.IsLive i := by
  intro i hi
  obtain ⟨q, hq, -⟩ := (hn.mem_pins_iff hp).1 (by simpa using hi)
  exact Pins.isLive_of_record? hq

/-- A port is dropped by dropping its pins, and then the port itself, at which no pin stands any more. -/
theorem dropPort_eq_ok (hn : n.Consistent) {p : PortId} {r : PortRecord}
    (hp : n.store.ports p = some r) :
    ∃ m q, inTurn dropPin n (r.pins.filterMap id) =
        .ok (m, (r.pins.filterMap id).map (.removed .pin)) ∧
      n.dropPort p =
        .ok (m.withoutPort p q, (r.pins.filterMap id).map (.removed .pin) ++ [.removed .port p]) ∧
      n.Shrinks m { pins := (r.pins.filterMap id).contains } ∧ m.store.ports p = some q ∧
      ∀ i, some i ∉ q.pins := by
  obtain ⟨m, hpins, hm⟩ :=
    exists_inTurn_dropPin hn (hn.isLive_of_mem_pins hp) (hn.nodup_pins hp)
  have hclear : m.store.ports p = some (r.clear (r.pins.filterMap id).contains) := by
    rw [hm.store]
    exact Store.without_ports_eq_some_iff.2 ⟨rfl, r, hp, rfl⟩
  refine ⟨m, _, hpins, ?_, hm, hclear, fun i hi => ?_⟩
  · simp only [dropPort, Ports.read_pins hp, ok_bind, hpins, Ports.read_owners hclear,
      Ports.read_names hclear, Column.write_of_getElem? (Ports.isLive_of_record? hclear),
      pure_eq_ok]
    rfl
  · obtain ⟨bit, hbit⟩ := List.mem_iff_getElem?.1 hi
    obtain ⟨hget, hgone⟩ := getElem?_clear_eq_some_iff.1 hbit
    have := List.mem_of_getElem? hget
    simp_all

/-- A live port is dropped with its pins. -/
theorem exists_dropPort (hn : n.Consistent) {p : PortId} {r : PortRecord}
    (hp : n.store.ports p = some r) :
    ∃ m, n.dropPort p = .ok (m, (r.pins.filterMap id).map (.removed .pin) ++ [.removed .port p]) ∧
      n.Shrinks m (.ofPorts n.store (· == p)) := by
  obtain ⟨m, q, -, hdrop, hm, hq, hbare⟩ := dropPort_eq_ok hn hp
  refine ⟨_, hdrop, (hm.trans (shrinks_withoutPort hm.consistent hq hbare)).congr hn ?_⟩
  refine ⟨fun _ => rfl, fun _ => rfl, fun {i q} hq => ?_, fun _ => rfl, fun _ => rfl⟩
  have hmem : i ∈ r.pins.filterMap id ↔ q.port = p := by
    rw [show i ∈ r.pins.filterMap id ↔ some i ∈ r.pins by simp, hn.mem_pins_iff hp]
    exact ⟨fun ⟨t, ht, hport⟩ => Option.some.inj (hq.symm.trans ht) ▸ hport, fun h => ⟨q, hq, h⟩⟩
  rw [Bool.eq_iff_iff]
  simp [Loss.ofPort, Loss.ofPorts, hq, ← hmem]

/-! ## Blocks -/

/-- Ports are lost with their pins one after the other, those removed before being skipped. -/
theorem exists_inTurn_dropLivePort (hn : n.Consistent) (ps : List PortId) :
    ∃ m es, inTurn dropLivePort n ps = .ok (m, es) ∧
      n.Shrinks m (.ofPorts n.store ps.contains) := by
  induction ps generalizing n with
  | nil =>
    refine ⟨n, [], rfl, (Shrinks.refl hn).congr hn ?_⟩
    refine ⟨fun _ => rfl, fun _ => rfl, fun _ => ?_, fun _ => rfl, fun _ => rfl⟩
    simp [Loss.ofPorts]
  | cons p ps ih =>
    by_cases hl : n.IsLive p
    · obtain ⟨r, hr⟩ := hn.sized.isLive_port_iff.1 hl
      obtain ⟨m, hdrop, hm⟩ := exists_dropPort hn hr
      obtain ⟨l, es, hrest, hshrinks⟩ := ih hm.consistent
      refine ⟨l, _, inTurn_cons_eq_ok ((if_pos hl).trans hdrop) hrest,
        (hm.trans hshrinks).congr hn ?_⟩
      refine ⟨fun _ => rfl, fun _ => List.contains_cons.symm, fun {i q} hi => ?_, fun _ => rfl,
        fun _ => rfl⟩
      rw [Loss.pins_union, hm.store]
      by_cases hport : q.port = p
      · simp [Loss.ofPorts, hi, hport]
      · simp [Loss.ofPorts, hi, hport]
    · obtain ⟨m, es, hrest, hshrinks⟩ := ih hn
      have hother {q : PortId} (hq : n.IsLive q) : (p :: ps).contains q = ps.contains q := by
        have hne : q ≠ p := fun h => hl (h ▸ hq)
        simp [hne]
      refine ⟨m, _, inTurn_cons_eq_ok (if_neg hl) hrest, hshrinks.congr hn ?_⟩
      refine ⟨fun _ => rfl, fun hq => ?_, fun {i q} hi => ?_, fun _ => rfl, fun _ => rfl⟩
      · exact (hother (Ports.isLive_of_record? hq)).symm
      · obtain ⟨t, ht, -⟩ := hn.coherent.placed hi
        simp only [Loss.ofPorts, hi, Option.any_some]
        exact (hother (Ports.isLive_of_record? ht)).symm

/-- The columns after the block `b`, whose record is `r`, was dropped, its ports having been dropped
before. -/
def withoutBlock (n : Netlist) (b : BlockId) (r : BlockRecord) : Netlist :=
  { n with
    dirty := true
    blocks := { n.blocks with slots := n.blocks.slots.setIfInBounds b.index none }
    index := { n.index with blocks := n.index.blocks.erase r.name } }

theorem shrinks_withoutBlock (hn : n.Consistent) {b : BlockId} {r : BlockRecord}
    (hb : n.store.blocks b = some r) (hbare : ∀ {p q}, n.store.ports p = some q → q.owner ≠ b) :
    n.Shrinks (n.withoutBlock b r) (.ofBlock b) := by
  have hstore : (n.withoutBlock b r).store = n.store.without (.ofBlock b) := by
    rw [Store.without_ofBlock]
    exact Store.ext (Blocks.record?_retire ..) rfl rfl rfl
  have hclosed : (Loss.ofBlock b).Closed n.store := by
    refine ⟨fun hq hblock => ?_, by simp [Loss.ofBlock]⟩
    exact absurd (by simpa [Loss.ofBlock] using hblock) (hbare hq)
  have hm : (n.withoutBlock b r).Consistent := by
    refine .of_store hstore ?_ ?_ ?_ ?_
    · exact { hn.sized with blocks := hn.sized.blocks.retire b }
    · exact hn.coherent.without hclosed
    · refine .without ?_ hn.indexed.ports hn.indexed.pins hn.indexed.nets
      rw [Loss.ofBlock, ite_beq_none]
      exact hn.indexed.blocks.erase (by rw [hb, Option.map_some])
    · exact hn.interned
  refine ⟨hm, hstore, rfl, ?_, ?_, .inr ⟨rfl, fun h => ?_⟩⟩
  · intro k
    cases k <;> simp [slots, withoutBlock]
  · exact .of_store hn hm hstore rfl rfl rfl rfl rfl (fun _ _ => rfl) (fun _ _ => rfl)
      (fun _ _ => rfl) (fun p hp hp' => absurd hp hp') (fun i hi hi' => absurd hi hi')
      fun e he he' => absurd he he'
  · have hlost := h.block b
    rw [hstore] at hlost
    simp [Loss.ofBlock, hb] at hlost

/-- A block lists the live ports that it owns. -/
theorem Consistent.mem_ports_iff (hn : n.Consistent) {b : BlockId} {r : BlockRecord}
    (hb : n.store.blocks b = some r) {p : PortId} {q : PortRecord} (hp : n.store.ports p = some q) :
    p ∈ r.ports ↔ q.owner = b := by
  rw [BlockRecord.mem_ports_iff]
  constructor
  · rintro ⟨c, hc⟩
    exact ((hn.coherent.listed hb hc).2 q hp).1
  · rintro rfl
    obtain ⟨t, ht, hmem⟩ := hn.coherent.owned hp
    obtain rfl : r = t := Option.some.inj (hb.symm.trans ht)
    exact ⟨_, hmem⟩

/-- A block is dropped by dropping its live ports, and then the block itself, which no port belongs to
any more. -/
theorem dropBlock_eq_ok (hn : n.Consistent) {b : BlockId} {r : BlockRecord}
    (hb : n.store.blocks b = some r) :
    ∃ m es, inTurn dropLivePort n r.ports = .ok (m, es) ∧
      n.dropBlock b = .ok (m.withoutBlock b r, es ++ [.removed .block b]) ∧
      n.Shrinks m (.ofPorts n.store r.ports.contains) ∧ m.store.blocks b = some r ∧
      ∀ {p q}, m.store.ports p = some q → q.owner ≠ b := by
  obtain ⟨m, es, hports, hm⟩ := exists_inTurn_dropLivePort hn r.ports
  have hmb : m.store.blocks b = some r := by
    rw [hm.store]
    exact Store.without_blocks_eq_some_iff.2 ⟨rfl, hb⟩
  refine ⟨m, es, hports, ?_, hm, hmb, fun {p q} hp howner => ?_⟩
  · simp only [dropBlock, portsOf_eq_ok hb, ok_bind, hports, Blocks.read_names hmb,
      Column.write_of_getElem? (Blocks.isLive_of_record? hmb), pure_eq_ok]
    rfl
  · rw [hm.store] at hp
    obtain ⟨hkept, t, ht, rfl⟩ := Store.without_ports_eq_some_iff.1 hp
    have hmem := (hn.mem_ports_iff hb ht).2 howner
    simp [Loss.ofPorts, hmem] at hkept

/-- A live block is dropped with its ports and the pins of these. -/
theorem exists_dropBlock (hn : n.Consistent) {b : BlockId} {r : BlockRecord}
    (hb : n.store.blocks b = some r) :
    ∃ m es, n.dropBlock b = .ok (m, es) ∧ n.Shrinks m (.ofBlocks n.store (· == b)) := by
  obtain ⟨m, es, -, hdrop, hm, hmb, hbare⟩ := dropBlock_eq_ok hn hb
  refine ⟨_, _, hdrop, (hm.trans (shrinks_withoutBlock hm.consistent hmb hbare)).congr hn ?_⟩
  refine ⟨fun _ => rfl, fun {p q} hp => ?_, fun {i q} hi => ?_, fun _ => rfl, fun _ => rfl⟩
  · rw [Bool.eq_iff_iff]
    simp [Loss.ofPorts, Loss.ofBlock, Loss.ofBlocks, hp, hn.mem_ports_iff hb hp]
  · obtain ⟨t, ht, -⟩ := hn.coherent.placed hi
    rw [Bool.eq_iff_iff]
    simp [Loss.ofPorts, Loss.ofBlock, Loss.ofBlocks, hi, ht, hn.mem_ports_iff hb ht]

/-! ## Nets -/

/-- A pin is in a slot of a net exactly if it is on the net. -/
theorem Consistent.mem_slots_iff (hn : n.Consistent) {e : NetId} {t : NetRecord} {i : PinId}
    {r : PinRecord} (he : n.store.nets e = some t) (hi : n.store.pins i = some r) :
    some i ∈ t.pins ↔ r.net = some e := by
  constructor
  · intro hmem
    obtain ⟨slot, hslot⟩ := List.mem_iff_getElem?.1 hmem
    obtain ⟨q, hq, hnet, -⟩ := hn.coherent.attached he hslot
    exact Option.some.inj (hi.symm.trans hq) ▸ hnet
  · intro hnet
    obtain ⟨q, hq, slot, hslot, -⟩ := hn.coherent.connected hi hnet
    exact Option.some.inj (he.symm.trans hq) ▸ List.mem_of_getElem? hslot

/-- A live net is dropped, and its pins stay. -/
theorem exists_dropNet (hn : n.Consistent) {e : NetId} (he : n.IsLive e) :
    ∃ m, n.dropNet e = .ok (m, [.removed .net e]) ∧ n.Shrinks m (.ofNet e) := by
  obtain ⟨t, ht⟩ := hn.sized.isLive_net_iff.1 he
  obtain ⟨hl, -, hpins⟩ := Nets.record?_eq_some_iff.1 ht
  have hlive : ∀ i ∈ t.pins.filterMap id, n.IsLive i := by
    intro i hi
    obtain ⟨slot, hslot⟩ := List.mem_iff_getElem?.1 (show some i ∈ t.pins by simpa using hi)
    obtain ⟨q, hq, -⟩ := hn.coherent.attached ht hslot
    exact Pins.isLive_of_record? hq
  have hbound : ∀ i ∈ t.pins.filterMap id, i.index < n.pins.nets.size := by
    intro i hi
    rw [hn.sized.pins.nets]
    exact (hlive i hi).lt_size
  obtain ⟨column, hassign, hsize, hget⟩ := exists_assignNet none hbound
  let m : Netlist := { n with
    dirty := true
    pins := { n.pins with nets := column }
    nets := { n.nets with
      slots := n.nets.slots.setIfInBounds e.index none
      pins := n.nets.pins.setIfInBounds e.index [] }
    index := { n.index with nets := n.index.nets.erase t.name } }
  have hstore : m.store = n.store.without (.ofNet e) := by
    rw [Store.without_ofNet]
    refine Store.ext rfl rfl ?_ ?_
    · funext i
      refine (Pins.record?_withNets (hget i)).trans (Option.map_congr fun r hi => ?_)
      have hmem : i ∈ t.pins.filterMap id ↔ r.net = some e := by
        rw [← hn.mem_slots_iff ht hi]
        simp
      refine PinRecord.ext rfl rfl ?_ rfl
      simp only [hmem]
      cases hnet : r.net with
      | none => simp [hnet]
      | some x => by_cases hx : x = e <;> simp [hnet, hx, Option.filter]
    · refine (Nets.record?_retire { n.nets with pins := n.nets.pins.setIfInBounds e.index [] }
        e).trans ?_
      rw [Nets.record?_setPins, Function.update_idem]
      rfl
  have hclosed : (Loss.ofNet e).Closed n.store := ⟨by simp [Loss.ofNet], by simp [Loss.ofNet]⟩
  have hm : m.Consistent := by
    refine .of_store hstore ?_ ?_ ?_ ?_
    · exact { hn.sized with
        pins := hn.sized.pins.withNets hsize
        nets := (hn.sized.nets.setPins e []).retire e }
    · exact hn.coherent.without hclosed
    · refine .without hn.indexed.blocks hn.indexed.ports hn.indexed.pins ?_
      rw [Loss.ofNet, ite_beq_none]
      exact hn.indexed.nets.erase (by rw [ht, Option.map_some])
    · exact hn.interned
  refine ⟨m, ?_, hm, hstore, rfl, ?_, ?_, .inr ⟨rfl, fun h => ?_⟩⟩
  · simp only [dropNet, Nets.read_pins ht, ok_bind, hassign, Column.write_of_getElem? hpins,
      Nets.read_names ht, Column.write_of_getElem? hl, pure_eq_ok]
    rfl
  · intro k
    cases k <;> simp [slots, m]
  · refine .of_store hn hm hstore rfl rfl rfl rfl rfl (fun _ _ => rfl) ?_ ?_
      (fun p hp hp' => absurd hp hp') (fun i hi hi' => absurd hi hi') ?_
    · intro i hi
      have hkept : (fun old : Option NetId => if i ∈ t.pins.filterMap id then none else old) = id :=
        funext fun _ => if_neg fun hmem => hi (hlive i hmem)
      exact (hget i).trans (by rw [hkept, Option.map_id, id])
    · exact fun x hx => Column.getElem?_set_of_dead hl hx _
    · intro x hx hx'
      obtain rfl : x = e := by
        by_contra hne
        exact hx' (Slots.isLive_setIfInBounds_none.2 ⟨hne, hx⟩)
      exact Array.getElem?_setIfInBounds_self_of_lt (Array.getElem?_eq_some_iff.1 hpins).1
  · have hlost := h.net e
    rw [hstore] at hlost
    simp [Loss.ofNet, ht] at hlost

/-! ## Operations that check their handles -/

theorem removeBlock_of_dead {b : BlockId} (hb : ¬n.IsLive b) :
    n.removeBlock b = .error (.refused (.invalidHandle .block b)) := by
  simp [removeBlock, hb]

theorem exists_removeBlock (hn : n.Consistent) {b : BlockId} (hb : n.IsLive b) :
    ∃ m es, n.removeBlock b = .ok (m, es) ∧ n.Shrinks m (.ofBlocks n.store (· == b)) := by
  obtain ⟨r, hr⟩ := hn.sized.isLive_block_iff.1 hb
  obtain ⟨m, es, hdrop, hm⟩ := exists_dropBlock hn hr
  exact ⟨m, es, by simp [removeBlock, hb, hdrop], hm⟩

theorem removePin_of_dead {i : PinId} (hi : ¬n.IsLive i) :
    n.removePin i = .error (.refused (.invalidHandle .pin i)) := by
  simp [removePin, hi]

theorem exists_removePin (hn : n.Consistent) {i : PinId} (hi : n.IsLive i) :
    ∃ m es, n.removePin i = .ok (m, es) ∧ n.Shrinks m (.ofPin i) := by
  obtain ⟨m, hdrop, hm⟩ := exists_dropPin hn hi
  exact ⟨m, _, by simp [removePin, hi, hdrop]; rfl, hm⟩

theorem removeNet_of_dead {e : NetId} (he : ¬n.IsLive e) :
    n.removeNet e = .error (.refused (.invalidHandle .net e)) := by
  simp [removeNet, he]

theorem exists_removeNet (hn : n.Consistent) {e : NetId} (he : n.IsLive e) :
    ∃ m es, n.removeNet e = .ok (m, es) ∧ n.Shrinks m (.ofNet e) := by
  obtain ⟨m, hdrop, hm⟩ := exists_dropNet hn he
  exact ⟨m, _, by simp [removeNet, he, hdrop]; rfl, hm⟩

theorem removeNetPin_of_deadNet {e : NetId} (he : ¬n.IsLive e) (i : PinId) :
    n.removeNetPin e i = .error (.refused (.invalidHandle .net e)) := by
  simp [removeNetPin, he]

theorem removeNetPin_of_deadPin {e : NetId} {i : PinId} (he : n.IsLive e) (hi : ¬n.IsLive i) :
    n.removeNetPin e i = .error (.refused (.invalidHandle .pin i)) := by
  simp [removeNetPin, he, hi]

theorem removeNetPin_of_apart {e : NetId} {i : PinId} {r : PinRecord} (he : n.IsLive e)
    (hi : n.store.pins i = some r) (hnet : r.net ≠ some e) :
    n.removeNetPin e i = .error (.refused (.pinNotOnNet i e)) := by
  have hl : n.IsLive i := Pins.isLive_of_record? hi
  simp [removeNetPin, he, hl, Pins.read_nets hi, hnet]

/-- A pin is taken off its net, and both stay. -/
theorem exists_removeNetPin (hn : n.Consistent) {e : NetId} {i : PinId} {r : PinRecord}
    (hi : n.store.pins i = some r) (hnet : r.net = some e) :
    ∃ m, n.removeNetPin e i = .ok m ∧ n.Shrinks m (.ofLink i) := by
  obtain ⟨t, ht, -⟩ := hn.coherent.connected hi hnet
  have hli : n.IsLive i := Pins.isLive_of_record? hi
  have hle : n.IsLive e := Nets.isLive_of_record? ht
  let m : Netlist := { n with
    dirty := true
    pins := { n.pins with nets := n.pins.nets.setIfInBounds i.index none }
    nets := { n.nets with pins := n.nets.pins.setIfInBounds e.index (vacate i t.pins) } }
  have hstore : m.store = n.store.without (.ofLink i) := by
    rw [Store.without_ofLink]
    refine Store.ext rfl rfl ?_ (hn.vacate_nets hi hnet ht)
    refine (Pins.record?_setNet ..).trans ?_
    funext j
    by_cases hj : j = i
    · subst hj
      simp [PinRecord.release, store_pins]
    · have hji : (j == i) = false := beq_eq_false_iff_ne.2 hj
      simp [hj, hji, store_pins]
  have hclosed : (Loss.ofLink i).Closed n.store := ⟨by simp [Loss.ofLink], by simp [Loss.ofLink]⟩
  have hm : m.Consistent := by
    refine .of_store hstore ?_ ?_ ?_ ?_
    · exact { hn.sized with
        pins := hn.sized.pins.withNets Array.size_setIfInBounds
        nets := hn.sized.nets.setPins .. }
    · exact hn.coherent.without hclosed
    · exact .without hn.indexed.blocks hn.indexed.ports hn.indexed.pins hn.indexed.nets
    · exact hn.interned
  refine ⟨m, ?_, hm, hstore, rfl, ?_, ?_, .inr ⟨rfl, fun h => ?_⟩⟩
  · simp only [removeNetPin, demand_of_pos hle, ok_bind, demand_of_pos hli, Pins.read_nets hi,
      liftM_ok, demand_of_pos hnet, Column.alter_of_getElem? (Nets.record?_eq_some_iff.1 ht).2.2,
      Column.write_of_getElem? (Pins.record?_eq_some_iff.1 hi).2.2.2.1, pure_eq_ok]
    rfl
  · intro k
    cases k <;> simp [slots, m]
  · exact .of_store hn hm hstore rfl rfl rfl rfl rfl (fun _ _ => rfl)
      (fun j hj => Column.getElem?_set_of_dead hli hj _)
      (fun x hx => Column.getElem?_set_of_dead hle hx _)
      (fun p hp hp' => absurd hp hp') (fun j hj hj' => absurd hj hj') fun x hx hx' => absurd hx hx'
  · have hlost := h.pin i
    rw [hstore] at hlost
    simp [Loss.ofLink, hi, hnet] at hlost

end Netlist

end MappedNetlist
