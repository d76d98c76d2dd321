import MappedNetlist.Proofs.Consistency

/-!
# Growing stores

What creation does to a store. A new entity takes a handle without a record, and is entered where
other entities have to know of it: a port in the list of its block, a pin at its bit and in a slot
of its net, a net with the pins in its slots. A store stays coherent if the place is free.
-/

namespace MappedNetlist

section Update

variable {α : Type} {k : Kind} {f : Handle k → Option α} {g : α → α} {h x : Handle k} {a b : α}

/-- The family with a new record, for a handle that had none. -/
theorem update_some_eq_some_iff (hf : f h = none) :
    Function.update f h (some a) x = some b ↔ (x = h ∧ b = a) ∨ f x = some b := by
  by_cases hx : x = h
  · subst hx
    simp [hf, eq_comm]
  · simp [hx]

theorem update_of_eq_some (hf : f h = none) {v : Option α} (hx : f x = some b) :
    Function.update f h v x = some b := by
  rw [Function.update_of_ne, hx]
  rintro rfl
  simp [hf] at hx

/-- The family with the record of a handle changed by `g`. -/
def modify (f : Handle k → Option α) (h : Handle k) (g : α → α) : Handle k → Option α :=
  Function.update f h ((f h).map g)

@[simp] theorem modify_self (f : Handle k → Option α) (h : Handle k) (g : α → α) :
    modify f h g h = (f h).map g :=
  Function.update_self ..

theorem modify_of_ne (f : Handle k → Option α) (g : α → α) (hx : x ≠ h) :
    modify f h g x = f x :=
  Function.update_of_ne hx ..

theorem modify_eq_some_iff :
    modify f h g x = some b ↔ ∃ a, f x = some a ∧ b = if x = h then g a else a := by
  by_cases hx : x = h
  · subst hx
    simp [eq_comm]
  · simp [modify_of_ne f g hx, hx]

theorem modify_apply (f : Handle k → Option α) (h : Handle k) (g : α → α) (x : Handle k) :
    modify f h g x = (f x).map fun a => if x = h then g a else a := by
  ext b
  rw [modify_eq_some_iff, Option.map_eq_some_iff]
  simp only [eq_comm]

end Update

/-! ## New references -/

namespace BlockRecord

/-- The record of a block that lists one more port, last under its class. -/
@[simps] def list (r : BlockRecord) (c : PortClass) (p : PortId) : BlockRecord :=
  { r with listed := Function.update r.listed c (r.listed c ++ [p]) }

theorem mem_listed_list {r : BlockRecord} {c d : PortClass} {p x : PortId} :
    x ∈ (r.list c p).listed d ↔ x ∈ r.listed d ∨ (d = c ∧ x = p) := by
  by_cases hd : d = c
  · subst hd
    simp
  · simp [hd]

end BlockRecord

/-- The record of a port with a pin at a bit. -/
@[simps] def PortRecord.fill (r : PortRecord) (bit : Nat) (i : PinId) : PortRecord :=
  { r with pins := r.pins.set bit (some i) }

/-- The slots of a net with one more pin: a driver takes the first slot, a sink a new last one. -/
def plug (i : PinId) : PinRole → List (Option PinId) → List (Option PinId)
  | .driver, slots => slots.set 0 (some i)
  | .sink, slots => slots ++ [some i]

/-- The record of a net with one more pin. -/
@[simps] def NetRecord.plug (r : NetRecord) (i : PinId) (role : PinRole) : NetRecord :=
  { r with pins := MappedNetlist.plug i role r.pins }

/-- The slot that a pin would take. -/
def freeSlot (slots : List (Option PinId)) : PinRole → Nat
  | .driver => 0
  | .sink => slots.length

theorem slotRole_freeSlot {slots : List (Option PinId)} (hs : slots ≠ []) (role : PinRole) :
    Netlist.slotRole (freeSlot slots role) = role := by
  cases role with
  | driver => rfl
  | sink => simp [freeSlot, Netlist.slotRole, hs]

theorem plug_ne_nil {i : PinId} {role : PinRole} {slots : List (Option PinId)} (hs : slots ≠ []) :
    plug i role slots ≠ [] := by
  cases role <;> simp [plug, hs]

/-- A net that is not driven twice keeps its pins and gets one more. -/
theorem getElem?_plug_eq_some_iff {i j : PinId} {role : PinRole} {slots : List (Option PinId)}
    (hs : slots ≠ []) (hfree : role = .driver → slots[0]? = some none) {slot : Nat} :
    (plug i role slots)[slot]? = some (some j) ↔
      (slot = freeSlot slots role ∧ j = i) ∨ slots[slot]? = some (some j) := by
  cases role with
  | driver =>
    have hlen : 0 < slots.length := List.length_pos_iff.2 hs
    rw [plug, freeSlot, List.getElem?_set]
    by_cases h : slot = 0
    · subst h
      rw [if_pos rfl, if_pos hlen, hfree rfl]
      simp [eq_comm]
    · simp [h, Ne.symm h]
  | sink =>
    rw [plug, freeSlot, List.getElem?_append, List.getElem?_singleton]
    rcases Nat.lt_trichotomy slot slots.length with hlt | rfl | hgt
    · simp [hlt, Nat.ne_of_lt hlt]
    · simp [eq_comm]
    · have hne : slot - slots.length ≠ 0 := Nat.sub_ne_zero_of_lt hgt
      simp [Nat.lt_asymm hgt, hne, Nat.ne_of_gt hgt]

theorem some_mem_plug_iff {i j : PinId} {role : PinRole} {slots : List (Option PinId)}
    (hs : slots ≠ []) (hfree : role = .driver → slots[0]? = some none) :
    some j ∈ plug i role slots ↔ j = i ∨ some j ∈ slots := by
  simp only [List.mem_iff_getElem?, getElem?_plug_eq_some_iff hs hfree, exists_or,
    exists_eq_left]

/-- The record of a pin after the net `e` was made, if `slots` are the slots of that net. -/
@[simps] def PinRecord.join (q : PinRecord) (i : PinId) (e : NetId)
    (slots : List (Option PinId)) : PinRecord :=
  { q with net := if some i ∈ slots then some e else q.net }

namespace Store

variable {s : Store} {issued : Nat}

/-! ## Blocks -/

/-- The store with one more block. -/
@[simps -fullyApplied] def addBlock (s : Store) (b : BlockId) (r : BlockRecord) : Store :=
  { s with blocks := Function.update s.blocks b (some r) }

theorem Coherent.addBlock (hs : s.Coherent issued) {b : BlockId} {r : BlockRecord}
    (hb : s.blocks b = none) (hr : ∀ c, r.listed c = []) : (s.addBlock b r).Coherent issued where
  listed hq c p hp := by
    rcases (update_some_eq_some_iff hb).1 hq with ⟨-, rfl⟩ | hq
    · simp [hr] at hp
    · exact hs.listed hq hp
  owned hq := by
    obtain ⟨q, hb', hmem⟩ := hs.owned hq
    exact ⟨q, update_of_eq_some hb hb', hmem⟩
  width := hs.width
  filled := hs.filled
  placed := hs.placed
  connected := hs.connected
  slotted := hs.slotted
  once := hs.once
  attached := hs.attached

/-! ## Ports -/

/-- The store with one more port, which its block lists. -/
@[simps -fullyApplied] def addPort (s : Store) (p : PortId) (r : PortRecord) : Store :=
  { s with
    blocks := modify s.blocks r.owner (·.list r.portClass p)
    ports := Function.update s.ports p (some r) }

theorem Coherent.addPort (hs : s.Coherent issued) {p : PortId} {r : PortRecord} {b : BlockRecord}
    (hp : s.ports p = none) (hfresh : p.index = issued) (hb : s.blocks r.owner = some b)
    (hr : r.pins = List.replicate r.width none) : (s.addPort p r).Coherent (issued + 1) where
  listed {x q} hq c y hy := by
    obtain ⟨q, hq', rfl⟩ := modify_eq_some_iff.1 hq
    have hold (hy : y ∈ q.listed c) : y.index < issued + 1 ∧
        ∀ t, (s.addPort p r).ports y = some t → t.owner = x ∧ t.portClass = c := by
      obtain ⟨hlt, hy⟩ := hs.listed hq' hy
      refine ⟨Nat.lt_succ_of_lt hlt, fun t ht => ?_⟩
      rcases (update_some_eq_some_iff hp).1 ht with ⟨rfl, -⟩ | ht
      · exact absurd hfresh (Nat.ne_of_lt hlt)
      · exact hy t ht
    split at hy
    · next hx =>
      rcases BlockRecord.mem_listed_list.1 hy with hy | ⟨rfl, rfl⟩
      · exact hold hy
      · exact ⟨hfresh ▸ Nat.lt_succ_self _, by simp [hx]⟩
    · exact hold hy
  owned {x q} hq := by
    have hlist {o : BlockId} {t : BlockRecord} (ht : s.blocks o = some t) {c : PortClass}
        {y : PortId} (hy : y ∈ t.listed c ∨ (o = r.owner ∧ c = r.portClass ∧ y = p)) :
        ∃ t', (s.addPort p r).blocks o = some t' ∧ y ∈ t'.listed c := by
      refine ⟨_, modify_eq_some_iff.2 ⟨t, ht, rfl⟩, ?_⟩
      split
      · rw [BlockRecord.mem_listed_list]
        exact hy.imp_right And.right
      · next ho => exact hy.resolve_right fun h => ho h.1
    rcases (update_some_eq_some_iff hp).1 hq with ⟨rfl, rfl⟩ | hq
    · exact hlist hb (.inr ⟨rfl, rfl, rfl⟩)
    · obtain ⟨t, ht, hmem⟩ := hs.owned hq
      exact hlist ht (.inl hmem)
  width hq := by
    rcases (update_some_eq_some_iff hp).1 hq with ⟨-, rfl⟩ | hq
    · rw [hr, List.length_replicate]
    · exact hs.width hq
  filled {x q} hq bit i hi := by
    rcases (update_some_eq_some_iff hp).1 hq with ⟨-, rfl⟩ | hq
    · simp [hr, List.getElem?_replicate] at hi
    · exact hs.filled hq hi
  placed hi := by
    obtain ⟨q, hq, hbit, hget⟩ := hs.placed hi
    exact ⟨q, update_of_eq_some hp hq, hbit, hget⟩
  connected := hs.connected
  slotted := hs.slotted
  once := hs.once
  attached := hs.attached

/-! ## Pins -/

/-- The store with one more pin, at its bit and in a slot of its net. -/
@[simps -fullyApplied] def addPin (s : Store) (i : PinId) (r : PinRecord) : Store :=
  { s with
    ports := modify s.ports r.port (·.fill r.bit i)
    pins := Function.update s.pins i (some r)
    nets := match r.net with
      | none => s.nets
      | some e => modify s.nets e (·.plug i r.role) }

theorem addPin_nets_apply (s : Store) (i : PinId) (r : PinRecord) (e : NetId) :
    (s.addPin i r).nets e =
      (s.nets e).map fun t => if r.net = some e then t.plug i r.role else t := by
  rw [addPin_nets]
  cases r.net with
  | none => simp
  | some e' => simp only [modify_apply, Option.some.injEq, eq_comm (a := e)]

theorem addPin_nets_eq_some_iff {i : PinId} {r : PinRecord} {e : NetId} {q : NetRecord} :
    (s.addPin i r).nets e = some q ↔
      ∃ t, s.nets e = some t ∧ q = if r.net = some e then t.plug i r.role else t := by
  rw [addPin_nets_apply, Option.map_eq_some_iff]
  simp only [eq_comm]

/-- A pin that takes a free bit of its port changes no other bit. -/
theorem getElem?_fill_eq_some_iff {p : PortRecord} {bit : Nat} {i : PinId}
    (hbit : p.pins[bit]? = some none) {k : Nat} {j : PinId} :
    (p.fill bit i).pins[k]? = some (some j) ↔
      (k = bit ∧ j = i) ∨ p.pins[k]? = some (some j) := by
  rw [PortRecord.fill_pins, List.getElem?_set]
  by_cases hk : bit = k
  · subst hk
    rw [if_pos rfl, if_pos (List.getElem?_eq_some_iff.1 hbit).1, hbit]
    simp [eq_comm]
  · simp [hk, Ne.symm hk]

/-- The ports of a store with one more pin are the old ones, with the pin at its bit. -/
theorem exists_of_addPin_ports {i : PinId} {r : PinRecord} {p : PortRecord}
    (hp : s.ports r.port = some p) (hbit : p.pins[r.bit]? = some none) {x : PortId}
    {q : PortRecord} (hq : (s.addPin i r).ports x = some q) :
    ∃ t, s.ports x = some t ∧ q.owner = t.owner ∧ q.portClass = t.portClass ∧
      q.width = t.width ∧ q.pins.length = t.pins.length ∧
      ∀ (k : Nat) (j : PinId), q.pins[k]? = some (some j) ↔
        (x = r.port ∧ k = r.bit ∧ j = i) ∨ t.pins[k]? = some (some j) := by
  obtain ⟨t, ht, rfl⟩ := modify_eq_some_iff.1 hq
  refine ⟨t, ht, ?_⟩
  split
  · next hx =>
    obtain rfl : p = t := Option.some.inj ((hx ▸ hp).symm.trans ht)
    refine ⟨rfl, rfl, rfl, by simp, fun k j => ?_⟩
    rw [getElem?_fill_eq_some_iff hbit]
    simp [hx]
  · next hx => simp [hx]

/-- The nets of a store with one more pin are the old ones, with the pin in its slot. -/
theorem exists_of_addPin_nets {i : PinId} {r : PinRecord}
    (hs : ∀ {e t}, s.nets e = some t → t.pins ≠ [])
    (hnet : ∀ e, r.net = some e → ∃ t, s.nets e = some t ∧
      (r.role = .driver → t.pins[0]? = some none)) {e : NetId} {q : NetRecord}
    (hq : (s.addPin i r).nets e = some q) :
    ∃ t, s.nets e = some t ∧ q.pins ≠ [] ∧
      ∀ (slot : Nat) (j : PinId), q.pins[slot]? = some (some j) ↔
        (r.net = some e ∧ slot = freeSlot t.pins r.role ∧ j = i) ∨
          t.pins[slot]? = some (some j) := by
  obtain ⟨t, ht, rfl⟩ := addPin_nets_eq_some_iff.1 hq
  refine ⟨t, ht, ?_⟩
  split
  · next hr =>
    obtain ⟨t', ht', hfree⟩ := hnet e hr
    obtain rfl : t = t' := Option.some.inj (ht.symm.trans ht')
    refine ⟨plug_ne_nil (hs ht), fun slot j => ?_⟩
    rw [NetRecord.plug_pins, getElem?_plug_eq_some_iff (hs ht) hfree]
    simp [hr]
  · next hr => simp [hr, hs ht]

theorem Coherent.addPin (hs : s.Coherent issued) {i : PinId} {r : PinRecord} {p : PortRecord}
    (hi : s.pins i = none) (hp : s.ports r.port = some p) (hbit : p.pins[r.bit]? = some none)
    (hnet : ∀ e, r.net = some e → ∃ t, s.nets e = some t ∧
      (r.role = .driver → t.pins[0]? = some none)) :
    (s.addPin i r).Coherent issued where
  listed {b q} hq c x hx := by
    obtain ⟨hlt, hx⟩ := hs.listed hq hx
    refine ⟨hlt, fun t ht => ?_⟩
    obtain ⟨t', ht', howner, hclass, -⟩ := exists_of_addPin_ports hp hbit ht
    rw [howner, hclass]
    exact hx t' ht'
  owned {x q} hq := by
    obtain ⟨t, ht, howner, hclass, -⟩ := exists_of_addPin_ports hp hbit hq
    rw [howner, hclass]
    exact hs.owned ht
  width {x q} hq := by
    obtain ⟨t, ht, -, -, hwidth, hlength, -⟩ := exists_of_addPin_ports hp hbit hq
    rw [hlength, hwidth]
    exact hs.width ht
  filled {x q} hq k j hj := by
    obtain ⟨t, ht, -, -, -, -, hpins⟩ := exists_of_addPin_ports hp hbit hq
    rcases (hpins k j).1 hj with ⟨rfl, rfl, rfl⟩ | hj
    · exact ⟨r, Function.update_self .., rfl, rfl⟩
    · obtain ⟨q, hq, hplace⟩ := hs.filled ht hj
      exact ⟨q, update_of_eq_some hi hq, hplace⟩
  placed {j q} hj := by
    have hkept {x : PortId} {t : PortRecord} (ht : s.ports x = some t) :
        ∃ t', (s.addPin i r).ports x = some t' := ⟨_, modify_eq_some_iff.2 ⟨t, ht, rfl⟩⟩
    rcases (update_some_eq_some_iff hi).1 hj with ⟨rfl, rfl⟩ | hj
    · obtain ⟨q', hq'⟩ := hkept hp
      obtain ⟨t, ht, -, -, hwidth, -, hpins⟩ := exists_of_addPin_ports hp hbit hq'
      obtain rfl : p = t := Option.some.inj (hp.symm.trans ht)
      refine ⟨q', hq', ?_, (hpins _ _).2 (.inl ⟨rfl, rfl, rfl⟩)⟩
      rw [hwidth, ← hs.width hp]
      exact (List.getElem?_eq_some_iff.1 hbit).1
    · obtain ⟨t, ht, hlt, hget⟩ := hs.placed hj
      obtain ⟨q', hq'⟩ := hkept ht
      obtain ⟨t', ht', -, -, hwidth, -, hpins⟩ := exists_of_addPin_ports hp hbit hq'
      obtain rfl : t = t' := Option.some.inj (ht.symm.trans ht')
      exact ⟨q', hq', hwidth ▸ hlt, (hpins _ _).2 (.inr hget)⟩
  connected {j q} hj e he := by
    have hkept {t : NetRecord} (ht : s.nets e = some t) : ∃ t', (s.addPin i r).nets e = some t' :=
      ⟨_, addPin_nets_eq_some_iff.2 ⟨t, ht, rfl⟩⟩
    rcases (update_some_eq_some_iff hi).1 hj with ⟨rfl, rfl⟩ | hj
    · obtain ⟨t, ht, -⟩ := hnet e he
      obtain ⟨q', hq'⟩ := hkept ht
      obtain ⟨t', ht', -, hpins⟩ := exists_of_addPin_nets hs.slotted hnet hq'
      exact ⟨q', hq', _, (hpins _ _).2 (.inl ⟨he, rfl, rfl⟩), slotRole_freeSlot (hs.slotted ht') _⟩
    · obtain ⟨t, ht, slot, hslot, hrole⟩ := hs.connected hj he
      obtain ⟨q', hq'⟩ := hkept ht
      obtain ⟨t', ht', -, hpins⟩ := exists_of_addPin_nets hs.slotted hnet hq'
      obtain rfl : t = t' := Option.some.inj (ht.symm.trans ht')
      exact ⟨q', hq', slot, (hpins _ _).2 (.inr hslot), hrole⟩
  slotted {e q} hq := by
    obtain ⟨t, -, hnil, -⟩ := exists_of_addPin_nets hs.slotted hnet hq
    exact hnil
  once {e q} hq j k l hk hl := by
    obtain ⟨t, ht, -, hpins⟩ := exists_of_addPin_nets hs.slotted hnet hq
    have hfresh (slot : Nat) : t.pins[slot]? ≠ some (some i) := by
      intro hslot
      obtain ⟨q, hq, -⟩ := hs.attached ht hslot
      simp [hi] at hq
    rcases (hpins k j).1 hk with ⟨-, rfl, rfl⟩ | hk
    · rcases (hpins l j).1 hl with ⟨-, rfl, -⟩ | hl
      · rfl
      · exact absurd hl (hfresh l)
    · rcases (hpins l j).1 hl with ⟨-, rfl, rfl⟩ | hl
      · exact absurd hk (hfresh k)
      · exact hs.once ht hk hl
  attached {e q} hq slot j hj := by
    obtain ⟨t, ht, -, hpins⟩ := exists_of_addPin_nets hs.slotted hnet hq
    rcases (hpins slot j).1 hj with ⟨he, rfl, rfl⟩ | hj
    · exact ⟨r, Function.update_self .., he, (slotRole_freeSlot (hs.slotted ht) _).symm⟩
    · obtain ⟨q, hq, hback⟩ := hs.attached ht hj
      exact ⟨q, update_of_eq_some hi hq, hback⟩

/-! ## Nets -/

/-- The store with one more net, whose pins are on it. -/
@[simps -fullyApplied] def addNet (s : Store) (e : NetId) (r : NetRecord) : Store :=
  { s with
    pins := fun i => (s.pins i).map (·.join i e r.pins)
    nets := Function.update s.nets e (some r) }

theorem Coherent.addNet (hs : s.Coherent issued) {e : NetId} {r : NetRecord}
    (he : s.nets e = none) (hnil : r.pins ≠ [])
    (honce : ∀ {i : PinId} {j k : Nat}, r.pins[j]? = some (some i) → r.pins[k]? = some (some i) →
      j = k)
    (hfree : ∀ {slot : Nat} {i : PinId}, r.pins[slot]? = some (some i) →
      ∃ q, s.pins i = some q ∧ q.net = none ∧ q.role = Netlist.slotRole slot) :
    (s.addNet e r).Coherent issued where
  listed := hs.listed
  owned := hs.owned
  width := hs.width
  filled hq bit i hi := by
    obtain ⟨q, hq', hplace⟩ := hs.filled hq hi
    exact ⟨q.join i e r.pins, by simp [hq'], hplace⟩
  placed hi := by
    obtain ⟨q, hq, rfl⟩ := Option.map_eq_some_iff.1 hi
    obtain ⟨t, ht, hplace⟩ := hs.placed hq
    exact ⟨t, ht, hplace⟩
  connected {i q'} hi e' he' := by
    obtain ⟨q, hq, rfl⟩ := Option.map_eq_some_iff.1 hi
    rw [PinRecord.join_net] at he'
    split at he'
    · next hmem =>
      cases he'
      obtain ⟨slot, hslot⟩ := List.mem_iff_getElem?.1 hmem
      obtain ⟨q', hq', -, hrole⟩ := hfree hslot
      obtain rfl : q = q' := Option.some.inj (hq.symm.trans hq')
      exact ⟨r, Function.update_self .., slot, hslot, hrole.symm⟩
    · obtain ⟨t, ht, hslot⟩ := hs.connected hq he'
      exact ⟨t, update_of_eq_some he ht, hslot⟩
  slotted hq := by
    rcases (update_some_eq_some_iff he).1 hq with ⟨-, rfl⟩ | hq
    · exact hnil
    · exact hs.slotted hq
  once hq i j k hj hk := by
    rcases (update_some_eq_some_iff he).1 hq with ⟨-, rfl⟩ | hq
    · exact honce hj hk
    · exact hs.once hq hj hk
  attached {e' t} ht slot i hi := by
    rcases (update_some_eq_some_iff he).1 ht with ⟨rfl, rfl⟩ | ht
    · obtain ⟨q, hq, -, hrole⟩ := hfree hi
      refine ⟨q.join i e' t.pins, by simp [hq], ?_, hrole⟩
      rw [PinRecord.join_net, if_pos (List.mem_of_getElem? hi)]
    · obtain ⟨q, hq, hnet, hrole⟩ := hs.attached ht hi
      refine ⟨q.join i e r.pins, by simp [hq], ?_, hrole⟩
      rw [PinRecord.join_net, if_neg, hnet]
      intro hmem
      obtain ⟨slot', hslot'⟩ := List.mem_iff_getElem?.1 hmem
      obtain ⟨q', hq', hnone, -⟩ := hfree hslot'
      obtain rfl : q = q' := Option.some.inj (hq.symm.trans hq')
      simp [hnone] at hnet

end Store

end MappedNetlist
