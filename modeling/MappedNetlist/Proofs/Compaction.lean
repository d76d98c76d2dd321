import MappedNetlist.Proofs.Packing
import MappedNetlist.Proofs.Sweeping
import MappedNetlist.Proofs.Verification

/-!
# Compaction of consistent netlists

Compaction sweeps a netlist and packs what is left: every live entity moves to its new handle, and
its record moves along, with all handles and names in it replaced (`Netlist.Packs`). Since every
reference in a consistent netlist leads to a live entity, it has somewhere to go, and the packed
netlist is consistent again; its index, built from the columns alone, is exact because no two live
entities share a key.
-/

namespace MappedNetlist

section Redirect

variable {k : Kind} {s : Slots k} {h h' : Handle k}

theorem Slots.Moves.redirect_eq (h₁ : s.Moves h h') : redirect s.renumbering h = h' := by
  rw [redirect, h₁, Option.getD_some]

/-- Live handles that are redirected to one handle are one. -/
theorem Slots.eq_of_redirect (hs : s.Placed) {x y : Handle k} (hx : s.IsLive x) (hy : s.IsLive y)
    (heq : redirect s.renumbering x = redirect s.renumbering y) : x = y := by
  obtain ⟨x', hx'⟩ := exists_moves hs hx
  obtain ⟨y', hy'⟩ := exists_moves hs hy
  rw [hx'.redirect_eq, hy'.redirect_eq] at heq
  exact hx'.injective hs (heq ▸ hy')

theorem Slots.Moves.relink_eq (h₁ : s.Moves h h') : relink s.renumbering (some h) = some h' := h₁

theorem relink_eq_some_iff {o : Option (Handle k)} :
    relink s.renumbering o = some h' ↔ ∃ h, o = some h ∧ s.Moves h h' :=
  Option.bind_eq_some_iff

end Redirect

section RelinkNet

variable {s : Slots .pin} {slots : List (Option PinId)} {i i' : PinId} {j : Nat}

theorem getElem?_relinkNet_succ (m : Renumbering PinId) (slots : List (Option PinId)) (j : Nat) :
    (relinkNet m slots)[j + 1]? = ((slots.tail.filterMap (relink m))[j]?).map some := by
  rw [relinkNet, List.getElem?_cons_succ, List.getElem?_map]

/-- A pin keeps a slot for its role. -/
theorem exists_slot_relinkNet (hj : slots[j]? = some (some i)) (hi : s.Moves i i') :
    ∃ j', (relinkNet s.renumbering slots)[j']? = some (some i') ∧
      Netlist.slotRole j' = Netlist.slotRole j := by
  cases j with
  | zero =>
    refine ⟨0, ?_, rfl⟩
    rw [relinkNet, List.getElem?_cons_zero, List.head?_eq_getElem?, hj]
    exact congrArg some hi.relink_eq
  | succ j =>
    have hmem : i' ∈ slots.tail.filterMap (relink s.renumbering) := by
      refine List.mem_filterMap.2 ⟨some i, ?_, hi.relink_eq⟩
      exact List.mem_of_getElem? (by rwa [List.getElem?_tail])
    obtain ⟨j', hj'⟩ := List.mem_iff_getElem?.1 hmem
    exact ⟨j' + 1, by rw [getElem?_relinkNet_succ, hj']; rfl, rfl⟩

/-- Every pin in a slot comes from a slot for the same role. -/
theorem exists_slot_of_relinkNet (hj : (relinkNet s.renumbering slots)[j]? = some (some i')) :
    ∃ j' i, slots[j']? = some (some i) ∧ s.Moves i i' ∧
      Netlist.slotRole j' = Netlist.slotRole j := by
  cases j with
  | zero =>
    rw [relinkNet, List.getElem?_cons_zero, Option.some_inj, relink_eq_some_iff] at hj
    obtain ⟨i, hi, hmove⟩ := hj
    rw [List.head?_eq_getElem?, Option.join_eq_some_iff] at hi
    exact ⟨0, i, hi, hmove, rfl⟩
  | succ j =>
    rw [getElem?_relinkNet_succ, Option.map_eq_some_iff] at hj
    obtain ⟨_, hj, ⟨⟩⟩ := hj
    obtain ⟨slot, hmem, hslot⟩ := List.mem_filterMap.1 (List.mem_of_getElem? hj)
    obtain ⟨i, rfl, hmove⟩ := relink_eq_some_iff.1 hslot
    obtain ⟨j', hj'⟩ := List.mem_iff_getElem?.1 hmem
    rw [List.getElem?_tail] at hj'
    exact ⟨j' + 1, i, hj', hmove, rfl⟩

theorem Netlist.Apart.relink (hs : s.Placed) {a b : Option PinId} (h : Netlist.Apart a b) :
    Netlist.Apart (relink s.renumbering a) (relink s.renumbering b) := by
  intro i' ha hb
  obtain ⟨i, rfl, hi⟩ := relink_eq_some_iff.1 ha
  obtain ⟨j, rfl, hj⟩ := relink_eq_some_iff.1 hb
  exact h i rfl (congrArg some (hj.injective hs hi))

/-- Pins that were in different slots still are. -/
theorem pairwise_relinkNet (hs : s.Placed) (hslots : slots.Pairwise Netlist.Apart) :
    (relinkNet s.renumbering slots).Pairwise Netlist.Apart := by
  cases slots with
  | nil => simp [relinkNet, relink]
  | cons a slots =>
    obtain ⟨hhead, htail⟩ := List.pairwise_cons.1 hslots
    refine List.pairwise_cons.2 ⟨fun slot hslot => ?_, ?_⟩
    · obtain ⟨i', hi', rfl⟩ := List.mem_map.1 hslot
      obtain ⟨b, hb, hlink⟩ := List.mem_filterMap.1 hi'
      exact hlink ▸ (hhead b hb).relink hs
    · refine List.pairwise_map.2 (List.pairwise_filterMap.2 (htail.imp fun {b c} hbc => ?_))
      intro i' hb j' hc i hi
      obtain rfl : i' = i := Option.some.inj hi
      exact fun hj => hbc.relink hs i' hb (hc.trans hj)

end RelinkNet

/-! ## Columns without gaps -/

/-- Every position has a live handle. -/
def Slots.Full {k : Kind} (s : Slots k) : Prop := ∀ i, i < s.size → s.IsLive ⟨i⟩

theorem Slots.full_ofRenumbering {k : Kind} (s : Slots k) :
    (ofRenumbering s.renumbering).Full := by
  intro i hi
  rw [size_ofRenumbering] at hi
  exact (isLive_ofRenumbering s).2 hi

/-- If no slot is empty, a column is the list of what the records have in it. -/
theorem Slots.Full.getElem?_eq_map {k : Kind} {s : Slots k} (hs : s.Full) {α β : Type}
    {col : Column α} {record? : Handle k → Option β} {field : β → α} (hsize : col.size = s.size)
    (hnone : ∀ {h}, record? h = none ↔ ¬s.IsLive h)
    (hsome : ∀ {h r}, record? h = some r → col[h.index]? = some (field r)) (i : Nat) :
    col.toList[i]? = (record? ⟨i⟩).map field := by
  rw [Array.getElem?_toList]
  cases hr : record? ⟨i⟩ with
  | none =>
    have hi : col.size ≤ i := by
      rw [hsize, ← Nat.not_lt]
      exact fun hi => hnone.1 hr (hs i hi)
    rw [Array.getElem?_eq_none hi]
    rfl
  | some r => exact hsome hr

theorem Blocks.Sized.getElem?_names {b : Blocks} (hb : b.Sized) (hf : b.slots.Full) (i : Nat) :
    b.names.toList[i]? = (b.record? ⟨i⟩).map BlockRecord.name :=
  hf.getElem?_eq_map hb.names (record?_eq_none_iff hb)
    (fun hr => (record?_eq_some_iff.1 hr).2.1) i

theorem Ports.Sized.getElem?_names {p : Ports} (hp : p.Sized) (hf : p.slots.Full) (i : Nat) :
    p.names.toList[i]? = (p.record? ⟨i⟩).map PortRecord.name :=
  hf.getElem?_eq_map hp.names (record?_eq_none_iff hp)
    (fun hr => (record?_eq_some_iff.1 hr).2.1) i

theorem Ports.Sized.getElem?_keys {p : Ports} (hp : p.Sized) (hf : p.slots.Full) (i : Nat) :
    (List.zipWith PortKey.mk p.owners.toList p.names.toList)[i]? =
      (p.record? ⟨i⟩).map PortRecord.key := by
  have howners : p.owners.toList[i]? = (p.record? ⟨i⟩).map PortRecord.owner :=
    hf.getElem?_eq_map hp.owners (record?_eq_none_iff hp)
      (fun hr => (record?_eq_some_iff.1 hr).2.2.1) i
  rw [List.getElem?_zipWith, howners, hp.getElem?_names hf]
  cases p.record? ⟨i⟩ <;> rfl

theorem Pins.Sized.getElem?_keys {p : Pins} (hp : p.Sized) (hf : p.slots.Full) (i : Nat) :
    (List.zipWith BitKey.mk p.ports.toList p.bits.toList)[i]? =
      (p.record? ⟨i⟩).map PinRecord.key := by
  have hports : p.ports.toList[i]? = (p.record? ⟨i⟩).map PinRecord.port :=
    hf.getElem?_eq_map hp.ports (record?_eq_none_iff hp)
      (fun hr => (record?_eq_some_iff.1 hr).2.1) i
  have hbits : p.bits.toList[i]? = (p.record? ⟨i⟩).map PinRecord.bit :=
    hf.getElem?_eq_map hp.bits (record?_eq_none_iff hp)
      (fun hr => (record?_eq_some_iff.1 hr).2.2.1) i
  rw [List.getElem?_zipWith, hports, hbits]
  cases p.record? ⟨i⟩ <;> rfl

theorem Nets.Sized.getElem?_names {n : Nets} (hn : n.Sized) (hf : n.slots.Full) (i : Nat) :
    n.names.toList[i]? = (n.record? ⟨i⟩).map NetRecord.name :=
  hf.getElem?_eq_map hn.names (record?_eq_none_iff hn)
    (fun hr => (record?_eq_some_iff.1 hr).2.1) i

namespace Netlist

/-- The netlist under other names, which stand for texts in another table. -/
def rename (m : Netlist) (g : StringId → StringId) (u : StringTable) : Netlist :=
  { m with
    blocks := { m.blocks with names := m.blocks.names.map g }
    ports := { m.ports with names := m.ports.names.map g }
    nets := { m.nets with names := m.nets.names.map g }
    strings := u }

/-- The live entities of `t` stand in `m` at their new handles, with all handles in their records
replaced and their names replaced by `f`, which keeps the texts. -/
structure Packs (t m : Netlist) (f : StringId → StringId) : Prop where
  sized : m.Sized
  slots (k : Kind) : m.slots k = Slots.ofRenumbering (t.slots k).renumbering
  block {b b' : BlockId} : t.blocks.slots.Moves b b' →
    m.store.blocks b' = (t.store.blocks b).map fun r => (r.renumber t.renumberings).rename f
  port {p p' : PortId} : t.ports.slots.Moves p p' →
    m.store.ports p' = (t.store.ports p).map fun r => (r.renumber t.renumberings).rename f
  pin {i i' : PinId} : t.pins.slots.Moves i i' →
    m.store.pins i' = (t.store.pins i).map fun r => r.renumber t.renumberings
  net {e e' : NetId} : t.nets.slots.Moves e e' →
    m.store.nets e' = (t.store.nets e).map fun r => (r.renumber t.renumberings).rename f
  blockName {b : BlockId} {r : BlockRecord} : t.store.blocks b = some r →
    m.strings.text? (f r.name) = t.strings.text? r.name
  portName {p : PortId} {r : PortRecord} : t.store.ports p = some r →
    m.strings.text? (f r.name) = t.strings.text? r.name
  netName {e : NetId} {r : NetRecord} : t.store.nets e = some r →
    m.strings.text? (f r.name) = t.strings.text? r.name

variable {t m : Netlist} {f : StringId → StringId}

/-- If no slot is empty, every name in a column is that of a live entity. -/
theorem Sized.exists_named (hm : m.Sized) (hfull : ∀ k, (m.slots k).Full) {name : StringId}
    (hname : name ∈ m.namesInUse) : (∃ b r, m.store.blocks b = some r ∧ r.name = name) ∨
      (∃ p r, m.store.ports p = some r ∧ r.name = name) ∨
        ∃ e r, m.store.nets e = some r ∧ r.name = name := by
  rw [namesInUse, List.mem_append, List.mem_append, or_assoc] at hname
  refine hname.imp (fun hname => ?_) (Or.imp (fun hname => ?_) fun hname => ?_)
  · obtain ⟨i, hi⟩ := List.mem_iff_getElem?.1 hname
    rw [hm.blocks.getElem?_names (hfull .block), Option.map_eq_some_iff] at hi
    exact ⟨⟨i⟩, hi⟩
  · obtain ⟨i, hi⟩ := List.mem_iff_getElem?.1 hname
    rw [hm.ports.getElem?_names (hfull .port), Option.map_eq_some_iff] at hi
    exact ⟨⟨i⟩, hi⟩
  · obtain ⟨i, hi⟩ := List.mem_iff_getElem?.1 hname
    rw [hm.nets.getElem?_names (hfull .net), Option.map_eq_some_iff] at hi
    exact ⟨⟨i⟩, hi⟩

namespace Packs

/-- What is live in the packed netlist was moved there. -/
theorem isLive_iff (h : t.Packs m f) (ht : t.Sized) {k : Kind} {x' : Handle k} :
    m.IsLive x' ↔ ∃ x, (t.slots k).Moves x x' := by
  rw [IsLive, h.slots, Slots.isLive_ofRenumbering]
  constructor
  · exact Slots.exists_moves_of_lt (ht.placed k) x'
  · rintro ⟨x, hx⟩
    exact hx.index_lt (ht.placed k)

theorem blocks_eq_some_iff (h : t.Packs m f) (ht : t.Sized) {b' : BlockId} {r' : BlockRecord} :
    m.store.blocks b' = some r' ↔ ∃ b r, t.blocks.slots.Moves b b' ∧ t.store.blocks b = some r ∧
      (r.renumber t.renumberings).rename f = r' := by
  constructor
  · intro hr'
    obtain ⟨b, hb⟩ := (h.isLive_iff ht).1 (h.sized.isLive_block_iff.2 ⟨r', hr'⟩)
    obtain ⟨r, hr, rfl⟩ := Option.map_eq_some_iff.1 ((h.block hb).symm.trans hr')
    exact ⟨b, r, hb, hr, rfl⟩
  · rintro ⟨b, r, hb, hr, rfl⟩
    rw [h.block hb, hr]
    rfl

theorem ports_eq_some_iff (h : t.Packs m f) (ht : t.Sized) {p' : PortId} {r' : PortRecord} :
    m.store.ports p' = some r' ↔ ∃ p r, t.ports.slots.Moves p p' ∧ t.store.ports p = some r ∧
      (r.renumber t.renumberings).rename f = r' := by
  constructor
  · intro hr'
    obtain ⟨p, hp⟩ := (h.isLive_iff ht).1 (h.sized.isLive_port_iff.2 ⟨r', hr'⟩)
    obtain ⟨r, hr, rfl⟩ := Option.map_eq_some_iff.1 ((h.port hp).symm.trans hr')
    exact ⟨p, r, hp, hr, rfl⟩
  · rintro ⟨p, r, hp, hr, rfl⟩
    rw [h.port hp, hr]
    rfl

theorem pins_eq_some_iff (h : t.Packs m f) (ht : t.Sized) {i' : PinId} {r' : PinRecord} :
    m.store.pins i' = some r' ↔ ∃ i r, t.pins.slots.Moves i i' ∧ t.store.pins i = some r ∧
      r.renumber t.renumberings = r' := by
  constructor
  · intro hr'
    obtain ⟨i, hi⟩ := (h.isLive_iff ht).1 (h.sized.isLive_pin_iff.2 ⟨r', hr'⟩)
    obtain ⟨r, hr, rfl⟩ := Option.map_eq_some_iff.1 ((h.pin hi).symm.trans hr')
    exact ⟨i, r, hi, hr, rfl⟩
  · rintro ⟨i, r, hi, hr, rfl⟩
    rw [h.pin hi, hr]
    rfl

theorem nets_eq_some_iff (h : t.Packs m f) (ht : t.Sized) {e' : NetId} {r' : NetRecord} :
    m.store.nets e' = some r' ↔ ∃ e r, t.nets.slots.Moves e e' ∧ t.store.nets e = some r ∧
      (r.renumber t.renumberings).rename f = r' := by
  constructor
  · intro hr'
    obtain ⟨e, he⟩ := (h.isLive_iff ht).1 (h.sized.isLive_net_iff.2 ⟨r', hr'⟩)
    obtain ⟨r, hr, rfl⟩ := Option.map_eq_some_iff.1 ((h.net he).symm.trans hr')
    exact ⟨e, r, he, hr, rfl⟩
  · rintro ⟨e, r, he, hr, rfl⟩
    rw [h.net he, hr]
    rfl

/-- References that agree go on agreeing under their new handles. -/
theorem coherent (h : t.Packs m f) (ht : t.Consistent) :
    m.store.Coherent m.ports.slots.size where
  listed {b' r'} hr' c p' hp' := by
    obtain ⟨b, r, hb, hr, rfl⟩ := (h.blocks_eq_some_iff ht.sized).1 hr'
    obtain ⟨p, hp, hmove⟩ := List.mem_filterMap.1 hp'
    refine ⟨((h.isLive_iff ht.sized).2 ⟨p, hmove⟩).lt_size, fun q' hq' => ?_⟩
    obtain ⟨p₂, q, hmove₂, hq, rfl⟩ := (h.ports_eq_some_iff ht.sized).1 hq'
    obtain rfl : p = p₂ := Slots.Moves.injective ht.sized.ports.placed hmove hmove₂
    obtain ⟨howner, hclass⟩ := (ht.coherent.listed hr hp).2 q hq
    refine ⟨?_, hclass⟩
    rw [PortRecord.rename_owner, PortRecord.renumber_owner, howner]
    exact hb.redirect_eq
  owned {p' r'} hr' := by
    obtain ⟨p, r, hp, hr, rfl⟩ := (h.ports_eq_some_iff ht.sized).1 hr'
    obtain ⟨q, hq, hmem⟩ := ht.coherent.owned hr
    obtain ⟨b', hb⟩ := Slots.exists_moves ht.sized.blocks.placed (Blocks.isLive_of_record? hq)
    refine ⟨_, (h.blocks_eq_some_iff ht.sized).2 ⟨r.owner, q, ?_, hq, rfl⟩,
      List.mem_filterMap.2 ⟨p, hmem, hp⟩⟩
    rw [PortRecord.rename_owner, PortRecord.renumber_owner, renumberings, hb.redirect_eq]
    exact hb
  width {p' r'} hr' := by
    obtain ⟨p, r, -, hr, rfl⟩ := (h.ports_eq_some_iff ht.sized).1 hr'
    simpa using ht.coherent.width hr
  filled {p' r'} hr' bit i' hi' := by
    obtain ⟨p, r, hp, hr, rfl⟩ := (h.ports_eq_some_iff ht.sized).1 hr'
    rw [PortRecord.rename_pins, PortRecord.renumber_pins, List.getElem?_map,
      Option.map_eq_some_iff] at hi'
    obtain ⟨slot, hslot, hlink⟩ := hi'
    obtain ⟨i, rfl, hi⟩ := relink_eq_some_iff.1 hlink
    obtain ⟨q, hq, hport, hbit⟩ := ht.coherent.filled hr hslot
    refine ⟨_, (h.pins_eq_some_iff ht.sized).2 ⟨i, q, hi, hq, rfl⟩, ?_, hbit⟩
    rw [PinRecord.renumber_port, hport]
    exact hp.redirect_eq
  placed {i' r'} hr' := by
    obtain ⟨i, r, hi, hr, rfl⟩ := (h.pins_eq_some_iff ht.sized).1 hr'
    obtain ⟨q, hq, hlt, hget⟩ := ht.coherent.placed hr
    obtain ⟨p', hp⟩ := Slots.exists_moves ht.sized.ports.placed (Ports.isLive_of_record? hq)
    refine ⟨_, (h.ports_eq_some_iff ht.sized).2 ⟨r.port, q, ?_, hq, rfl⟩, hlt, ?_⟩
    · rw [PinRecord.renumber_port, renumberings, hp.redirect_eq]
      exact hp
    · rw [PortRecord.rename_pins, PortRecord.renumber_pins, List.getElem?_map]
      exact Option.map_eq_some_iff.2 ⟨some i, hget, hi.relink_eq⟩
  connected {i' r'} hr' e' he' := by
    obtain ⟨i, r, hi, hr, rfl⟩ := (h.pins_eq_some_iff ht.sized).1 hr'
    obtain ⟨e, hnet, he⟩ := relink_eq_some_iff.1 he'
    obtain ⟨q, hq, slot, hslot, hrole⟩ := ht.coherent.connected hr hnet
    obtain ⟨slot', hslot', hrole'⟩ := exists_slot_relinkNet hslot hi
    exact ⟨_, (h.nets_eq_some_iff ht.sized).2 ⟨e, q, he, hq, rfl⟩, slot', hslot',
      hrole'.trans hrole⟩
  slotted {e' r'} hr' := by
    obtain ⟨e, r, -, hr, rfl⟩ := (h.nets_eq_some_iff ht.sized).1 hr'
    exact List.cons_ne_nil _ _
  once {e' r'} hr' i j k hj hk := by
    obtain ⟨e, r, -, hr, rfl⟩ := (h.nets_eq_some_iff ht.sized).1 hr'
    have hslots : r.pins.Pairwise Apart :=
      pairwise_apart_iff.2 fun _ _ _ => ht.coherent.once hr
    exact pairwise_apart_iff.1 (pairwise_relinkNet ht.sized.pins.placed hslots) i j k hj hk
  attached {e' r'} hr' slot' i' hi' := by
    obtain ⟨e, r, he, hr, rfl⟩ := (h.nets_eq_some_iff ht.sized).1 hr'
    obtain ⟨slot, i, hslot, hi, hrole⟩ := exists_slot_of_relinkNet hi'
    obtain ⟨q, hq, hnet, hq'⟩ := ht.coherent.attached hr hslot
    refine ⟨_, (h.pins_eq_some_iff ht.sized).2 ⟨i, q, hi, hq, rfl⟩, ?_, hq'.trans hrole⟩
    rw [PinRecord.renumber_net, hnet]
    exact he.relink_eq

/-- The columns have no empty slots. -/
theorem full (h : t.Packs m f) (k : Kind) : (m.slots k).Full := by
  rw [h.slots]
  exact Slots.full_ofRenumbering _

/-- Names that keep their texts and become one are one. -/
theorem eq_of_rename {x y : StringId} {text : String} (htext : t.strings.text? x = some text)
    (hx : m.strings.text? (f x) = t.strings.text? x) (hy : m.strings.text? (f y) = t.strings.text? y)
    (heq : f y = f x) : y = x := by
  refine StringTable.eq_of_text? (t := t.strings) ?_ htext
  rw [← hy, heq, hx, htext]

theorem eq_of_blockName (h : t.Packs m f) (ht : t.Consistent) {b c : BlockId} {name : StringId}
    (hb : (m.store.blocks b).map BlockRecord.name = some name)
    (hc : (m.store.blocks c).map BlockRecord.name = some name) : b = c := by
  obtain ⟨r', hr', rfl⟩ := Option.map_eq_some_iff.1 hb
  obtain ⟨q', hq', hname⟩ := Option.map_eq_some_iff.1 hc
  obtain ⟨b₀, r, hmove, hr, rfl⟩ := (h.blocks_eq_some_iff ht.sized).1 hr'
  obtain ⟨c₀, q, hmove', hq, rfl⟩ := (h.blocks_eq_some_iff ht.sized).1 hq'
  obtain ⟨text, htext⟩ := ht.exists_blockName hr
  have hsame : q.name = r.name := eq_of_rename htext (h.blockName hr) (h.blockName hq) hname
  obtain rfl : b₀ = c₀ := ht.indexed.blocks.injective
    (congrArg (Option.map BlockRecord.name) hr) (by rw [hq, ← hsame]; rfl)
  exact hmove.unique hmove'

theorem eq_of_portKey (h : t.Packs m f) (ht : t.Consistent) {p q : PortId} {key : PortKey}
    (hp : (m.store.ports p).map PortRecord.key = some key)
    (hq : (m.store.ports q).map PortRecord.key = some key) : p = q := by
  obtain ⟨r', hr', rfl⟩ := Option.map_eq_some_iff.1 hp
  obtain ⟨u', hu', hkey⟩ := Option.map_eq_some_iff.1 hq
  obtain ⟨p₀, r, hmove, hr, rfl⟩ := (h.ports_eq_some_iff ht.sized).1 hr'
  obtain ⟨q₀, u, hmove', hu, rfl⟩ := (h.ports_eq_some_iff ht.sized).1 hu'
  obtain ⟨howner', hname⟩ := (PortKey.mk.injEq ..).mp hkey
  obtain ⟨text, htext⟩ := ht.exists_portName hr
  have hsame : u.name = r.name := eq_of_rename htext (h.portName hr) (h.portName hu) hname
  have howner : u.owner = r.owner := by
    obtain ⟨c, hc, -⟩ := ht.coherent.owned hr
    obtain ⟨d, hd, -⟩ := ht.coherent.owned hu
    exact Slots.eq_of_redirect ht.sized.blocks.placed (Blocks.isLive_of_record? hd)
      (Blocks.isLive_of_record? hc) howner'
  have hkeys : (t.store.ports q₀).map PortRecord.key = some r.key := by
    rw [hu, Option.map_some, PortRecord.key, PortRecord.key, hsame, howner]
  obtain rfl : p₀ = q₀ :=
    ht.indexed.ports.injective (congrArg (Option.map PortRecord.key) hr) hkeys
  exact hmove.unique hmove'

theorem eq_of_pinKey (h : t.Packs m f) (ht : t.Consistent) {i j : PinId} {key : BitKey}
    (hi : (m.store.pins i).map PinRecord.key = some key)
    (hj : (m.store.pins j).map PinRecord.key = some key) : i = j := by
  obtain ⟨r', hr', rfl⟩ := Option.map_eq_some_iff.1 hi
  obtain ⟨u', hu', hkey⟩ := Option.map_eq_some_iff.1 hj
  obtain ⟨i₀, r, hmove, hr, rfl⟩ := (h.pins_eq_some_iff ht.sized).1 hr'
  obtain ⟨j₀, u, hmove', hu, rfl⟩ := (h.pins_eq_some_iff ht.sized).1 hu'
  obtain ⟨hport', hbit⟩ := (BitKey.mk.injEq ..).mp hkey
  have hport : u.port = r.port := by
    obtain ⟨p, hp, -⟩ := ht.coherent.placed hr
    obtain ⟨q, hq, -⟩ := ht.coherent.placed hu
    exact Slots.eq_of_redirect ht.sized.ports.placed (Ports.isLive_of_record? hq)
      (Ports.isLive_of_record? hp) hport'
  have hbit : u.bit = r.bit := hbit
  obtain rfl : i₀ = j₀ := ht.indexed.pins.injective (congrArg (Option.map PinRecord.key) hr)
    (by rw [hu, Option.map_some, PinRecord.key, PinRecord.key, hport, hbit])
  exact hmove.unique hmove'

theorem eq_of_netName (h : t.Packs m f) (ht : t.Consistent) {d e : NetId} {name : StringId}
    (hd : (m.store.nets d).map NetRecord.name = some name)
    (he : (m.store.nets e).map NetRecord.name = some name) : d = e := by
  obtain ⟨r', hr', rfl⟩ := Option.map_eq_some_iff.1 hd
  obtain ⟨q', hq', hname⟩ := Option.map_eq_some_iff.1 he
  obtain ⟨d₀, r, hmove, hr, rfl⟩ := (h.nets_eq_some_iff ht.sized).1 hr'
  obtain ⟨e₀, q, hmove', hq, rfl⟩ := (h.nets_eq_some_iff ht.sized).1 hq'
  obtain ⟨text, htext⟩ := ht.exists_netName hr
  have hsame : q.name = r.name := eq_of_rename htext (h.netName hr) (h.netName hq) hname
  obtain rfl : d₀ = e₀ := ht.indexed.nets.injective
    (congrArg (Option.map NetRecord.name) hr) (by rw [hq, ← hsame]; rfl)
  exact hmove.unique hmove'

/-- The index that is built from packed columns is exact. -/
theorem exact_ofColumns (h : t.Packs m f) (ht : t.Consistent) :
    (Index.ofColumns m.blocks m.ports m.pins m.nets).Exact m.store where
  blocks := Lookup.exact_ofKeys (h.sized.blocks.getElem?_names (h.full .block))
    (h.eq_of_blockName ht)
  ports := Lookup.exact_ofKeys (h.sized.ports.getElem?_keys (h.full .port)) (h.eq_of_portKey ht)
  pins := Lookup.exact_ofKeys (h.sized.pins.getElem?_keys (h.full .pin)) (h.eq_of_pinKey ht)
  nets := Lookup.exact_ofKeys (h.sized.nets.getElem?_names (h.full .net)) (h.eq_of_netName ht)

theorem interned (h : t.Packs m f) (ht : t.Consistent) : m.NamesInterned := by
  intro name hname
  rcases h.sized.exists_named h.full hname with ⟨_, _, hr', rfl⟩ | ⟨_, _, hr', rfl⟩ | ⟨_, _, hr', rfl⟩
  · obtain ⟨b, r, -, hr, rfl⟩ := (h.blocks_eq_some_iff ht.sized).1 hr'
    obtain ⟨text, htext⟩ := ht.exists_blockName hr
    exact ⟨text, (h.blockName hr).trans htext⟩
  · obtain ⟨p, r, -, hr, rfl⟩ := (h.ports_eq_some_iff ht.sized).1 hr'
    obtain ⟨text, htext⟩ := ht.exists_portName hr
    exact ⟨text, (h.portName hr).trans htext⟩
  · obtain ⟨e, r, -, hr, rfl⟩ := (h.nets_eq_some_iff ht.sized).1 hr'
    obtain ⟨text, htext⟩ := ht.exists_netName hr
    exact ⟨text, (h.netName hr).trans htext⟩

theorem rename {g : StringId → StringId} {u : StringTable} (h : t.Packs m id) (ht : t.Consistent)
    (hg : ∀ name ∈ m.namesInUse, u.text? (g name) = m.strings.text? name) :
    t.Packs (m.rename g u) g where
  sized := ⟨h.sized.blocks.rename g, h.sized.ports.rename g, h.sized.pins, h.sized.nets.rename g⟩
  slots k := by
    rw [← h.slots k]
    cases k <;> rfl
  block {b b'} hmove := by
    refine (Blocks.record?_rename h.sized.blocks g _).trans ?_
    rw [← store_blocks, h.block hmove, Option.map_map]
    rfl
  port {p p'} hmove := by
    refine (Ports.record?_rename h.sized.ports g _).trans ?_
    rw [← store_ports, h.port hmove, Option.map_map]
    rfl
  pin hmove := h.pin hmove
  net {e e'} hmove := by
    refine (Nets.record?_rename h.sized.nets g _).trans ?_
    rw [← store_nets, h.net hmove, Option.map_map]
    rfl
  blockName {b r} hr := by
    obtain ⟨b', hmove⟩ := Slots.exists_moves ht.sized.blocks.placed (Blocks.isLive_of_record? hr)
    have hr' := (h.blocks_eq_some_iff ht.sized).2 ⟨b, r, hmove, hr, rfl⟩
    have hmem := blockName_mem_namesInUse hr'
    exact (hg r.name hmem).trans (h.blockName hr)
  portName {p r} hr := by
    obtain ⟨p', hmove⟩ := Slots.exists_moves ht.sized.ports.placed (Ports.isLive_of_record? hr)
    have hr' := (h.ports_eq_some_iff ht.sized).2 ⟨p, r, hmove, hr, rfl⟩
    have hmem := portName_mem_namesInUse hr'
    exact (hg r.name hmem).trans (h.portName hr)
  netName {e r} hr := by
    obtain ⟨e', hmove⟩ := Slots.exists_moves ht.sized.nets.placed (Nets.isLive_of_record? hr)
    have hr' := (h.nets_eq_some_iff ht.sized).2 ⟨e, r, hmove, hr, rfl⟩
    have hmem := netName_mem_namesInUse hr'
    exact (hg r.name hmem).trans (h.netName hr)

theorem reindex (h : t.Packs m f) : t.Packs { m.reindex with dirty := false } f where
  sized := ⟨h.sized.blocks, h.sized.ports, h.sized.pins, h.sized.nets⟩
  slots k := by
    rw [← h.slots k]
    cases k <;> rfl
  block := h.block
  port := h.port
  pin := h.pin
  net := h.net
  blockName := h.blockName
  portName := h.portName
  netName := h.netName

/-- With an index built from its columns, a packed netlist is consistent. -/
theorem consistent (h : t.Packs m f) (ht : t.Consistent)
    (hindex : m.index = .ofColumns m.blocks m.ports m.pins m.nets) : m.Consistent where
  sized := h.sized
  coherent := h.coherent ht
  indexed := by
    rw [hindex]
    exact h.exact_ofColumns ht
  interned := h.interned ht

end Packs

/-! ## The steps of compaction -/

theorem exists_squeeze (ht : t.Sized) : ∃ q, t.squeeze = .ok q ∧ t.Packs q id := by
  obtain ⟨blocks, hb, hbs, hbslots, hb'⟩ := Blocks.exists_squeeze ht.blocks
  obtain ⟨ports, hp, hps, hpslots, hp'⟩ := Ports.exists_squeeze ht.ports
  obtain ⟨pins, hi, his, hislots, hi'⟩ := Pins.exists_squeeze ht.pins
  obtain ⟨nets, he, hes, heslots, he'⟩ := Nets.exists_squeeze ht.nets
  let q : Netlist := { t with
    blocks := blocks.renumber t.renumberings
    ports := ports.renumber t.renumberings
    pins := pins.renumber t.renumberings
    nets := nets.renumber t.renumberings }
  refine ⟨q, ?_, ?_⟩
  · simp only [squeeze, renumberings, hb, hp, hi, he, ok_bind]
    rfl
  · refine ⟨⟨hbs.renumber _, hps.renumber _, his.renumber _, hes.renumber _⟩, fun k => ?_,
      fun hmove => ?_, fun hmove => ?_, fun hmove => ?_, fun hmove => ?_, fun _ => rfl,
      fun _ => rfl, fun _ => rfl⟩
    · cases k
      · exact hbslots
      · exact hpslots
      · exact hislots
      · exact heslots
    · rw [store_blocks, Blocks.record?_renumber hbs, hb' hmove]
      rfl
    · rw [store_ports, Ports.record?_renumber hps, hp' hmove]
      rfl
    · rw [store_pins, Pins.record?_renumber his, hi' hmove]
      rfl
    · rw [store_nets, Nets.record?_renumber hes, he' hmove]
      rfl

/-- The texts that are names, and the new handles for the old ones. -/
def usedStrings (q : Netlist) : StringTable × Renumbering StringId :=
  q.strings.compact fun name => name ∈ q.namesInUse

/-- The new handle for a name, or the old one where there is none. -/
def newName (q : Netlist) (name : StringId) : StringId :=
  (q.usedStrings.2.target? name.index).getD name

theorem compactStrings_eq_ok_iff {q : Netlist} : q.compactStrings = .ok m ↔
    q.NamesInterned ∧ q.rename q.newName q.usedStrings.1 = m := by
  have hfind : (q.namesInUse.find? fun name => !q.strings.contains name) = none ↔
      q.NamesInterned := by
    rw [List.find?_eq_none]
    refine forall₂_congr fun name _ => ?_
    rw [Bool.not_eq_true, Bool.not_eq_false', StringTable.contains_iff]
  rw [compactStrings, ← hfind]
  split
  · next hsome => simp [hsome]
  · next hnone => exact ⟨fun h => ⟨hnone, Except.ok.inj h⟩, fun h => congrArg Except.ok h.2⟩

theorem exists_compactStrings {q : Netlist} (h : t.Packs q id) (ht : t.Consistent) :
    ∃ m f, q.compactStrings = .ok m ∧ t.Packs m f := by
  have hinterned := h.interned ht
  refine ⟨_, _, compactStrings_eq_ok_iff.2 ⟨hinterned, rfl⟩, h.rename ht fun name hname => ?_⟩
  obtain ⟨text, htext⟩ := hinterned name hname
  obtain ⟨name', hname', htext'⟩ := StringTable.exists_target?_compact
    (fun name => name ∈ q.namesInUse) htext (decide_eq_true hname)
  have hg : q.newName name = name' := congrArg (fun o => o.getD name) hname'
  rw [hg, htext]
  exact htext'

/-- What is left in the table when it was compacted is names. -/
theorem namesUsed_of_compactStrings {q : Netlist} (h : q.compactStrings = .ok m) : m.NamesUsed := by
  obtain ⟨-, rfl⟩ := compactStrings_eq_ok_iff.1 h
  intro name text htext
  obtain ⟨old, hkeep, htarget⟩ := StringTable.exists_of_text?_compact
    (fun name => name ∈ q.namesInUse) htext
  have hrenamed : q.newName old = name := congrArg (fun o => o.getD old) htarget
  have hmap : (q.rename q.newName q.usedStrings.1).namesInUse = q.namesInUse.map q.newName := by
    simp [namesInUse, rename]
  rw [hmap]
  exact List.mem_map.2 ⟨old, of_decide_eq_true hkeep, hrenamed⟩

/-- What compaction reports in the end: how many entities of each kind there are now, and how many
fewer than were issued before. -/
def compactReport (n m : Netlist) : Event :=
  .compacted m.name m.issued (.of fun k => n.issued.get k - m.issued.get k) m.strings.size

/-- Compaction is made of its steps. -/
theorem compact_eq_ok_iff {n : Netlist} {fs : List Event} : n.compact = .ok (m, fs) ↔
    ∃ t es q l, n.sweep = .ok (t, es) ∧ t.squeeze = .ok q ∧ q.compactStrings = .ok l ∧
      { l.reindex with dirty := false } = m ∧ es ++ [n.compactReport m] = fs := by
  have hsweep : n.sweepWith .wrapping = n.sweep := rfl
  simp only [compact, compactWith, hsweep, bind_eq_ok_iff, Prod.exists, pure_eq_ok, Except.ok.injEq, Prod.mk.injEq]
  constructor
  · rintro ⟨t, es, hsweep, q, hsqueeze, l, hrename, rfl, rfl⟩
    exact ⟨t, es, q, l, hsweep, hsqueeze, hrename, rfl, rfl⟩
  · rintro ⟨t, es, q, l, hsweep, hsqueeze, hrename, rfl, rfl⟩
    exact ⟨t, es, hsweep, q, hsqueeze, l, hrename, rfl, rfl⟩

theorem namesUsed_of_compact {n : Netlist} {fs : List Event} (h : n.compact = .ok (m, fs)) :
    m.NamesUsed := by
  obtain ⟨_, _, _, _, -, -, hrename, rfl, -⟩ := compact_eq_ok_iff.1 h
  exact fun name text htext => namesUsed_of_compactStrings hrename htext

theorem dirty_of_compact {n : Netlist} {fs : List Event} (h : n.compact = .ok (m, fs)) :
    m.dirty = false := by
  obtain ⟨_, _, _, _, -, -, -, rfl, -⟩ := compact_eq_ok_iff.1 h
  rfl

/-- Compaction succeeds: it is a sweep, and what the sweep leaves moves to its new handles. -/
theorem exists_compact {n : Netlist} (hn : n.Consistent) :
    ∃ t es m fs f, n.sweep = .ok (t, es) ∧ n.Shrinks t n.store.unused ∧ n.compact = .ok (m, fs) ∧
      t.Packs m f ∧ m.Consistent := by
  obtain ⟨t, es, hsweep, ht⟩ := exists_sweep hn
  obtain ⟨q, hsqueeze, hq⟩ := exists_squeeze ht.consistent.sized
  obtain ⟨l, f, hrename, hl⟩ := exists_compactStrings hq ht.consistent
  refine ⟨t, es, _, _, f, hsweep, ht,
    compact_eq_ok_iff.2 ⟨t, es, q, l, hsweep, hsqueeze, hrename, rfl, rfl⟩, hl.reindex,
    hl.reindex.consistent ht.consistent rfl⟩

end Netlist

end MappedNetlist
