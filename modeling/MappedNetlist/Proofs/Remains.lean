import MappedNetlist.Proofs.Store.Loss

/-!
# What is left of removed entities

A removal empties slots and rows of the columns and writes nothing else. `Netlist.Remains` says of two
netlists that the second one is left of the first after removals: the positions of what was removed
before are as they were, a removed port keeps a row of empty bits, a removed pin is on no net, and a
removed net keeps no slots. Together with the records of live entities this determines every column.
-/

namespace MappedNetlist

theorem Slots.Placed.ext {k : Kind} {s t : Slots k} (hs : s.Placed) (ht : t.Placed)
    (hsize : s.size = t.size) (hlive : ∀ h, s.IsLive h ↔ t.IsLive h) : s = t := by
  have hget {s t : Slots k} (hs : s.Placed) (hlive : ∀ h, s.IsLive h → t.IsLive h) {i : Nat}
      {h : Handle k} (hi : s[i]? = some (some h)) : t[i]? = some (some h) := by
    obtain rfl : h.index = i := hs i h hi
    exact hlive h hi
  refine Array.ext_getElem? fun i => ?_
  by_cases hi : i < s.size
  · obtain ⟨a, ha⟩ := Column.exists_getElem? hi
    obtain ⟨b, hb⟩ := Column.exists_getElem? (hsize ▸ hi)
    cases a with
    | some h => rw [ha, hget hs (fun h => (hlive h).1) ha]
    | none =>
      cases b with
      | some h => rw [hb, hget ht (fun h => (hlive h).2) hb]
      | none => rw [ha, hb]
  · rw [Array.getElem?_eq_none (Nat.not_lt.1 hi),
      Array.getElem?_eq_none (hsize ▸ Nat.not_lt.1 hi)]

/-- An index is determined by what it has to find. -/
theorem Index.Exact.eq {s : Store} {x y : Index} (hx : x.Exact s) (hy : y.Exact s) : x = y := by
  have hlookup {κ : Type} [Ord κ] [Std.TransOrd κ] [Std.LawfulEqOrd κ] {k : Kind}
      {m l : Lookup κ k} {keyOf : Handle k → Option κ} (hm : m.Exact keyOf) (hl : l.Exact keyOf) :
      m = l := by
    refine Lookup.ext fun key => Option.ext fun h => ?_
    rw [hm key h, hl key h]
  ext1
  · exact hlookup hx.blocks hy.blocks
  · exact hlookup hx.ports hy.ports
  · exact hlookup hx.pins hy.pins
  · exact hlookup hx.nets hy.nets

/-- Writing at the position of a live handle leaves those of dead handles alone. -/
theorem Column.getElem?_set_of_dead {α : Type} {k : Kind} {s : Slots k} {col : Column α}
    {g h : Handle k} (hg : s.IsLive g) (hh : ¬s.IsLive h) (a : α) :
    (col.setIfInBounds g.index a)[h.index]? = col[h.index]? := by
  refine Array.getElem?_setIfInBounds_ne fun heq => hh ?_
  obtain rfl : g = h := by cases g; cases h; simp_all
  exact hg

namespace Store

variable {s t : Store} {issued : Nat} {d e : Loss}

/-- Two stores have records of the same pins, on the same nets. -/
structure SameWires (s t : Store) : Prop where
  pin (i : PinId) : (s.pins i).map PinRecord.net = (t.pins i).map PinRecord.net
  net (x : NetId) : (s.nets x).isSome = (t.nets x).isSome

/-- Two stores have records of the same entities, with the pins on the same nets. -/
structure Likewise (s t : Store) : Prop extends SameWires s t where
  block (b : BlockId) : (s.blocks b).isSome = (t.blocks b).isSome
  port (p : PortId) : (s.ports p).isSome = (t.ports p).isSome

theorem Likewise.refl (s : Store) : s.Likewise s :=
  ⟨⟨fun _ => rfl, fun _ => rfl⟩, fun _ => rfl, fun _ => rfl⟩

theorem SameWires.symm (h : s.SameWires t) : t.SameWires s :=
  ⟨fun i => (h.pin i).symm, fun x => (h.net x).symm⟩

theorem SameWires.trans {u : Store} (h : s.SameWires t) (h' : t.SameWires u) : s.SameWires u :=
  ⟨fun i => (h.pin i).trans (h'.pin i), fun x => (h.net x).trans (h'.net x)⟩

theorem Likewise.symm (h : s.Likewise t) : t.Likewise s :=
  ⟨h.toSameWires.symm, fun b => (h.block b).symm, fun p => (h.port p).symm⟩

theorem Likewise.trans {u : Store} (h : s.Likewise t) (h' : t.Likewise u) : s.Likewise u :=
  ⟨h.toSameWires.trans h'.toSameWires, fun b => (h.block b).trans (h'.block b),
    fun p => (h.port p).trans (h'.port p)⟩

/-- The nets of the pins that are left. -/
theorem map_net_without (s : Store) (d : Loss) (i : PinId) :
    ((s.without d).pins i).map PinRecord.net = if d.pins i then none
      else ((s.pins i).map PinRecord.net).map fun net =>
        if d.links i then none else net.filter fun x => !d.nets x := by
  rw [without_pins]
  split
  · rfl
  · rw [Option.map_map, Option.map_map]
    rfl

/-- Losses that agree on the pins of a store, as far as these are on nets, and on all nets. -/
theorem sameWires_without (hpins : ∀ {i r}, s.pins i = some r → d.pins i = e.pins i)
    (hlinks : ∀ {i r x}, s.pins i = some r → r.net = some x → d.links i = e.links i)
    (hnets : ∀ x, d.nets x = e.nets x) : (s.without d).SameWires (s.without e) where
  pin i := by
    rw [map_net_without, map_net_without]
    cases hr : s.pins i with
    | none => simp
    | some r =>
      cases hx : r.net with
      | none => simp [hpins hr, hx]
      | some x => simp [hpins hr, hlinks hr hx, hnets, hx]
  net x := by
    rw [without_nets, without_nets, hnets]
    split
    · rfl
    · rw [Option.isSome_map, Option.isSome_map]

/-- If two losses in turn change neither the entities nor the links of a store, then the first of them
does not. -/
theorem Likewise.of_union (h : s.Likewise (s.without (d ∪ e))) : s.Likewise (s.without d) where
  block b := by
    have hb := h.block b
    cases hd : d.blocks b <;> simp_all
  port p := by
    have hp := h.port p
    cases hd : d.ports p <;> simp_all
  pin i := by
    have hi := h.pin i
    rw [map_net_without] at hi ⊢
    generalize (s.pins i).map PinRecord.net = net at hi ⊢
    cases hd : d.pins i <;> cases hl : d.links i <;> rcases net with _ | _ | x <;>
      simp_all [Option.filter]
  net x := by
    have hx := h.net x
    cases hd : d.nets x <;> simp_all

section Likewise

variable (h : (s.without d).Likewise (s.without e))
include h

theorem Likewise.pins_eq {i : PinId} {r : PinRecord} (hi : s.pins i = some r) :
    d.pins i = e.pins i := by
  have hpin := h.pin i
  rw [map_net_without, map_net_without, hi] at hpin
  cases hd : d.pins i <;> cases he : e.pins i <;> simp_all

theorem Likewise.nets_eq {x : NetId} {r : NetRecord} (hx : s.nets x = some r) :
    d.nets x = e.nets x := by
  have hnet := h.net x
  rw [without_nets, without_nets, hx] at hnet
  cases hd : d.nets x <;> cases he : e.nets x <;> simp_all

/-- What is left of a coherent store is determined by which entities are left and by the nets of the
pins that are left. -/
theorem Coherent.without_eq (hs : s.Coherent issued) : s.without d = s.without e := by
  ext1
  · funext b
    have hb := h.block b
    rw [without_blocks, without_blocks] at hb ⊢
    cases hd : d.blocks b <;> cases he : e.blocks b <;> simp_all
  · funext p
    have hp := h.port p
    rw [without_ports, without_ports] at hp ⊢
    cases hr : s.ports p with
    | none => simp
    | some r =>
      have hpins : r.clear d.pins = r.clear e.pins := by
        refine PortRecord.ext rfl rfl rfl rfl (clear_congr fun i hi => ?_)
        obtain ⟨bit, hbit⟩ := List.mem_iff_getElem?.1 hi
        obtain ⟨q, hq, -⟩ := hs.filled hr hbit
        exact h.pins_eq hq
      cases hd : d.ports p <;> cases he : e.ports p <;> simp_all
  · funext i
    have hi := h.pin i
    rw [map_net_without, map_net_without] at hi
    rw [without_pins, without_pins]
    cases hr : s.pins i with
    | none => simp
    | some r =>
      have hsame := h.pins_eq hr
      cases hd : e.pins i with
      | true => simp [hsame, hd]
      | false =>
        have hnet : (if d.links i then none else r.net.filter fun x => !d.nets x) =
            if e.links i then none else r.net.filter fun x => !e.nets x := by
          simpa [hr, hsame, hd] using hi
        rw [hsame, hd, Option.map_some, Option.map_some, PinRecord.release, hnet]
        rfl
  · funext x
    rw [without_nets, without_nets]
    cases hr : s.nets x with
    | none => simp
    | some r =>
      have hsame := h.nets_eq hr
      cases hd : e.nets x with
      | true => simp [hsame, hd]
      | false =>
        have hpins : r.clear (fun i => d.pins i || d.links i) =
            r.clear fun i => e.pins i || e.links i := by
          refine NetRecord.ext rfl (clear_congr fun i hi => ?_)
          obtain ⟨slot, hslot⟩ := List.mem_iff_getElem?.1 hi
          obtain ⟨q, hq, hnet, -⟩ := hs.attached hr hslot
          have hpin := h.pin i
          rw [map_net_without, map_net_without, hq, Option.map_some, hnet, Option.map_some,
            h.pins_eq hq] at hpin
          have hkept : d.nets x = false := hsame.trans hd
          cases hl : d.links i <;> cases hl' : e.links i <;> cases hp : e.pins i <;>
            simp_all [h.pins_eq hq, Option.filter]
        rw [hsame, hd, Option.map_some, Option.map_some, hpins]

end Likewise

end Store

namespace Netlist

variable {n m l : Netlist}

/-- The columns of `m` are left of those of `n` after removals. -/
structure Remains (n m : Netlist) : Prop where
  live {k : Kind} {h : Handle k} : m.IsLive h → n.IsLive h
  name : m.name = n.name
  blocks : m.blocks = { n.blocks with slots := m.blocks.slots }
  ports : m.ports = { n.ports with slots := m.ports.slots, pins := m.ports.pins }
  pins : m.pins = { n.pins with slots := m.pins.slots, nets := m.pins.nets }
  nets : m.nets = { n.nets with slots := m.nets.slots, pins := m.nets.pins }
  /-- What was removed before is left as it was. -/
  oldPort {p : PortId} : ¬n.IsLive p → m.ports.pins[p.index]? = n.ports.pins[p.index]?
  oldPin {i : PinId} : ¬n.IsLive i → m.pins.nets[i.index]? = n.pins.nets[i.index]?
  oldNet {e : NetId} : ¬n.IsLive e → m.nets.pins[e.index]? = n.nets.pins[e.index]?
  /-- A port loses pins, and all of them if it is removed. -/
  port {p : PortId} : n.IsLive p → ∃ gone,
    m.ports.pins[p.index]? = (n.ports.pins[p.index]?).map (clear gone) ∧
      (m.IsLive p ∨ gone = fun _ => true)
  /-- A removed pin is on no net, and a removed net has no slots. -/
  pin {i : PinId} : n.IsLive i → ¬m.IsLive i → m.pins.nets[i.index]? = some none
  net {e : NetId} : n.IsLive e → ¬m.IsLive e → m.nets.pins[e.index]? = some []

namespace Remains

theorem refl (n : Netlist) : n.Remains n where
  live := id
  name := rfl
  blocks := rfl
  ports := rfl
  pins := rfl
  nets := rfl
  oldPort _ := rfl
  oldPin _ := rfl
  oldNet _ := rfl
  port {p} hp := by
    have hnone : clear (fun _ => false) = id := funext fun row => clear_eq_self fun _ _ => rfl
    exact ⟨fun _ => false, by rw [hnone, Option.map_id, id], .inl hp⟩
  pin hi hi' := absurd hi hi'
  net he he' := absurd he he'

theorem trans (h : n.Remains m) (h' : m.Remains l) : n.Remains l where
  live hl := h.live (h'.live hl)
  name := h'.name.trans h.name
  blocks := by rw [h'.blocks, h.blocks]
  ports := by rw [h'.ports, h.ports]
  pins := by rw [h'.pins, h.pins]
  nets := by rw [h'.nets, h.nets]
  oldPort hp := (h'.oldPort (mt h.live hp)).trans (h.oldPort hp)
  oldPin hi := (h'.oldPin (mt h.live hi)).trans (h.oldPin hi)
  oldNet he := (h'.oldNet (mt h.live he)).trans (h.oldNet he)
  port {p} hp := by
    obtain ⟨gone, hrow, hgone⟩ := h.port hp
    by_cases hm : m.IsLive p
    · obtain ⟨gone', hrow', hgone'⟩ := h'.port hm
      refine ⟨fun i => gone i || gone' i, ?_, hgone'.imp_right fun hall => ?_⟩
      · rw [hrow', hrow, Option.map_map]
        exact Option.map_congr fun _ _ => clear_clear
      · simp [hall]
    · refine ⟨gone, (h'.oldPort hm).trans hrow, .inr ?_⟩
      exact hgone.resolve_left hm
  pin {i} hi hl := by
    by_cases hm : m.IsLive i
    · exact h'.pin hm hl
    · exact (h'.oldPin hm).trans (h.pin hi hm)
  net {e} he hl := by
    by_cases hm : m.IsLive e
    · exact h'.net hm hl
    · exact (h'.oldNet hm).trans (h.net he hm)

/-- The columns of a netlist that suffered a loss, if what was removed is left as it should be. -/
theorem of_store {d : Loss} (hn : n.Consistent) (hm : m.Consistent)
    (hstore : m.store = n.store.without d) (name : m.name = n.name)
    (blocks : m.blocks = { n.blocks with slots := m.blocks.slots })
    (ports : m.ports = { n.ports with slots := m.ports.slots, pins := m.ports.pins })
    (pins : m.pins = { n.pins with slots := m.pins.slots, nets := m.pins.nets })
    (nets : m.nets = { n.nets with slots := m.nets.slots, pins := m.nets.pins })
    (oldPort : ∀ p : PortId, ¬n.IsLive p → m.ports.pins[p.index]? = n.ports.pins[p.index]?)
    (oldPin : ∀ i : PinId, ¬n.IsLive i → m.pins.nets[i.index]? = n.pins.nets[i.index]?)
    (oldNet : ∀ e : NetId, ¬n.IsLive e → m.nets.pins[e.index]? = n.nets.pins[e.index]?)
    (port : ∀ p : PortId, n.IsLive p → ¬m.IsLive p →
      m.ports.pins[p.index]? = (n.ports.pins[p.index]?).map (clear fun _ => true))
    (pin : ∀ i : PinId, n.IsLive i → ¬m.IsLive i → m.pins.nets[i.index]? = some none)
    (net : ∀ e : NetId, n.IsLive e → ¬m.IsLive e → m.nets.pins[e.index]? = some []) :
    n.Remains m where
  live {k x} hx := by
    cases k with
    | block =>
      obtain ⟨r, hr⟩ := hm.sized.isLive_block_iff.1 hx
      exact hn.sized.isLive_block_iff.2 ⟨r, (Store.without_blocks_eq_some_iff.1 (hstore ▸ hr)).2⟩
    | port =>
      obtain ⟨r, hr⟩ := hm.sized.isLive_port_iff.1 hx
      obtain ⟨-, q, hq, -⟩ := Store.without_ports_eq_some_iff.1 (hstore ▸ hr)
      exact hn.sized.isLive_port_iff.2 ⟨q, hq⟩
    | pin =>
      obtain ⟨r, hr⟩ := hm.sized.isLive_pin_iff.1 hx
      obtain ⟨-, q, hq, -⟩ := Store.without_pins_eq_some_iff.1 (hstore ▸ hr)
      exact hn.sized.isLive_pin_iff.2 ⟨q, hq⟩
    | net =>
      obtain ⟨r, hr⟩ := hm.sized.isLive_net_iff.1 hx
      obtain ⟨-, q, hq, -⟩ := Store.without_nets_eq_some_iff.1 (hstore ▸ hr)
      exact hn.sized.isLive_net_iff.2 ⟨q, hq⟩
  name := name
  blocks := blocks
  ports := ports
  pins := pins
  nets := nets
  oldPort {p} := oldPort p
  oldPin {i} := oldPin i
  oldNet {e} := oldNet e
  port {p} hp := by
    by_cases hl : m.IsLive p
    · obtain ⟨r, hr⟩ := hm.sized.isLive_port_iff.1 hl
      obtain ⟨-, q, hq, rfl⟩ := Store.without_ports_eq_some_iff.1 (hstore ▸ hr)
      have hrow := (Ports.record?_eq_some_iff.1 hq).2.2.2.2.2
      refine ⟨d.pins, ?_, .inl hl⟩
      rw [hrow, (Ports.record?_eq_some_iff.1 hr).2.2.2.2.2]
      rfl
    · exact ⟨_, port p hp hl, .inr rfl⟩
  pin {i} := pin i
  net {e} := net e

end Remains

end Netlist

end MappedNetlist
