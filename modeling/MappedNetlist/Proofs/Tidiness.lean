import MappedNetlist.Proofs.Invariance

/-!
# What is not dirty is tidy

A netlist is *tidy* if removed entities left nothing behind: every handle that was issued is live, no net
has an empty slot for a sink, and every text in the table is a name (`Netlist.Tidy`). Creations keep a
netlist tidy and do not touch the mark, whatever takes something marks it as dirty, and compaction leaves
a tidy netlist. So in every history a netlist that is not marked is tidy.
-/

namespace MappedNetlist

theorem Slots.Full.push {k : Kind} {s : Slots k} (hs : s.Full) : Full (s.push (some ⟨s.size⟩)) := by
  intro i hi
  rw [isLive_push]
  rw [Array.size_push] at hi
  rcases Nat.lt_succ_iff_lt_or_eq.1 hi with hlt | rfl
  · exact .inr (hs i hlt)
  · exact .inl rfl

/-- A pin that is put on a net fills a slot and empties none. -/
theorem none_notMem_tail_plug {slots : List (Option PinId)} (h : none ∉ slots.tail) (i : PinId)
    (role : PinRole) : none ∉ (plug i role slots).tail := by
  cases slots with
  | nil => cases role <;> simp [plug]
  | cons slot slots => cases role <;> simpa [plug] using h

namespace Netlist

variable {n m t : Netlist}

/-- Nothing is left of removed entities. -/
structure Tidy (n : Netlist) : Prop where
  full (k : Kind) : (n.slots k).Full
  filled {e : NetId} {r : NetRecord} : n.store.nets e = some r → none ∉ r.pins.tail
  named : n.NamesUsed

namespace Tidy

theorem new (name : String) : (Netlist.new name).Tidy where
  full k i hi := by cases k <;> simp [slots, Netlist.new] at hi
  filled hr := by
    rw [store_new] at hr
    cases hr
  named _ _ htext := by simp [Netlist.new] at htext

theorem of_grows {k : Kind} (h : n.Tidy) (hm : n.Grows m k)
    (hfilled : ∀ {e r}, m.store.nets e = some r → none ∉ r.pins.tail) : m.Tidy where
  full l := by
    rw [hm.slots]
    split
    · exact (h.full l).push
    · exact h.full l
  filled := hfilled
  named := hm.named h.named

theorem of_packs {f : StringId → StringId} (ht : t.Sized) (hm : t.Packs m f)
    (hnames : m.NamesUsed) : m.Tidy where
  full := hm.full
  filled {e' r'} hr' := by
    obtain ⟨e, r, -, -, rfl⟩ := (hm.nets_eq_some_iff ht).1 hr'
    simp [relinkNet]
  named := hnames

end Tidy

/-- A step keeps a netlist tidy or marks it as dirty. -/
theorem Step.tidy {e : Edit} {found : Option ((k : Kind) × Handle k)} (hstep : n.Step e found m)
    (h : n.dirty = false → n.Tidy) (hdirty : m.dirty = false) : m.Tidy := by
  have hgrow {k : Kind} (hm : n.Grows m k)
      (hfilled : n.Tidy → ∀ e r, m.store.nets e = some r → none ∉ r.pins.tail) : m.Tidy := by
    have htidy := h (hm.dirty ▸ hdirty)
    exact htidy.of_grows hm (hfilled htidy _ _)
  cases hstep with
  | found => exact h hdirty
  | block hm _ hstore => exact hgrow hm fun htidy _ _ hr => htidy.filled (hstore ▸ hr)
  | port hm _ _ _ _ _ hstore => exact hgrow hm fun htidy _ _ hr => htidy.filled (hstore ▸ hr)
  | pin hm hstore =>
    refine hgrow hm fun htidy _ _ hr => ?_
    rw [hstore] at hr
    obtain ⟨t, ht, rfl⟩ := Store.addPin_nets_eq_some_iff.1 hr
    split
    · exact none_notMem_tail_plug (htidy.filled ht) _ _
    · exact htidy.filled ht
  | net hm hstore hr =>
    refine hgrow hm fun htidy _ _ hr' => ?_
    rw [hstore, Store.addNet_nets] at hr'
    rcases (update_some_eq_some_iff n.nets.record?_size).1 hr' with ⟨-, rfl⟩ | hold
    · exact hr
    · exact htidy.filled hold
  | loss hm =>
    rcases hm.changed with rfl | ⟨hmarked, -⟩
    · exact h hdirty
    · rw [hdirty] at hmarked
      cases hmarked
  | packed _ ht hm _ hnames => exact .of_packs ht.consistent.sized hm hnames

theorem Reachable.tidy (hn : n.Reachable) (hdirty : n.dirty = false) : n.Tidy := by
  obtain ⟨name, es, rfl⟩ := hn
  refine (consistent_new name).run_induction (P := fun n => n.dirty = false → n.Tidy) ?_ ?_ hdirty
  · exact fun _ => .new name
  · exact fun _ _ h hstep => hstep.tidy h

/-! ## What queries tell of it -/

/-- The queries find nothing that is left of removed entities: every handle that was issued is live,
every listed port is live, no net has an empty slot for a sink, and every text in the table is the name
of a live block, port or net. -/
structure Clean (n : Netlist) : Prop where
  issued {k : Kind} {h : Handle k} : h.index < n.issued.get k → n.IsLive h
  listed {b : BlockId} {ports : List PortId} : n.portsOf b = .ok ports → ∀ p ∈ ports, n.IsLive p
  sinks {e : NetId} {slots : List (Option PinId)} : n.netSlots e = .ok slots → none ∉ slots.tail
  names {text : String} : text ∈ n.strings.texts → (∃ b, n.blockName b = .ok text) ∨
    (∃ p, n.portName p = .ok text) ∨ ∃ e, n.netName e = .ok text

/-- A port that a block lists is live if no slot is empty. -/
theorem Tidy.isLive_listed (h : n.Tidy) (hn : n.Consistent) {b : BlockId} {r : BlockRecord}
    (hb : n.store.blocks b = some r) {c : PortClass} {p : PortId} (hp : p ∈ r.listed c) :
    n.IsLive p :=
  h.full .port p.index (hn.coherent.listed hb hp).1

theorem Tidy.clean (h : n.Tidy) (hn : n.Consistent) : n.Clean where
  issued {k x} hx := by
    rw [issued, Tally.get_of] at hx
    exact h.full k x.index hx
  listed {b ports} hports p hp := by
    obtain ⟨r, hr, rfl⟩ := (portsOf_eq_ok_iff hn.sized).1 hports
    obtain ⟨c, hc⟩ := BlockRecord.mem_ports_iff.1 hp
    exact h.isLive_listed hn hr hc
  sinks {e slots} hslots := by
    obtain ⟨r, hr, rfl⟩ := (netSlots_eq_ok_iff hn.sized).1 hslots
    exact h.filled hr
  names {text} htext := by
    obtain ⟨i, hi⟩ := List.mem_iff_getElem?.1 htext
    have hname : n.strings.text? ⟨i⟩ = some text := hi
    refine (hn.sized.exists_named h.full (h.named hname)).imp ?_ (Or.imp ?_ ?_)
    · rintro ⟨b, r, hr, hrname⟩
      exact ⟨b, (blockName_eq_ok_iff hn.sized).2 ⟨r, hr, hrname ▸ hname⟩⟩
    · rintro ⟨p, r, hr, hrname⟩
      exact ⟨p, (portName_eq_ok_iff hn.sized).2 ⟨r, hr, hrname ▸ hname⟩⟩
    · rintro ⟨e, r, hr, hrname⟩
      exact ⟨e, (netName_eq_ok_iff hn.sized).2 ⟨r, hr, hrname ▸ hname⟩⟩

end Netlist

end MappedNetlist
