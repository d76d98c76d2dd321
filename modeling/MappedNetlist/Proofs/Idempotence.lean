import MappedNetlist.Proofs.Tidiness

/-!
# Compaction is idempotent

Compaction has nothing to do in a tidy netlist in which nothing is unused: the sweep takes nothing, every
handle and every name is given out again as it was, and the index that is built from the columns is the
one that was there. What compaction leaves is such a netlist, so a second compaction changes nothing; and
compaction of what a sweep leaves does the rest of the work.
-/

namespace MappedNetlist

/-! ## Columns without gaps -/

namespace Slots.Full

variable {k : Kind} {s : Slots k} {h : Handle k}

theorem isSome (hs : s.Full) : ∀ slot ∈ s.toList, slot.isSome = true := by
  intro slot hslot
  obtain ⟨i, hi⟩ := List.mem_iff_getElem?.1 hslot
  rw [Array.getElem?_toList] at hi
  obtain ⟨hlt, -⟩ := Array.getElem?_eq_some_iff.1 hi
  have hlive : s[i]? = some (some ⟨i⟩) := hs i hlt
  rw [hi, Option.some_inj] at hlive
  exact hlive ▸ rfl

/-- If no slot is empty, every entity keeps its handle. -/
theorem moves (hs : s.Full) (hl : s.IsLive h) : s.Moves h h :=
  Renumbering.target?_numbering_of_all _ hs.isSome (by simpa using hl.lt_size)

theorem population_eq (hs : s.Full) : s.population = s.size := by
  rw [population, List.countP_eq_length.2 hs.isSome, Array.length_toList]

theorem ofRenumbering_eq (hs : s.Full) (hplaced : s.Placed) : ofRenumbering s.renumbering = s := by
  refine Placed.ext (placed_ofRenumbering s) hplaced ?_ fun h => ?_
  · rw [size_ofRenumbering, hs.population_eq]
  · rw [isLive_ofRenumbering, hs.population_eq]
    exact ⟨hs h.index, IsLive.lt_size⟩

/-- If no slot is empty, a column is determined by its entries at live handles. -/
theorem column_ext {α : Type} {col new : Column α} (hs : s.Full) (hcol : col.size = s.size)
    (hnew : new.size = s.size) (h : ∀ h, s.IsLive h → new[h.index]? = col[h.index]?) : new = col := by
  refine Array.ext_getElem? fun i => ?_
  by_cases hi : i < s.size
  · exact h ⟨i⟩ (hs i hi)
  · rw [Array.getElem?_eq_none (hnew ▸ Nat.not_lt.1 hi),
      Array.getElem?_eq_none (hcol ▸ Nat.not_lt.1 hi)]

end Slots.Full

/-! ### Kinds without gaps are determined by their records -/

theorem Blocks.Sized.eq_of_record? {b c : Blocks} (hb : b.Sized) (hc : c.Sized)
    (hfull : b.slots.Full) (hslots : c.slots = b.slots)
    (h : ∀ {x r}, b.record? x = some r → c.record? x = some r) : c = b := by
  have hcols (x : BlockId) (hl : b.slots.IsLive x) : c.names[x.index]? = b.names[x.index]? ∧
      c.models[x.index]? = b.models[x.index]? ∧ c.tables[x.index]? = b.tables[x.index]? ∧
      ∀ d, (c.listed d)[x.index]? = (b.listed d)[x.index]? := by
    obtain ⟨r, hr⟩ := exists_record? hb hl
    obtain ⟨-, hn, hm, ht, hd⟩ := record?_eq_some_iff.1 hr
    obtain ⟨-, hn', hm', ht', hd'⟩ := record?_eq_some_iff.1 (h hr)
    exact ⟨hn'.trans hn.symm, hm'.trans hm.symm, ht'.trans ht.symm,
      fun d => (hd' d).trans (hd d).symm⟩
  have hlisted (d : PortClass) : c.listed d = b.listed d :=
    hfull.column_ext (hb.listed d) (hslots ▸ hc.listed d) fun x hl => (hcols x hl).2.2.2 d
  ext1
  · exact hslots
  · exact hfull.column_ext hb.names (hslots ▸ hc.names) fun x hl => (hcols x hl).1
  · exact hfull.column_ext hb.models (hslots ▸ hc.models) fun x hl => (hcols x hl).2.1
  · exact hfull.column_ext hb.tables (hslots ▸ hc.tables) fun x hl => (hcols x hl).2.2.1
  · exact hlisted .input
  · exact hlisted .output
  · exact hlisted .clock

theorem Ports.Sized.eq_of_record? {p q : Ports} (hp : p.Sized) (hq : q.Sized)
    (hfull : p.slots.Full) (hslots : q.slots = p.slots)
    (h : ∀ {x r}, p.record? x = some r → q.record? x = some r) : q = p := by
  have hcols (x : PortId) (hl : p.slots.IsLive x) : q.names[x.index]? = p.names[x.index]? ∧
      q.owners[x.index]? = p.owners[x.index]? ∧ q.widths[x.index]? = p.widths[x.index]? ∧
      q.classes[x.index]? = p.classes[x.index]? ∧ q.pins[x.index]? = p.pins[x.index]? := by
    obtain ⟨r, hr⟩ := exists_record? hp hl
    obtain ⟨-, hn, ho, hw, hc, hi⟩ := record?_eq_some_iff.1 hr
    obtain ⟨-, hn', ho', hw', hc', hi'⟩ := record?_eq_some_iff.1 (h hr)
    exact ⟨hn'.trans hn.symm, ho'.trans ho.symm, hw'.trans hw.symm, hc'.trans hc.symm,
      hi'.trans hi.symm⟩
  ext1
  · exact hslots
  · exact hfull.column_ext hp.names (hslots ▸ hq.names) fun x hl => (hcols x hl).1
  · exact hfull.column_ext hp.owners (hslots ▸ hq.owners) fun x hl => (hcols x hl).2.1
  · exact hfull.column_ext hp.widths (hslots ▸ hq.widths) fun x hl => (hcols x hl).2.2.1
  · exact hfull.column_ext hp.classes (hslots ▸ hq.classes) fun x hl => (hcols x hl).2.2.2.1
  · exact hfull.column_ext hp.pins (hslots ▸ hq.pins) fun x hl => (hcols x hl).2.2.2.2

theorem Pins.Sized.eq_of_record? {p q : Pins} (hp : p.Sized) (hq : q.Sized)
    (hfull : p.slots.Full) (hslots : q.slots = p.slots)
    (h : ∀ {x r}, p.record? x = some r → q.record? x = some r) : q = p := by
  have hcols (x : PinId) (hl : p.slots.IsLive x) : q.ports[x.index]? = p.ports[x.index]? ∧
      q.bits[x.index]? = p.bits[x.index]? ∧ q.nets[x.index]? = p.nets[x.index]? ∧
      q.roles[x.index]? = p.roles[x.index]? := by
    obtain ⟨r, hr⟩ := exists_record? hp hl
    obtain ⟨-, ho, hb, hn, hrole⟩ := record?_eq_some_iff.1 hr
    obtain ⟨-, ho', hb', hn', hrole'⟩ := record?_eq_some_iff.1 (h hr)
    exact ⟨ho'.trans ho.symm, hb'.trans hb.symm, hn'.trans hn.symm, hrole'.trans hrole.symm⟩
  ext1
  · exact hslots
  · exact hfull.column_ext hp.ports (hslots ▸ hq.ports) fun x hl => (hcols x hl).1
  · exact hfull.column_ext hp.bits (hslots ▸ hq.bits) fun x hl => (hcols x hl).2.1
  · exact hfull.column_ext hp.nets (hslots ▸ hq.nets) fun x hl => (hcols x hl).2.2.1
  · exact hfull.column_ext hp.roles (hslots ▸ hq.roles) fun x hl => (hcols x hl).2.2.2

theorem Nets.Sized.eq_of_record? {p q : Nets} (hp : p.Sized) (hq : q.Sized)
    (hfull : p.slots.Full) (hslots : q.slots = p.slots)
    (h : ∀ {x r}, p.record? x = some r → q.record? x = some r) : q = p := by
  have hcols (x : NetId) (hl : p.slots.IsLive x) : q.names[x.index]? = p.names[x.index]? ∧
      q.pins[x.index]? = p.pins[x.index]? := by
    obtain ⟨r, hr⟩ := exists_record? hp hl
    obtain ⟨-, hn, hi⟩ := record?_eq_some_iff.1 hr
    obtain ⟨-, hn', hi'⟩ := record?_eq_some_iff.1 (h hr)
    exact ⟨hn'.trans hn.symm, hi'.trans hi.symm⟩
  ext1
  · exact hslots
  · exact hfull.column_ext hp.names (hslots ▸ hq.names) fun x hl => (hcols x hl).1
  · exact hfull.column_ext hp.pins (hslots ▸ hq.pins) fun x hl => (hcols x hl).2

namespace Netlist

variable {n m q t : Netlist}

/-! ## Squeezing a tidy netlist -/

/-- Squeezing leaves alone what has no positions. -/
theorem frame_squeeze (h : n.squeeze = .ok q) :
    q.name = n.name ∧ q.dirty = n.dirty ∧ q.strings = n.strings ∧ q.index = n.index := by
  simp only [squeeze, bind_eq_ok_iff, pure_eq_ok, Except.ok.injEq] at h
  obtain ⟨_, -, _, -, _, -, _, -, rfl⟩ := h
  exact ⟨rfl, rfl, rfl, rfl⟩

/-- A net without empty slots for sinks whose pins keep their handles stays as it is. -/
theorem relinkNet_eq_self {m : Renumbering PinId} {slots : List (Option PinId)} (hnil : slots ≠ [])
    (hfilled : none ∉ slots.tail) (hlink : ∀ slot ∈ slots, relink m slot = slot) :
    relinkNet m slots = slots := by
  obtain ⟨slot, sinks, rfl⟩ := List.exists_cons_of_ne_nil hnil
  rw [List.tail_cons] at hfilled
  rw [List.forall_mem_cons] at hlink
  have hsinks : (sinks.filterMap (relink m)).map some = sinks := by
    rw [List.map_filterMap]
    refine (List.filterMap_congr fun sink hsink => ?_).trans List.filterMap_some
    rw [hlink.2 sink hsink]
    cases sink with
    | none => exact absurd hsink hfilled
    | some i => rfl
  exact congrArg₂ List.cons hlink.1 hsinks

namespace Tidy

section Records

variable (h : n.Tidy)
include h

theorem moves {k : Kind} {x : Handle k} (hl : n.IsLive x) : (n.slots k).Moves x x :=
  (h.full k).moves hl

/-- Slots of live pins keep their pins. -/
theorem relink_pin {slots : List (Option PinId)} (hlive : ∀ i, some i ∈ slots → n.IsLive i) :
    ∀ slot ∈ slots, relink n.renumberings.pins slot = slot := by
  intro slot hslot
  cases slot with
  | none => rfl
  | some i => exact (h.moves (hlive i hslot)).relink_eq

variable (hn : n.Consistent)
include hn

theorem renumber_block {b : BlockId} {r : BlockRecord} (hb : n.store.blocks b = some r) :
    r.renumber n.renumberings = r := by
  refine BlockRecord.ext rfl rfl rfl (funext fun c => ?_)
  rw [BlockRecord.renumber_listed]
  refine (List.filterMap_congr fun p hp => ?_).trans List.filterMap_some
  exact h.moves (h.isLive_listed hn hb hp)

theorem renumber_port {p : PortId} {r : PortRecord} (hp : n.store.ports p = some r) :
    r.renumber n.renumberings = r := by
  obtain ⟨b, hb, -⟩ := hn.coherent.owned hp
  refine PortRecord.ext rfl ?_ rfl rfl (List.map_congr_left (h.relink_pin ?_) |>.trans (List.map_id _))
  · exact (h.moves (Blocks.isLive_of_record? hb)).redirect_eq
  · intro i hi
    obtain ⟨t, ht, -⟩ := (hn.mem_pins_iff hp).1 hi
    exact Pins.isLive_of_record? ht

theorem renumber_pin {i : PinId} {r : PinRecord} (hi : n.store.pins i = some r) :
    r.renumber n.renumberings = r := by
  obtain ⟨p, hp, -⟩ := hn.coherent.placed hi
  refine PinRecord.ext ?_ rfl ?_ rfl
  · exact (h.moves (Ports.isLive_of_record? hp)).redirect_eq
  · rw [PinRecord.renumber_net]
    cases hnet : r.net with
    | none => rfl
    | some e =>
      obtain ⟨t, ht, -⟩ := hn.coherent.connected hi hnet
      exact (h.moves (Nets.isLive_of_record? ht)).relink_eq

theorem renumber_net {e : NetId} {r : NetRecord} (he : n.store.nets e = some r) :
    r.renumber n.renumberings = r := by
  refine NetRecord.ext rfl (relinkNet_eq_self (hn.coherent.slotted he) (h.filled he) ?_)
  refine h.relink_pin fun i hi => ?_
  obtain ⟨slot, hslot⟩ := List.mem_iff_getElem?.1 hi
  obtain ⟨t, ht, -⟩ := hn.coherent.attached he hslot
  exact Pins.isLive_of_record? ht

end Records

/-- Every live entity moves to where it is. -/
theorem squeeze_eq_self (h : n.Tidy) (hn : n.Consistent) : n.squeeze = .ok n ∧ n.Packs n id := by
  obtain ⟨q, hsqueeze, hq⟩ := exists_squeeze hn.sized
  obtain ⟨hname, hdirty, hstrings, hindex⟩ := frame_squeeze hsqueeze
  have hslots (k : Kind) : q.slots k = n.slots k :=
    (hq.slots k).trans ((h.full k).ofRenumbering_eq (hn.sized.placed k))
  have hblocks : q.blocks = n.blocks := by
    refine hn.sized.blocks.eq_of_record? hq.sized.blocks (h.full .block) (hslots .block) ?_
    intro b r hr
    refine (hq.block (h.moves (Blocks.isLive_of_record? hr))).trans ?_
    rw [store_blocks, hr, Option.map_some, h.renumber_block hn hr]
    rfl
  have hports : q.ports = n.ports := by
    refine hn.sized.ports.eq_of_record? hq.sized.ports (h.full .port) (hslots .port) ?_
    intro p r hr
    refine (hq.port (h.moves (Ports.isLive_of_record? hr))).trans ?_
    rw [store_ports, hr, Option.map_some, h.renumber_port hn hr]
    rfl
  have hpins : q.pins = n.pins := by
    refine hn.sized.pins.eq_of_record? hq.sized.pins (h.full .pin) (hslots .pin) ?_
    intro i r hr
    refine (hq.pin (h.moves (Pins.isLive_of_record? hr))).trans ?_
    rw [store_pins, hr, Option.map_some, h.renumber_pin hn hr]
  have hnets : q.nets = n.nets := by
    refine hn.sized.nets.eq_of_record? hq.sized.nets (h.full .net) (hslots .net) ?_
    intro e r hr
    refine (hq.net (h.moves (Nets.isLive_of_record? hr))).trans ?_
    rw [store_nets, hr, Option.map_some, h.renumber_net hn hr]
    rfl
  obtain rfl : q = n := Netlist.ext hname hdirty hblocks hports hpins hnets hstrings hindex
  exact ⟨hsqueeze, hq⟩

/-- Every name keeps its handle. -/
theorem compactStrings_eq_self (h : n.Tidy) (hn : n.Consistent) : n.compactStrings = .ok n := by
  obtain ⟨hstrings, htarget⟩ := StringTable.compact_of_all (fun name => name ∈ n.namesInUse)
    fun {_ text} (htext : n.strings.text? _ = some text) => decide_eq_true (h.named htext)
  have hmap {col : Column StringId} (hcol : ∀ name ∈ col.toList, name ∈ n.namesInUse) :
      col.map n.newName = col := by
    refine (Array.map_congr_left fun name hname => ?_).trans (Array.map_id col)
    obtain ⟨text, htext⟩ := hn.interned name (hcol name (Array.mem_toList_iff.2 hname))
    exact congrArg (fun o => o.getD name) (htarget htext)
  refine compactStrings_eq_ok_iff.2 ⟨hn.interned, ?_⟩
  have hblocks : n.blocks.names.map n.newName = n.blocks.names :=
    hmap fun name hname => List.mem_append_left _ (List.mem_append_left _ hname)
  have hports : n.ports.names.map n.newName = n.ports.names :=
    hmap fun name hname => List.mem_append_left _ (List.mem_append_right _ hname)
  have hnets : n.nets.names.map n.newName = n.nets.names :=
    hmap fun name hname => List.mem_append_right _ hname
  rw [rename, hblocks, hports, hnets, usedStrings, hstrings]

/-- The index is the one that is built from the columns. -/
theorem index_eq (h : n.Tidy) (hn : n.Consistent) :
    n.index = .ofColumns n.blocks n.ports n.pins n.nets :=
  hn.indexed.eq ((h.squeeze_eq_self hn).2.exact_ofColumns hn)

/-- Compaction of a tidy netlist that a sweep leaves alone changes nothing. -/
theorem exists_compact_eq_self (h : n.Tidy) (hn : n.Consistent) (hdirty : n.dirty = false)
    {es : List Event} (hsweep : n.sweep = .ok (n, es)) : ∃ fs, n.compact = .ok (n, fs) := by
  refine ⟨_, compact_eq_ok_iff.2 ⟨n, es, n, n, hsweep, (h.squeeze_eq_self hn).1,
    h.compactStrings_eq_self hn, ?_, rfl⟩⟩
  rw [reindex, ← h.index_eq hn, ← hdirty]

end Tidy

/-! ## Netlists without anything unused -/

/-- Every live port has a pin, and every live block that lists ports lists a live one. -/
structure AllUsed (n : Netlist) : Prop where
  ports {p : PortId} {r : PortRecord} : n.store.ports p = some r → r.bare = false
  blocks {b : BlockId} {r : BlockRecord} : n.store.blocks b = some r →
    r.ports = [] ∨ ∃ p ∈ r.ports, n.IsLive p

namespace AllUsed

/-- A sweep takes nothing. -/
theorem exists_sweep_eq_self (h : n.AllUsed) (hn : n.Consistent) :
    ∃ es, n.sweep = .ok (n, es) := by
  obtain ⟨t, es, hsweep, ht⟩ := exists_sweep hn
  have hsame : n.store.Agree n.store.unused {} := by
    refine ⟨fun {b r} hb => ?_, fun {p r} hp => ?_, fun _ => rfl, fun _ => rfl, fun _ => rfl⟩
    · simp only [Store.unused, hb, Option.any_some]
      rcases h.blocks hb with hnil | ⟨p, hp, hl⟩
      · simp [hnil]
      · obtain ⟨q, hq⟩ := hn.sized.isLive_port_iff.1 hl
        rw [Bool.and_eq_false_iff, List.all_eq_false]
        exact .inr ⟨p, hp, by simp [hq, h.ports hq]⟩
    · simp [Store.unused, hp, h.ports hp]
  have hstore : t.store = n.store := (ht.congr hn hsame).store.trans Store.without_nothing
  rcases ht.changed with rfl | ⟨-, hlost⟩
  · exact ⟨es, hsweep⟩
  · exact absurd (hstore ▸ Store.Likewise.refl _) hlost

/-- What a sweep leaves is used. -/
theorem of_sweep (ht : n.Shrinks t n.store.unused) : t.AllUsed where
  ports hp := by
    rw [ht.store] at hp
    exact (Store.without_unused_ports_eq_some_iff.1 hp).2
  blocks {b r} hb := by
    rw [ht.store] at hb
    refine (Store.without_unused_blocks_eq_some_iff.1 hb).2.imp_right ?_
    rintro ⟨p, hp, q, hq, hbare⟩
    refine ⟨p, hp, ht.consistent.sized.isLive_port_iff.2 ⟨q, ?_⟩⟩
    rw [ht.store]
    exact Store.without_unused_ports_eq_some_iff.2 ⟨hq, hbare⟩

end AllUsed

/-- In a tidy netlist a listed port is live, so only ports can be unused. -/
theorem Tidy.allUsed (h : n.Tidy) (hn : n.Consistent)
    (hports : ∀ {p r}, n.store.ports p = some r → r.bare = false) : n.AllUsed where
  ports := hports
  blocks {b r} hb := by
    cases hr : r.ports with
    | nil => exact .inl rfl
    | cons p ps =>
      obtain ⟨c, hc⟩ := BlockRecord.mem_ports_iff.1 (hr ▸ List.mem_cons_self)
      exact .inr ⟨p, List.mem_cons_self, h.isLive_listed hn hb hc⟩

/-- A port that moves keeps its pins. -/
theorem Packs.bare_eq_false {f : StringId → StringId} (hm : t.Packs m f) (ht : t.Consistent)
    (hused : t.AllUsed) {p' : PortId} {r' : PortRecord} (hr' : m.store.ports p' = some r') :
    r'.bare = false := by
  obtain ⟨p, r, -, hr, rfl⟩ := (hm.ports_eq_some_iff ht.sized).1 hr'
  obtain ⟨i, hi⟩ := PortRecord.bare_eq_false_iff.1 (hused.ports hr)
  obtain ⟨q, hq, -⟩ := (ht.mem_pins_iff hr).1 hi
  obtain ⟨i', hmove⟩ := Slots.exists_moves ht.sized.pins.placed (Pins.isLive_of_record? hq)
  exact PortRecord.bare_eq_false_iff.2 ⟨i', List.mem_map.2 ⟨some i, hi, hmove.relink_eq⟩⟩

/-! ## Compacting again -/

/-- Compaction after a sweep leaves what compaction leaves. -/
theorem exists_compact_of_sweep {es fs gs : List Event} (hsweep : n.sweep = .ok (t, es))
    (hcompact : n.compact = .ok (m, fs)) (hagain : t.sweep = .ok (t, gs)) :
    ∃ hs, t.compact = .ok (m, hs) := by
  obtain ⟨t', es', q, l, hsweep', hsqueeze, hrename, hm, -⟩ := compact_eq_ok_iff.1 hcompact
  cases hsweep.symm.trans hsweep'
  exact ⟨_, compact_eq_ok_iff.2 ⟨t, gs, q, l, hagain, hsqueeze, hrename, hm, rfl⟩⟩

/-- A reachable netlist that is not marked as dirty has nothing left of removed entities. If moreover
every live port has a pin, compaction changes nothing at all. And in every reachable netlist compacting
again, or compacting after a sweep, leaves what compacting once leaves. -/
theorem compact_idempotent (hn : n.Reachable) :
    (n.dirty = false → n.Clean ∧
      ((∀ p : PortId, n.IsLive p → n.portPins p ≠ .ok []) → ∃ es, n.compact = .ok (n, es))) ∧
    ∃ t m, (∃ es, n.sweep = .ok (t, es)) ∧ (∃ es, n.compact = .ok (m, es)) ∧
      (∃ es, m.compact = .ok (m, es)) ∧ ∃ es, t.compact = .ok (m, es) := by
  have hc := hn.consistent
  refine ⟨fun hdirty => ⟨(hn.tidy hdirty).clean hc, fun hpins => ?_⟩, ?_⟩
  · have htidy := hn.tidy hdirty
    have hused : n.AllUsed := htidy.allUsed hc fun {p r} hr => by
      rw [PortRecord.bare_eq_false_iff]
      by_contra hbare
      refine hpins p (Ports.isLive_of_record? hr) ((portPins_eq_ok hr).trans (congrArg _ ?_))
      rw [List.eq_nil_iff_forall_not_mem]
      exact fun i hi => hbare ⟨i, by simpa using hi⟩
    obtain ⟨es, hsweep⟩ := hused.exists_sweep_eq_self hc
    exact htidy.exists_compact_eq_self hc hdirty hsweep
  · obtain ⟨t, es, m, fs, f, hsweep, ht, hcompact, hpacks, hm⟩ := exists_compact hc
    have hused : t.AllUsed := .of_sweep ht
    have htidy : m.Tidy := .of_packs ht.consistent.sized hpacks (namesUsed_of_compact hcompact)
    have hused' : m.AllUsed := htidy.allUsed hm (hpacks.bare_eq_false ht.consistent hused)
    obtain ⟨gs, hagain⟩ := hused.exists_sweep_eq_self ht.consistent
    obtain ⟨gs', hagain'⟩ := hused'.exists_sweep_eq_self hm
    exact ⟨t, m, ⟨es, hsweep⟩, ⟨fs, hcompact⟩,
      htidy.exists_compact_eq_self hm (dirty_of_compact hcompact) hagain',
      exists_compact_of_sweep hsweep hcompact hagain⟩

/-- A net was removed, and after a compaction a pin was created. -/
def recompacted : List Edit :=
  [.createBlock "a" { name := "buf", ports := [.output "o" 2] } [], .createNet "x", .removeNet ⟨0⟩,
    .compact, .createPort ⟨0⟩ "o", .createPin ⟨0⟩ 1 none .driver]

theorem compact_idempotent_recompacted : (Edit.run (.new "top") recompacted).Clean ∧
    ∃ es, (Edit.run (.new "top") recompacted).compact = .ok (Edit.run (.new "top") recompacted, es) := by
  obtain ⟨hclean, hcompact⟩ :=
    (compact_idempotent ((Reachable.new "top").run recompacted)).1 (by decide +kernel)
  refine ⟨hclean, hcompact fun p hl => ?_⟩
  have hports : ((Edit.run (.new "top") recompacted).slots .port).size = 1 := by decide +kernel
  have hone : p.index < 1 := hports ▸ hl.lt_size
  obtain rfl : p = ⟨0⟩ := by
    cases p
    simpa using hone
  decide +kernel

end Netlist

end MappedNetlist
