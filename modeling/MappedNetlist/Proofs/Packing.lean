import MappedNetlist.Netlist.Compact
import MappedNetlist.Proofs.Renumbering

/-!
# Packing columns

The steps of compaction, seen from the records. Squeezing the columns of a kind moves each record to
its new handle and leaves it as it is; renumbering replaces the handles in each record, and renaming
its name.
-/

namespace MappedNetlist

variable {R : Renumberings} {f : StringId → StringId}

namespace BlockRecord

/-- Ports under their new handles. -/
@[simps] def renumber (r : BlockRecord) (R : Renumberings) : BlockRecord :=
  { r with listed := fun c => (r.listed c).filterMap fun p => R.ports.target? p.index }

@[simps] def rename (r : BlockRecord) (f : StringId → StringId) : BlockRecord :=
  { r with name := f r.name }

end BlockRecord

namespace PortRecord

/-- Blocks and pins under their new handles. -/
@[simps] def renumber (r : PortRecord) (R : Renumberings) : PortRecord :=
  { r with owner := redirect R.blocks r.owner, pins := r.pins.map (relink R.pins) }

@[simps] def rename (r : PortRecord) (f : StringId → StringId) : PortRecord :=
  { r with name := f r.name }

end PortRecord

/-- Ports and nets under their new handles. -/
@[simps] def PinRecord.renumber (r : PinRecord) (R : Renumberings) : PinRecord :=
  { r with port := redirect R.ports r.port, net := relink R.nets r.net }

namespace NetRecord

/-- Pins under their new handles. -/
@[simps] def renumber (r : NetRecord) (R : Renumberings) : NetRecord :=
  { r with pins := relinkNet R.pins r.pins }

@[simps] def rename (r : NetRecord) (f : StringId → StringId) : NetRecord :=
  { r with name := f r.name }

end NetRecord

namespace Blocks

variable {b : Blocks} {h h' : BlockId}

theorem exists_squeeze (hb : b.Sized) :
    ∃ c : Blocks, b.squeeze b.slots.renumbering = .ok c ∧ c.Sized ∧
      c.slots = Slots.ofRenumbering b.slots.renumbering ∧
      ∀ {h h'}, b.slots.Moves h h' → c.record? h' = b.record? h := by
  obtain ⟨names, hn, hns, hn'⟩ := Column.exists_squeeze hb.placed hb.names
  obtain ⟨models, hm, hms, hm'⟩ := Column.exists_squeeze hb.placed hb.models
  obtain ⟨tables, ht, hts, ht'⟩ := Column.exists_squeeze hb.placed hb.tables
  choose listed hl hls hl' using fun c => Column.exists_squeeze hb.placed (hb.listed c)
  let c : Blocks := {
    slots := Slots.ofRenumbering b.slots.renumbering
    names, models, tables
    inputs := listed .input
    outputs := listed .output
    clocks := listed .clock }
  have hc (d : PortClass) : c.listed d = listed d := by cases d <;> rfl
  refine ⟨c, ?_, ?_, rfl, fun {h h'} hmove => ?_⟩
  · have hi : b.inputs.squeeze b.slots.renumbering = .ok _ := hl .input
    have ho : b.outputs.squeeze b.slots.renumbering = .ok _ := hl .output
    have hk : b.clocks.squeeze b.slots.renumbering = .ok _ := hl .clock
    simp only [squeeze, hn, hm, ht, hi, ho, hk, ok_bind]
    rfl
  · have hsize : c.slots.size = b.slots.population := Slots.size_ofRenumbering _
    exact ⟨Slots.placed_ofRenumbering _, hns.trans hsize.symm, hms.trans hsize.symm,
      hts.trans hsize.symm, fun d => by rw [hc, hls, hsize]⟩
  · have hlive : b.slots.IsLive h := hmove.isLive hb.placed
    have hlive' : c.slots.IsLive h' :=
      (Slots.isLive_ofRenumbering _).2 (hmove.index_lt hb.placed)
    ext r
    rw [record?_eq_some_iff, record?_eq_some_iff]
    simp only [hlive, hlive', hc, hl' _ hmove]
    rw [hn' hmove, hm' hmove, ht' hmove]

theorem listed_renumber (b : Blocks) (R : Renumberings) (c : PortClass) :
    (b.renumber R).listed c =
      (b.listed c).map fun ports => ports.filterMap fun p => R.ports.target? p.index := by
  cases c <;> rfl

theorem Sized.renumber (hb : b.Sized) (R : Renumberings) : (b.renumber R).Sized :=
  { hb with listed := fun c => by rw [listed_renumber, Array.size_map]; exact hb.listed c }

theorem record?_renumber (hb : b.Sized) (R : Renumberings) (h : BlockId) :
    (b.renumber R).record? h = (b.record? h).map (·.renumber R) := by
  cases hr : b.record? h with
  | none => exact (record?_eq_none_iff (hb.renumber R)).2 ((record?_eq_none_iff hb).1 hr)
  | some r =>
    obtain ⟨hl, hn, hm, ht, hc⟩ := record?_eq_some_iff.1 hr
    refine record?_eq_some_iff.2 ⟨hl, hn, hm, ht, fun c => ?_⟩
    rw [listed_renumber, Array.getElem?_map, hc c]
    rfl

theorem Sized.rename (hb : b.Sized) (f : StringId → StringId) :
    Sized { b with names := b.names.map f } :=
  { hb with names := Array.size_map.trans hb.names }

theorem record?_rename (hb : b.Sized) (f : StringId → StringId) (h : BlockId) :
    record? { b with names := b.names.map f } h = (b.record? h).map (·.rename f) := by
  cases hr : b.record? h with
  | none => exact (record?_eq_none_iff (hb.rename f)).2 ((record?_eq_none_iff hb).1 hr)
  | some r =>
    obtain ⟨hl, hn, hm, ht, hc⟩ := record?_eq_some_iff.1 hr
    exact record?_eq_some_iff.2 ⟨hl, by rw [Array.getElem?_map, hn]; rfl, hm, ht, hc⟩

end Blocks

namespace Ports

variable {p : Ports}

theorem exists_squeeze (hp : p.Sized) :
    ∃ c : Ports, p.squeeze p.slots.renumbering = .ok c ∧ c.Sized ∧
      c.slots = Slots.ofRenumbering p.slots.renumbering ∧
      ∀ {h h'}, p.slots.Moves h h' → c.record? h' = p.record? h := by
  obtain ⟨names, hn, hns, hn'⟩ := Column.exists_squeeze hp.placed hp.names
  obtain ⟨owners, ho, hos, ho'⟩ := Column.exists_squeeze hp.placed hp.owners
  obtain ⟨widths, hw, hws, hw'⟩ := Column.exists_squeeze hp.placed hp.widths
  obtain ⟨classes, hc, hcs, hc'⟩ := Column.exists_squeeze hp.placed hp.classes
  obtain ⟨pins, hi, his, hi'⟩ := Column.exists_squeeze hp.placed hp.pins
  let c : Ports := {
    slots := Slots.ofRenumbering p.slots.renumbering
    names, owners, widths, classes, pins }
  refine ⟨c, ?_, ?_, rfl, fun {h h'} hmove => ?_⟩
  · simp only [squeeze, hn, ho, hw, hc, hi, ok_bind]
    rfl
  · have hsize : c.slots.size = p.slots.population := Slots.size_ofRenumbering _
    exact ⟨Slots.placed_ofRenumbering _, hns.trans hsize.symm, hos.trans hsize.symm,
      hws.trans hsize.symm, hcs.trans hsize.symm, his.trans hsize.symm⟩
  · have hlive : p.slots.IsLive h := hmove.isLive hp.placed
    have hlive' : c.slots.IsLive h' :=
      (Slots.isLive_ofRenumbering _).2 (hmove.index_lt hp.placed)
    ext r
    rw [record?_eq_some_iff, record?_eq_some_iff]
    simp only [hlive, hlive']
    rw [hn' hmove, ho' hmove, hw' hmove, hc' hmove, hi' hmove]

theorem Sized.renumber (hp : p.Sized) (R : Renumberings) : (p.renumber R).Sized :=
  { hp with
    owners := Array.size_map.trans hp.owners
    pins := Array.size_map.trans hp.pins }

theorem record?_renumber (hp : p.Sized) (R : Renumberings) (h : PortId) :
    (p.renumber R).record? h = (p.record? h).map (·.renumber R) := by
  cases hr : p.record? h with
  | none => exact (record?_eq_none_iff (hp.renumber R)).2 ((record?_eq_none_iff hp).1 hr)
  | some r =>
    obtain ⟨hl, hn, ho, hw, hc, hi⟩ := record?_eq_some_iff.1 hr
    refine record?_eq_some_iff.2 ⟨hl, hn, ?_, hw, hc, ?_⟩
    · rw [renumber, Array.getElem?_map, ho]
      rfl
    · rw [renumber, Array.getElem?_map, hi]
      rfl

theorem Sized.rename (hp : p.Sized) (f : StringId → StringId) :
    Sized { p with names := p.names.map f } :=
  { hp with names := Array.size_map.trans hp.names }

theorem record?_rename (hp : p.Sized) (f : StringId → StringId) (h : PortId) :
    record? { p with names := p.names.map f } h = (p.record? h).map (·.rename f) := by
  cases hr : p.record? h with
  | none => exact (record?_eq_none_iff (hp.rename f)).2 ((record?_eq_none_iff hp).1 hr)
  | some r =>
    obtain ⟨hl, hn, ho, hw, hc, hi⟩ := record?_eq_some_iff.1 hr
    exact record?_eq_some_iff.2 ⟨hl, by rw [Array.getElem?_map, hn]; rfl, ho, hw, hc, hi⟩

end Ports

namespace Pins

variable {p : Pins}

theorem exists_squeeze (hp : p.Sized) :
    ∃ c : Pins, p.squeeze p.slots.renumbering = .ok c ∧ c.Sized ∧
      c.slots = Slots.ofRenumbering p.slots.renumbering ∧
      ∀ {h h'}, p.slots.Moves h h' → c.record? h' = p.record? h := by
  obtain ⟨ports, ho, hos, ho'⟩ := Column.exists_squeeze hp.placed hp.ports
  obtain ⟨bits, hb, hbs, hb'⟩ := Column.exists_squeeze hp.placed hp.bits
  obtain ⟨nets, hn, hns, hn'⟩ := Column.exists_squeeze hp.placed hp.nets
  obtain ⟨roles, hr, hrs, hr'⟩ := Column.exists_squeeze hp.placed hp.roles
  let c : Pins := {
    slots := Slots.ofRenumbering p.slots.renumbering
    ports, bits, nets, roles }
  refine ⟨c, ?_, ?_, rfl, fun {h h'} hmove => ?_⟩
  · simp only [squeeze, ho, hb, hn, hr, ok_bind]
    rfl
  · have hsize : c.slots.size = p.slots.population := Slots.size_ofRenumbering _
    exact ⟨Slots.placed_ofRenumbering _, hos.trans hsize.symm, hbs.trans hsize.symm,
      hns.trans hsize.symm, hrs.trans hsize.symm⟩
  · have hlive : p.slots.IsLive h := hmove.isLive hp.placed
    have hlive' : c.slots.IsLive h' :=
      (Slots.isLive_ofRenumbering _).2 (hmove.index_lt hp.placed)
    ext r
    rw [record?_eq_some_iff, record?_eq_some_iff]
    simp only [hlive, hlive']
    rw [ho' hmove, hb' hmove, hn' hmove, hr' hmove]

theorem Sized.renumber (hp : p.Sized) (R : Renumberings) : (p.renumber R).Sized :=
  { hp with
    ports := Array.size_map.trans hp.ports
    nets := Array.size_map.trans hp.nets }

theorem record?_renumber (hp : p.Sized) (R : Renumberings) (h : PinId) :
    (p.renumber R).record? h = (p.record? h).map (·.renumber R) := by
  cases hr : p.record? h with
  | none => exact (record?_eq_none_iff (hp.renumber R)).2 ((record?_eq_none_iff hp).1 hr)
  | some r =>
    obtain ⟨hl, ho, hb, hn, hrole⟩ := record?_eq_some_iff.1 hr
    refine record?_eq_some_iff.2 ⟨hl, ?_, hb, ?_, hrole⟩
    · rw [renumber, Array.getElem?_map, ho]
      rfl
    · rw [renumber, Array.getElem?_map, hn]
      rfl

end Pins

namespace Nets

variable {n : Nets}

theorem exists_squeeze (hn : n.Sized) :
    ∃ c : Nets, n.squeeze n.slots.renumbering = .ok c ∧ c.Sized ∧
      c.slots = Slots.ofRenumbering n.slots.renumbering ∧
      ∀ {h h'}, n.slots.Moves h h' → c.record? h' = n.record? h := by
  obtain ⟨names, hx, hxs, hx'⟩ := Column.exists_squeeze hn.placed hn.names
  obtain ⟨pins, hp, hps, hp'⟩ := Column.exists_squeeze hn.placed hn.pins
  let c : Nets := {
    slots := Slots.ofRenumbering n.slots.renumbering
    names, pins }
  refine ⟨c, ?_, ?_, rfl, fun {h h'} hmove => ?_⟩
  · simp only [squeeze, hx, hp, ok_bind]
    rfl
  · have hsize : c.slots.size = n.slots.population := Slots.size_ofRenumbering _
    exact ⟨Slots.placed_ofRenumbering _, hxs.trans hsize.symm, hps.trans hsize.symm⟩
  · have hlive : n.slots.IsLive h := hmove.isLive hn.placed
    have hlive' : c.slots.IsLive h' :=
      (Slots.isLive_ofRenumbering _).2 (hmove.index_lt hn.placed)
    ext r
    rw [record?_eq_some_iff, record?_eq_some_iff]
    simp only [hlive, hlive']
    rw [hx' hmove, hp' hmove]

theorem Sized.renumber (hn : n.Sized) (R : Renumberings) : (n.renumber R).Sized :=
  { hn with pins := Array.size_map.trans hn.pins }

theorem record?_renumber (hn : n.Sized) (R : Renumberings) (h : NetId) :
    (n.renumber R).record? h = (n.record? h).map (·.renumber R) := by
  cases hr : n.record? h with
  | none => exact (record?_eq_none_iff (hn.renumber R)).2 ((record?_eq_none_iff hn).1 hr)
  | some r =>
    obtain ⟨hl, hx, hp⟩ := record?_eq_some_iff.1 hr
    refine record?_eq_some_iff.2 ⟨hl, hx, ?_⟩
    rw [renumber, Array.getElem?_map, hp]
    rfl

theorem Sized.rename (hn : n.Sized) (f : StringId → StringId) :
    Sized { n with names := n.names.map f } :=
  { hn with names := Array.size_map.trans hn.names }

theorem record?_rename (hn : n.Sized) (f : StringId → StringId) (h : NetId) :
    record? { n with names := n.names.map f } h = (n.record? h).map (·.rename f) := by
  cases hr : n.record? h with
  | none => exact (record?_eq_none_iff (hn.rename f)).2 ((record?_eq_none_iff hn).1 hr)
  | some r =>
    obtain ⟨hl, hx, hp⟩ := record?_eq_some_iff.1 hr
    exact record?_eq_some_iff.2 ⟨hl, by rw [Array.getElem?_map, hx]; rfl, hp⟩

end Nets

end MappedNetlist
