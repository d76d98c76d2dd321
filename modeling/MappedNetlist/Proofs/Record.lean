import Mathlib.Logic.Function.Basic
import Mathlib.Tactic.Choose
import Mathlib.Tactic.Simps.Basic
import MappedNetlist.Netlist.Basic

/-!
# Records of live entities

The columns of a kind, read at the position of a live handle, give the *record* of its entity. A
`Store` maps the handles of each kind to records and everything else to nothing, so it is what a
netlist says about its live entities, without what is left of removed ones. Every write to a column
is an update of the store (`record?_setPins` and the like), which is all that later modules need to
know of columns. `Sized` is what verification asks of the columns of a kind by themselves: that they
have one length, and that handles stand at their own positions.
-/

namespace MappedNetlist

@[ext] structure BlockRecord where
  name : StringId
  model : Model
  table : TruthTable
  listed : PortClass → List PortId

@[ext] structure PortRecord where
  name : StringId
  owner : BlockId
  width : Nat
  portClass : PortClass
  pins : List (Option PinId)

@[ext] structure PinRecord where
  port : PortId
  bit : Nat
  net : Option NetId
  role : PinRole

@[ext] structure NetRecord where
  name : StringId
  pins : List (Option PinId)

/-- For each kind the records of the live entities, by handle. -/
@[ext] structure Store where
  blocks : BlockId → Option BlockRecord
  ports : PortId → Option PortRecord
  pins : PinId → Option PinRecord
  nets : NetId → Option NetRecord

namespace Column

variable {α : Type} {col : Column α} {i : Nat}

theorem exists_getElem? (h : i < col.size) : ∃ a, col[i]? = some a :=
  ⟨_, Array.getElem?_eq_getElem h⟩

theorem write_of_getElem? {a : α} (h : col[i]? = some a) (b : α) :
    col.write i b = .ok (col.setIfInBounds i b) :=
  write_of_lt b (Array.getElem?_eq_some_iff.1 h).1

theorem alter_of_getElem? {a : α} (h : col[i]? = some a) (f : α → α) :
    col.alter i f = .ok (col.setIfInBounds i (f a)) :=
  alter_eq_ok_iff.2 ⟨a, h, rfl⟩

end Column

/-! ## Slots -/

namespace Slots

variable {k : Kind}

/-- Every handle stands at its own position. -/
def Placed (s : Slots k) : Prop := ∀ (i : Nat) (h : Handle k), s[i]? = some (some h) → h.index = i

theorem not_isLive_size (s : Slots k) : ¬s.IsLive ⟨s.size⟩ := by
  simp [IsLive]

theorem isLive_push {s : Slots k} {h : Handle k} :
    IsLive (s.push (some ⟨s.size⟩)) h ↔ h = ⟨s.size⟩ ∨ s.IsLive h := by
  obtain ⟨i⟩ := h
  simp only [IsLive, Array.getElem?_push, Handle.mk.injEq]
  by_cases hi : i = s.size
  · simp [hi]
  · simp [hi]

theorem isLive_setIfInBounds_none {s : Slots k} {g h : Handle k} :
    IsLive (s.setIfInBounds g.index none) h ↔ h ≠ g ∧ s.IsLive h := by
  obtain ⟨i⟩ := g
  obtain ⟨j⟩ := h
  simp only [IsLive, Array.getElem?_setIfInBounds, Handle.mk.injEq, ne_eq]
  by_cases hij : i = j
  · simp [hij]
  · simp [hij, Ne.symm hij]

theorem Placed.push {s : Slots k} (hs : s.Placed) : Placed (s.push (some ⟨s.size⟩)) := by
  intro i h hi
  rw [Array.getElem?_push] at hi
  split at hi
  · next hsize =>
    obtain rfl : Handle.mk s.size = h := by simpa using hi
    exact hsize.symm
  · exact hs i h hi

theorem Placed.setIfInBounds_none {s : Slots k} (hs : s.Placed) (g : Handle k) :
    Placed (s.setIfInBounds g.index none) := by
  intro i h hi
  rw [Array.getElem?_setIfInBounds] at hi
  split at hi
  · split at hi <;> simp at hi
  · exact hs i h hi

theorem mem_live_iff {s : Slots k} (hs : s.Placed) {h : Handle k} : h ∈ s.live ↔ s.IsLive h := by
  have hmem : h ∈ s.live ↔ some h ∈ s.toList := by simp [live]
  rw [hmem, List.mem_iff_getElem?]
  constructor
  · rintro ⟨i, hi⟩
    rw [Array.getElem?_toList] at hi
    have : h.index = i := hs i h hi
    rwa [IsLive, this]
  · intro h'
    exact ⟨h.index, by rwa [Array.getElem?_toList]⟩

end Slots

/-! ## Blocks -/

namespace Blocks

structure Sized (b : Blocks) : Prop where
  placed : b.slots.Placed
  names : b.names.size = b.slots.size
  models : b.models.size = b.slots.size
  tables : b.tables.size = b.slots.size
  listed : ∀ c, (b.listed c).size = b.slots.size

/-- The record of a live block. -/
def record? (b : Blocks) (h : BlockId) : Option BlockRecord :=
  if b.slots.IsLive h then do
    let name ← b.names[h.index]?
    let model ← b.models[h.index]?
    let table ← b.tables[h.index]?
    let inputs ← b.inputs[h.index]?
    let outputs ← b.outputs[h.index]?
    let clocks ← b.clocks[h.index]?
    return { name, model, table
             listed := fun
               | .input => inputs
               | .output => outputs
               | .clock => clocks }
  else none

theorem record?_eq_some_iff {b : Blocks} {h : BlockId} {r : BlockRecord} :
    b.record? h = some r ↔ b.slots.IsLive h ∧ b.names[h.index]? = some r.name ∧
      b.models[h.index]? = some r.model ∧ b.tables[h.index]? = some r.table ∧
      ∀ c, (b.listed c)[h.index]? = some (r.listed c) := by
  by_cases hl : b.slots.IsLive h
  · simp only [record?, hl, if_true, Option.bind_eq_bind, Option.bind_eq_some_iff, true_and]
    constructor
    · rintro ⟨name, hn, model, hm, table, ht, inputs, hi, outputs, ho, clocks, hc, ⟨⟩⟩
      refine ⟨hn, hm, ht, fun c => ?_⟩
      cases c <;> assumption
    · rintro ⟨hn, hm, ht, hc⟩
      refine ⟨_, hn, _, hm, _, ht, _, hc .input, _, hc .output, _, hc .clock, ?_⟩
      rw [Option.pure_def, Option.some_inj]
      refine BlockRecord.ext rfl rfl rfl ?_
      funext c
      cases c <;> rfl
  · simp [record?, hl]

theorem exists_record? {b : Blocks} (hb : b.Sized) {h : BlockId} (hl : b.slots.IsLive h) :
    ∃ r, b.record? h = some r := by
  have hi := hl.lt_size
  obtain ⟨name, hn⟩ := Column.exists_getElem? (hb.names ▸ hi)
  obtain ⟨model, hm⟩ := Column.exists_getElem? (hb.models ▸ hi)
  obtain ⟨table, ht⟩ := Column.exists_getElem? (hb.tables ▸ hi)
  choose listed hc using fun c => Column.exists_getElem? (hb.listed c ▸ hi)
  exact ⟨⟨name, model, table, listed⟩, record?_eq_some_iff.2 ⟨hl, hn, hm, ht, hc⟩⟩

theorem isLive_of_record? {b : Blocks} {h : BlockId} {r : BlockRecord} (hr : b.record? h = some r) :
    b.slots.IsLive h :=
  (record?_eq_some_iff.1 hr).1

theorem record?_eq_none_iff {b : Blocks} (hb : b.Sized) {h : BlockId} :
    b.record? h = none ↔ ¬b.slots.IsLive h := by
  constructor
  · intro hnone hl
    obtain ⟨r, hr⟩ := exists_record? hb hl
    simp [hnone] at hr
  · intro hl
    simp [record?, hl]

theorem record?_size (b : Blocks) : b.record? ⟨b.slots.size⟩ = none := by
  simp [record?, Slots.not_isLive_size]

theorem read_names {b : Blocks} {h : BlockId} {r : BlockRecord} (hr : b.record? h = some r) :
    b.names.read h.index = .ok r.name :=
  Column.read_of_getElem? (record?_eq_some_iff.1 hr).2.1

theorem read_models {b : Blocks} {h : BlockId} {r : BlockRecord} (hr : b.record? h = some r) :
    b.models.read h.index = .ok r.model :=
  Column.read_of_getElem? (record?_eq_some_iff.1 hr).2.2.1

theorem read_tables {b : Blocks} {h : BlockId} {r : BlockRecord} (hr : b.record? h = some r) :
    b.tables.read h.index = .ok r.table :=
  Column.read_of_getElem? (record?_eq_some_iff.1 hr).2.2.2.1

theorem read_listed {b : Blocks} {h : BlockId} {r : BlockRecord} (hr : b.record? h = some r)
    (c : PortClass) : (b.listed c).read h.index = .ok (r.listed c) :=
  Column.read_of_getElem? ((record?_eq_some_iff.1 hr).2.2.2.2 c)

theorem alter_listed {b : Blocks} {h : BlockId} {r : BlockRecord} (hr : b.record? h = some r)
    (c : PortClass) (f : List PortId → List PortId) : (b.listed c).alter h.index f =
      .ok ((b.listed c).setIfInBounds h.index (f (r.listed c))) :=
  Column.alter_of_getElem? ((record?_eq_some_iff.1 hr).2.2.2.2 c) f

@[simp] theorem listed_withSlots (b : Blocks) (s : Slots .block) (c : PortClass) :
    listed { b with slots := s } c = b.listed c := by
  cases c <;> rfl

@[simp] theorem names_setListed (b : Blocks) (l : Column (List PortId)) (c : PortClass) :
    (b.setListed l c).names = b.names := by
  cases c <;> rfl

@[simp] theorem models_setListed (b : Blocks) (l : Column (List PortId)) (c : PortClass) :
    (b.setListed l c).models = b.models := by
  cases c <;> rfl

@[simp] theorem tables_setListed (b : Blocks) (l : Column (List PortId)) (c : PortClass) :
    (b.setListed l c).tables = b.tables := by
  cases c <;> rfl

/-- The blocks with one more, which lists no ports. -/
@[simps] def push (b : Blocks) (name : StringId) (model : Model) (table : TruthTable) : Blocks where
  slots := b.slots.push (some ⟨b.slots.size⟩)
  names := b.names.push name
  models := b.models.push model
  tables := b.tables.push table
  inputs := b.inputs.push []
  outputs := b.outputs.push []
  clocks := b.clocks.push []

@[simp] theorem listed_push (b : Blocks) (name : StringId) (model : Model) (table : TruthTable)
    (c : PortClass) : (b.push name model table).listed c = (b.listed c).push [] := by
  cases c <;> rfl

theorem Sized.push {b : Blocks} (hb : b.Sized) (name : StringId) (model : Model)
    (table : TruthTable) : (b.push name model table).Sized where
  placed := hb.placed.push
  names := by simp [hb.names]
  models := by simp [hb.models]
  tables := by simp [hb.tables]
  listed c := by simp [hb.listed c]

theorem record?_push {b : Blocks} (hb : b.Sized) (name : StringId) (model : Model)
    (table : TruthTable) :
    (b.push name model table).record? =
      Function.update b.record? ⟨b.slots.size⟩ (some ⟨name, model, table, fun _ => []⟩) := by
  funext h
  ext r
  simp only [record?_eq_some_iff, push_slots, push_names, push_models, push_tables, listed_push,
    Slots.isLive_push, Array.getElem?_push, hb.names, hb.models, hb.tables, hb.listed]
  by_cases hh : h = ⟨b.slots.size⟩
  · subst hh
    simp [BlockRecord.ext_iff, funext_iff]
  · have hi : h.index ≠ b.slots.size := fun h' => hh (by rw [← h'])
    simp [hi, hh, record?_eq_some_iff]

theorem Sized.setListed {b : Blocks} (hb : b.Sized) (h : BlockId) (l : List PortId)
    (c : PortClass) : (b.setListed ((b.listed c).setIfInBounds h.index l) c).Sized where
  placed := by rw [slots_setListed]; exact hb.placed
  names := by cases c <;> exact hb.names
  models := by cases c <;> exact hb.models
  tables := by cases c <;> exact hb.tables
  listed d := by
    rw [slots_setListed]
    by_cases hd : c = d
    · subst hd
      simp [hb.listed c]
    · rw [listed_setListed_of_ne _ _ hd, hb.listed d]

/-- Writing the ports that a block lists under a class changes its record there. -/
theorem record?_setListed (b : Blocks) (h : BlockId) (l : List PortId) (c : PortClass) :
    (b.setListed ((b.listed c).setIfInBounds h.index l) c).record? =
      Function.update b.record? h
        ((b.record? h).map fun r => { r with listed := Function.update r.listed c l }) := by
  funext g
  by_cases hg : g = h
  · subst hg
    rw [Function.update_self]
    ext r
    rw [Option.map_eq_some_iff, record?_eq_some_iff]
    simp only [slots_setListed, names_setListed, models_setListed, tables_setListed]
    constructor
    · rintro ⟨hl, hn, hm, ht, hc⟩
      have hget := hc c
      rw [listed_setListed_self, Array.getElem?_setIfInBounds_self] at hget
      split at hget
      · next hi =>
        refine ⟨{ r with listed := Function.update r.listed c (b.listed c)[g.index] }, ?_, ?_⟩
        · refine record?_eq_some_iff.2 ⟨hl, hn, hm, ht, fun d => ?_⟩
          by_cases hd : d = c
          · subst hd
            simp [Array.getElem?_eq_getElem hi]
          · simpa [hd, listed_setListed_of_ne _ _ (Ne.symm hd)] using hc d
        · obtain rfl : l = r.listed c := by simpa using hget
          simp
      · simp at hget
    · rintro ⟨r', hr', rfl⟩
      obtain ⟨hl, hn, hm, ht, hc⟩ := record?_eq_some_iff.1 hr'
      refine ⟨hl, hn, hm, ht, fun d => ?_⟩
      by_cases hd : d = c
      · subst hd
        simp [(Array.getElem?_eq_some_iff.1 (hc d)).1]
      · simp [hd, listed_setListed_of_ne _ _ (Ne.symm hd), hc d]
  · rw [Function.update_of_ne hg]
    have hi : h.index ≠ g.index := fun h' => hg (by cases g; cases h; simp_all)
    ext r
    rw [record?_eq_some_iff, record?_eq_some_iff]
    simp only [slots_setListed, names_setListed, models_setListed, tables_setListed]
    have hget (d : PortClass) :
        ((b.setListed ((b.listed c).setIfInBounds h.index l) c).listed d)[g.index]? =
          (b.listed d)[g.index]? := by
      by_cases hd : c = d
      · subst hd
        rw [listed_setListed_self, Array.getElem?_setIfInBounds_ne hi]
      · rw [listed_setListed_of_ne _ _ hd]
    simp only [hget]

/-- Emptying the slot of a block takes its record away. -/
theorem record?_retire (b : Blocks) (h : BlockId) :
    record? { b with slots := b.slots.setIfInBounds h.index none } =
      Function.update b.record? h none := by
  funext g
  ext r
  rw [record?_eq_some_iff]
  by_cases hg : g = h
  · simp [hg, Slots.isLive_setIfInBounds_none]
  · simp [hg, Slots.isLive_setIfInBounds_none, record?_eq_some_iff]

theorem Sized.retire {b : Blocks} (hb : b.Sized) (h : BlockId) :
    Sized { b with slots := b.slots.setIfInBounds h.index none } where
  placed := hb.placed.setIfInBounds_none h
  names := by simp [hb.names]
  models := by simp [hb.models]
  tables := by simp [hb.tables]
  listed c := by simp [hb.listed c]

end Blocks

/-! ## Ports -/

namespace Ports

structure Sized (p : Ports) : Prop where
  placed : p.slots.Placed
  names : p.names.size = p.slots.size
  owners : p.owners.size = p.slots.size
  widths : p.widths.size = p.slots.size
  classes : p.classes.size = p.slots.size
  pins : p.pins.size = p.slots.size

/-- The record of a live port. -/
def record? (p : Ports) (h : PortId) : Option PortRecord :=
  if p.slots.IsLive h then do
    return { name := ← p.names[h.index]?
             owner := ← p.owners[h.index]?
             width := ← p.widths[h.index]?
             portClass := ← p.classes[h.index]?
             pins := ← p.pins[h.index]? }
  else none

theorem record?_eq_some_iff {p : Ports} {h : PortId} {r : PortRecord} :
    p.record? h = some r ↔ p.slots.IsLive h ∧ p.names[h.index]? = some r.name ∧
      p.owners[h.index]? = some r.owner ∧ p.widths[h.index]? = some r.width ∧
      p.classes[h.index]? = some r.portClass ∧ p.pins[h.index]? = some r.pins := by
  by_cases hl : p.slots.IsLive h
  · simp only [record?, hl, if_true, Option.bind_eq_bind, Option.bind_eq_some_iff, true_and]
    constructor
    · rintro ⟨name, hn, owner, ho, width, hw, cls, hc, pins, hp, ⟨⟩⟩
      exact ⟨hn, ho, hw, hc, hp⟩
    · rintro ⟨hn, ho, hw, hc, hp⟩
      exact ⟨_, hn, _, ho, _, hw, _, hc, _, hp, rfl⟩
  · simp [record?, hl]

theorem exists_record? {p : Ports} (hp : p.Sized) {h : PortId} (hl : p.slots.IsLive h) :
    ∃ r, p.record? h = some r := by
  have hi := hl.lt_size
  obtain ⟨name, hn⟩ := Column.exists_getElem? (hp.names ▸ hi)
  obtain ⟨owner, ho⟩ := Column.exists_getElem? (hp.owners ▸ hi)
  obtain ⟨width, hw⟩ := Column.exists_getElem? (hp.widths ▸ hi)
  obtain ⟨portClass, hc⟩ := Column.exists_getElem? (hp.classes ▸ hi)
  obtain ⟨pins, hr⟩ := Column.exists_getElem? (hp.pins ▸ hi)
  exact ⟨⟨name, owner, width, portClass, pins⟩,
    record?_eq_some_iff.2 ⟨hl, hn, ho, hw, hc, hr⟩⟩

theorem isLive_of_record? {p : Ports} {h : PortId} {r : PortRecord} (hr : p.record? h = some r) :
    p.slots.IsLive h :=
  (record?_eq_some_iff.1 hr).1

theorem record?_eq_none_iff {p : Ports} (hp : p.Sized) {h : PortId} :
    p.record? h = none ↔ ¬p.slots.IsLive h := by
  constructor
  · intro hnone hl
    obtain ⟨r, hr⟩ := exists_record? hp hl
    simp [hnone] at hr
  · intro hl
    simp [record?, hl]

theorem record?_size (p : Ports) : p.record? ⟨p.slots.size⟩ = none := by
  simp [record?, Slots.not_isLive_size]

theorem read_names {p : Ports} {h : PortId} {r : PortRecord} (hr : p.record? h = some r) :
    p.names.read h.index = .ok r.name :=
  Column.read_of_getElem? (record?_eq_some_iff.1 hr).2.1

theorem read_owners {p : Ports} {h : PortId} {r : PortRecord} (hr : p.record? h = some r) :
    p.owners.read h.index = .ok r.owner :=
  Column.read_of_getElem? (record?_eq_some_iff.1 hr).2.2.1

theorem read_widths {p : Ports} {h : PortId} {r : PortRecord} (hr : p.record? h = some r) :
    p.widths.read h.index = .ok r.width :=
  Column.read_of_getElem? (record?_eq_some_iff.1 hr).2.2.2.1

theorem read_classes {p : Ports} {h : PortId} {r : PortRecord} (hr : p.record? h = some r) :
    p.classes.read h.index = .ok r.portClass :=
  Column.read_of_getElem? (record?_eq_some_iff.1 hr).2.2.2.2.1

theorem read_pins {p : Ports} {h : PortId} {r : PortRecord} (hr : p.record? h = some r) :
    p.pins.read h.index = .ok r.pins :=
  Column.read_of_getElem? (record?_eq_some_iff.1 hr).2.2.2.2.2

/-- The ports with one more. -/
@[simps] def push (p : Ports) (r : PortRecord) : Ports where
  slots := p.slots.push (some ⟨p.slots.size⟩)
  names := p.names.push r.name
  owners := p.owners.push r.owner
  widths := p.widths.push r.width
  classes := p.classes.push r.portClass
  pins := p.pins.push r.pins

theorem Sized.push {p : Ports} (hp : p.Sized) (r : PortRecord) : (p.push r).Sized where
  placed := hp.placed.push
  names := by simp [hp.names]
  owners := by simp [hp.owners]
  widths := by simp [hp.widths]
  classes := by simp [hp.classes]
  pins := by simp [hp.pins]

theorem record?_push {p : Ports} (hp : p.Sized) (r : PortRecord) :
    (p.push r).record? = Function.update p.record? ⟨p.slots.size⟩ (some r) := by
  funext h
  ext r'
  simp only [record?_eq_some_iff, push_slots, push_names, push_owners, push_widths, push_classes,
    push_pins, Slots.isLive_push, Array.getElem?_push, hp.names, hp.owners, hp.widths, hp.classes,
    hp.pins]
  by_cases hh : h = ⟨p.slots.size⟩
  · subst hh
    simp [PortRecord.ext_iff]
  · have hi : h.index ≠ p.slots.size := fun h' => hh (by rw [← h'])
    simp [hi, hh, record?_eq_some_iff]

/-- Writing the pins of a port changes its record there. -/
theorem record?_setPins (p : Ports) (h : PortId) (row : List (Option PinId)) :
    record? { p with pins := p.pins.setIfInBounds h.index row } =
      Function.update p.record? h ((p.record? h).map ({ · with pins := row })) := by
  funext g
  ext r
  by_cases hg : g = h
  · subst hg
    rw [Function.update_self, Option.map_eq_some_iff, record?_eq_some_iff]
    simp only [Array.getElem?_setIfInBounds_self]
    constructor
    · rintro ⟨hl, hn, ho, hw, hc, hr⟩
      split at hr
      · next hi =>
        refine ⟨{ r with pins := p.pins[g.index] }, ?_, ?_⟩
        · exact record?_eq_some_iff.2 ⟨hl, hn, ho, hw, hc, Array.getElem?_eq_getElem hi⟩
        · simp_all
      · simp at hr
    · rintro ⟨r', hr', rfl⟩
      obtain ⟨hl, hn, ho, hw, hc, hr⟩ := record?_eq_some_iff.1 hr'
      exact ⟨hl, hn, ho, hw, hc, if_pos (Array.getElem?_eq_some_iff.1 hr).1⟩
  · have hi : h.index ≠ g.index := fun h' => hg (by cases g; cases h; simp_all)
    simp [hg, hi, record?_eq_some_iff]

theorem Sized.setPins {p : Ports} (hp : p.Sized) (h : PortId) (row : List (Option PinId)) :
    Sized { p with pins := p.pins.setIfInBounds h.index row } :=
  { hp with pins := by simp [hp.pins] }

/-- Emptying the slot of a port takes its record away. -/
theorem record?_retire (p : Ports) (h : PortId) :
    record? { p with slots := p.slots.setIfInBounds h.index none } =
      Function.update p.record? h none := by
  funext g
  ext r
  rw [record?_eq_some_iff]
  by_cases hg : g = h
  · simp [hg, Slots.isLive_setIfInBounds_none]
  · simp [hg, Slots.isLive_setIfInBounds_none, record?_eq_some_iff]

theorem Sized.retire {p : Ports} (hp : p.Sized) (h : PortId) :
    Sized { p with slots := p.slots.setIfInBounds h.index none } where
  placed := hp.placed.setIfInBounds_none h
  names := by simp [hp.names]
  owners := by simp [hp.owners]
  widths := by simp [hp.widths]
  classes := by simp [hp.classes]
  pins := by simp [hp.pins]

end Ports

/-! ## Pins -/

namespace Pins

structure Sized (p : Pins) : Prop where
  placed : p.slots.Placed
  ports : p.ports.size = p.slots.size
  bits : p.bits.size = p.slots.size
  nets : p.nets.size = p.slots.size
  roles : p.roles.size = p.slots.size

/-- The record of a live pin. -/
def record? (p : Pins) (h : PinId) : Option PinRecord :=
  if p.slots.IsLive h then do
    return { port := ← p.ports[h.index]?
             bit := ← p.bits[h.index]?
             net := ← p.nets[h.index]?
             role := ← p.roles[h.index]? }
  else none

theorem record?_eq_some_iff {p : Pins} {h : PinId} {r : PinRecord} :
    p.record? h = some r ↔ p.slots.IsLive h ∧ p.ports[h.index]? = some r.port ∧
      p.bits[h.index]? = some r.bit ∧ p.nets[h.index]? = some r.net ∧
      p.roles[h.index]? = some r.role := by
  by_cases hl : p.slots.IsLive h
  · simp only [record?, hl, if_true, Option.bind_eq_bind, Option.bind_eq_some_iff, true_and]
    constructor
    · rintro ⟨port, hp, bit, hb, net, hn, role, hr, ⟨⟩⟩
      exact ⟨hp, hb, hn, hr⟩
    · rintro ⟨hp, hb, hn, hr⟩
      exact ⟨_, hp, _, hb, _, hn, _, hr, rfl⟩
  · simp [record?, hl]

theorem exists_record? {p : Pins} (hp : p.Sized) {h : PinId} (hl : p.slots.IsLive h) :
    ∃ r, p.record? h = some r := by
  have hi := hl.lt_size
  obtain ⟨port, ho⟩ := Column.exists_getElem? (hp.ports ▸ hi)
  obtain ⟨bit, hb⟩ := Column.exists_getElem? (hp.bits ▸ hi)
  obtain ⟨net, hn⟩ := Column.exists_getElem? (hp.nets ▸ hi)
  obtain ⟨role, hr⟩ := Column.exists_getElem? (hp.roles ▸ hi)
  exact ⟨⟨port, bit, net, role⟩, record?_eq_some_iff.2 ⟨hl, ho, hb, hn, hr⟩⟩

theorem isLive_of_record? {p : Pins} {h : PinId} {r : PinRecord} (hr : p.record? h = some r) :
    p.slots.IsLive h :=
  (record?_eq_some_iff.1 hr).1

theorem record?_eq_none_iff {p : Pins} (hp : p.Sized) {h : PinId} :
    p.record? h = none ↔ ¬p.slots.IsLive h := by
  constructor
  · intro hnone hl
    obtain ⟨r, hr⟩ := exists_record? hp hl
    simp [hnone] at hr
  · intro hl
    simp [record?, hl]

theorem record?_size (p : Pins) : p.record? ⟨p.slots.size⟩ = none := by
  simp [record?, Slots.not_isLive_size]

theorem read_ports {p : Pins} {h : PinId} {r : PinRecord} (hr : p.record? h = some r) :
    p.ports.read h.index = .ok r.port :=
  Column.read_of_getElem? (record?_eq_some_iff.1 hr).2.1

theorem read_bits {p : Pins} {h : PinId} {r : PinRecord} (hr : p.record? h = some r) :
    p.bits.read h.index = .ok r.bit :=
  Column.read_of_getElem? (record?_eq_some_iff.1 hr).2.2.1

theorem read_nets {p : Pins} {h : PinId} {r : PinRecord} (hr : p.record? h = some r) :
    p.nets.read h.index = .ok r.net :=
  Column.read_of_getElem? (record?_eq_some_iff.1 hr).2.2.2.1

theorem read_roles {p : Pins} {h : PinId} {r : PinRecord} (hr : p.record? h = some r) :
    p.roles.read h.index = .ok r.role :=
  Column.read_of_getElem? (record?_eq_some_iff.1 hr).2.2.2.2

/-- The pins with one more. -/
@[simps] def push (p : Pins) (r : PinRecord) : Pins where
  slots := p.slots.push (some ⟨p.slots.size⟩)
  ports := p.ports.push r.port
  bits := p.bits.push r.bit
  nets := p.nets.push r.net
  roles := p.roles.push r.role

theorem Sized.push {p : Pins} (hp : p.Sized) (r : PinRecord) : (p.push r).Sized where
  placed := hp.placed.push
  ports := by simp [hp.ports]
  bits := by simp [hp.bits]
  nets := by simp [hp.nets]
  roles := by simp [hp.roles]

theorem record?_push {p : Pins} (hp : p.Sized) (r : PinRecord) :
    (p.push r).record? = Function.update p.record? ⟨p.slots.size⟩ (some r) := by
  funext h
  ext r'
  simp only [record?_eq_some_iff, push_slots, push_ports, push_bits, push_nets, push_roles,
    Slots.isLive_push, Array.getElem?_push, hp.ports, hp.bits, hp.nets, hp.roles]
  by_cases hh : h = ⟨p.slots.size⟩
  · subst hh
    simp [PinRecord.ext_iff]
  · have hi : h.index ≠ p.slots.size := fun h' => hh (by rw [← h'])
    simp [hi, hh, record?_eq_some_iff]

/-- Rewriting the column of nets entry by entry rewrites the nets of the records. -/
theorem record?_withNets {p : Pins} {nets : Column (Option NetId)} {h : PinId}
    {f : Option NetId → Option NetId} (hf : nets[h.index]? = (p.nets[h.index]?).map f) :
    record? { p with nets } h = (p.record? h).map fun r => { r with net := f r.net } := by
  ext r
  rw [Option.map_eq_some_iff, record?_eq_some_iff]
  simp only [hf, Option.map_eq_some_iff]
  constructor
  · rintro ⟨hl, hp, hb, ⟨net, hn, hr⟩, hrole⟩
    exact ⟨{ r with net }, record?_eq_some_iff.2 ⟨hl, hp, hb, hn, hrole⟩,
      PinRecord.ext rfl rfl hr rfl⟩
  · rintro ⟨r', hr', rfl⟩
    obtain ⟨hl, hp, hb, hn, hrole⟩ := record?_eq_some_iff.1 hr'
    exact ⟨hl, hp, hb, ⟨_, hn, rfl⟩, hrole⟩

/-- Writing the net of a pin changes its record there. -/
theorem record?_setNet (p : Pins) (h : PinId) (net : Option NetId) :
    record? { p with nets := p.nets.setIfInBounds h.index net } =
      Function.update p.record? h ((p.record? h).map ({ · with net })) := by
  funext g
  by_cases hg : g = h
  · subst hg
    rw [Function.update_self]
    refine record?_withNets (f := fun _ => net) ?_
    by_cases hi : g.index < p.nets.size <;> simp [hi]
  · have hi : h.index ≠ g.index := fun h' => hg (by cases g; cases h; simp_all)
    ext r
    simp [hg, hi, record?_eq_some_iff]

theorem Sized.withNets {p : Pins} (hp : p.Sized) {nets : Column (Option NetId)}
    (hn : nets.size = p.nets.size) : Sized { p with nets } :=
  { hp with nets := hn.trans hp.nets }

/-- Emptying the slot of a pin takes its record away. -/
theorem record?_retire (p : Pins) (h : PinId) :
    record? { p with slots := p.slots.setIfInBounds h.index none } =
      Function.update p.record? h none := by
  funext g
  ext r
  rw [record?_eq_some_iff]
  by_cases hg : g = h
  · simp [hg, Slots.isLive_setIfInBounds_none]
  · simp [hg, Slots.isLive_setIfInBounds_none, record?_eq_some_iff]

theorem Sized.retire {p : Pins} (hp : p.Sized) (h : PinId) :
    Sized { p with slots := p.slots.setIfInBounds h.index none } where
  placed := hp.placed.setIfInBounds_none h
  ports := by simp [hp.ports]
  bits := by simp [hp.bits]
  nets := by simp [hp.nets]
  roles := by simp [hp.roles]

end Pins

/-! ## Nets -/

namespace Nets

structure Sized (n : Nets) : Prop where
  placed : n.slots.Placed
  names : n.names.size = n.slots.size
  pins : n.pins.size = n.slots.size

/-- The record of a live net. -/
def record? (n : Nets) (h : NetId) : Option NetRecord :=
  if n.slots.IsLive h then do
    return { name := ← n.names[h.index]?, pins := ← n.pins[h.index]? }
  else none

theorem record?_eq_some_iff {n : Nets} {h : NetId} {r : NetRecord} :
    n.record? h = some r ↔ n.slots.IsLive h ∧ n.names[h.index]? = some r.name ∧
      n.pins[h.index]? = some r.pins := by
  by_cases hl : n.slots.IsLive h
  · simp only [record?, hl, if_true, Option.bind_eq_bind, Option.bind_eq_some_iff, true_and]
    constructor
    · rintro ⟨name, hn, pins, hp, ⟨⟩⟩
      exact ⟨hn, hp⟩
    · rintro ⟨hn, hp⟩
      exact ⟨_, hn, _, hp, rfl⟩
  · simp [record?, hl]

theorem exists_record? {n : Nets} (hn : n.Sized) {h : NetId} (hl : n.slots.IsLive h) :
    ∃ r, n.record? h = some r := by
  have hi := hl.lt_size
  obtain ⟨name, hname⟩ := Column.exists_getElem? (hn.names ▸ hi)
  obtain ⟨pins, hp⟩ := Column.exists_getElem? (hn.pins ▸ hi)
  exact ⟨⟨name, pins⟩, record?_eq_some_iff.2 ⟨hl, hname, hp⟩⟩

theorem isLive_of_record? {n : Nets} {h : NetId} {r : NetRecord} (hr : n.record? h = some r) :
    n.slots.IsLive h :=
  (record?_eq_some_iff.1 hr).1

theorem record?_eq_none_iff {n : Nets} (hn : n.Sized) {h : NetId} :
    n.record? h = none ↔ ¬n.slots.IsLive h := by
  constructor
  · intro hnone hl
    obtain ⟨r, hr⟩ := exists_record? hn hl
    simp [hnone] at hr
  · intro hl
    simp [record?, hl]

theorem record?_size (n : Nets) : n.record? ⟨n.slots.size⟩ = none := by
  simp [record?, Slots.not_isLive_size]

theorem read_names {n : Nets} {h : NetId} {r : NetRecord} (hr : n.record? h = some r) :
    n.names.read h.index = .ok r.name :=
  Column.read_of_getElem? (record?_eq_some_iff.1 hr).2.1

theorem read_pins {n : Nets} {h : NetId} {r : NetRecord} (hr : n.record? h = some r) :
    n.pins.read h.index = .ok r.pins :=
  Column.read_of_getElem? (record?_eq_some_iff.1 hr).2.2

/-- The nets with one more. -/
@[simps] def push (n : Nets) (r : NetRecord) : Nets where
  slots := n.slots.push (some ⟨n.slots.size⟩)
  names := n.names.push r.name
  pins := n.pins.push r.pins

theorem Sized.push {n : Nets} (hn : n.Sized) (r : NetRecord) : (n.push r).Sized where
  placed := hn.placed.push
  names := by simp [hn.names]
  pins := by simp [hn.pins]

theorem record?_push {n : Nets} (hn : n.Sized) (r : NetRecord) :
    (n.push r).record? = Function.update n.record? ⟨n.slots.size⟩ (some r) := by
  funext h
  ext r'
  simp only [record?_eq_some_iff, push_slots, push_names, push_pins, Slots.isLive_push,
    Array.getElem?_push, hn.names, hn.pins]
  by_cases hh : h = ⟨n.slots.size⟩
  · subst hh
    simp [NetRecord.ext_iff]
  · have hi : h.index ≠ n.slots.size := fun h' => hh (by rw [← h'])
    simp [hi, hh, record?_eq_some_iff]

/-- Writing the slots of a net changes its record there. -/
theorem record?_setPins (n : Nets) (h : NetId) (slots : List (Option PinId)) :
    record? { n with pins := n.pins.setIfInBounds h.index slots } =
      Function.update n.record? h ((n.record? h).map ({ · with pins := slots })) := by
  funext g
  ext r
  by_cases hg : g = h
  · subst hg
    rw [Function.update_self, Option.map_eq_some_iff, record?_eq_some_iff]
    simp only [Array.getElem?_setIfInBounds_self]
    constructor
    · rintro ⟨hl, hn, hr⟩
      split at hr
      · next hi =>
        refine ⟨{ r with pins := n.pins[g.index] }, ?_, ?_⟩
        · exact record?_eq_some_iff.2 ⟨hl, hn, Array.getElem?_eq_getElem hi⟩
        · simp_all
      · simp at hr
    · rintro ⟨r', hr', rfl⟩
      obtain ⟨hl, hn, hr⟩ := record?_eq_some_iff.1 hr'
      exact ⟨hl, hn, if_pos (Array.getElem?_eq_some_iff.1 hr).1⟩
  · have hi : h.index ≠ g.index := fun h' => hg (by cases g; cases h; simp_all)
    simp [hg, hi, record?_eq_some_iff]

theorem Sized.setPins {n : Nets} (hn : n.Sized) (h : NetId) (slots : List (Option PinId)) :
    Sized { n with pins := n.pins.setIfInBounds h.index slots } :=
  { hn with pins := by simp [hn.pins] }

/-- Emptying the slot of a net takes its record away. -/
theorem record?_retire (n : Nets) (h : NetId) :
    record? { n with slots := n.slots.setIfInBounds h.index none } =
      Function.update n.record? h none := by
  funext g
  ext r
  rw [record?_eq_some_iff]
  by_cases hg : g = h
  · simp [hg, Slots.isLive_setIfInBounds_none]
  · simp [hg, Slots.isLive_setIfInBounds_none, record?_eq_some_iff]

theorem Sized.retire {n : Nets} (hn : n.Sized) (h : NetId) :
    Sized { n with slots := n.slots.setIfInBounds h.index none } where
  placed := hn.placed.setIfInBounds_none h
  names := by simp [hn.names]
  pins := by simp [hn.pins]

end Nets

namespace Netlist

/-- What a netlist says about its live entities. -/
def store (n : Netlist) : Store where
  blocks := n.blocks.record?
  ports := n.ports.record?
  pins := n.pins.record?
  nets := n.nets.record?

theorem store_blocks (n : Netlist) : n.store.blocks = n.blocks.record? := rfl

theorem store_ports (n : Netlist) : n.store.ports = n.ports.record? := rfl

theorem store_pins (n : Netlist) : n.store.pins = n.pins.record? := rfl

theorem store_nets (n : Netlist) : n.store.nets = n.nets.record? := rfl

/-- The columns of each kind have one length, and handles stand at their own positions. -/
structure Sized (n : Netlist) : Prop where
  blocks : n.blocks.Sized
  ports : n.ports.Sized
  pins : n.pins.Sized
  nets : n.nets.Sized

variable {n : Netlist}

theorem Sized.placed (hn : n.Sized) (k : Kind) : (n.slots k).Placed := by
  cases k
  · exact hn.blocks.placed
  · exact hn.ports.placed
  · exact hn.pins.placed
  · exact hn.nets.placed

/-- A block is live exactly if it has a record, and likewise for the other kinds. -/
theorem Sized.isLive_block_iff (hn : n.Sized) {b : BlockId} :
    n.IsLive b ↔ ∃ r, n.store.blocks b = some r :=
  ⟨Blocks.exists_record? hn.blocks, fun ⟨_, hr⟩ => Blocks.isLive_of_record? hr⟩

theorem Sized.isLive_port_iff (hn : n.Sized) {p : PortId} :
    n.IsLive p ↔ ∃ r, n.store.ports p = some r :=
  ⟨Ports.exists_record? hn.ports, fun ⟨_, hr⟩ => Ports.isLive_of_record? hr⟩

theorem Sized.isLive_pin_iff (hn : n.Sized) {i : PinId} :
    n.IsLive i ↔ ∃ r, n.store.pins i = some r :=
  ⟨Pins.exists_record? hn.pins, fun ⟨_, hr⟩ => Pins.isLive_of_record? hr⟩

theorem Sized.isLive_net_iff (hn : n.Sized) {e : NetId} :
    n.IsLive e ↔ ∃ r, n.store.nets e = some r :=
  ⟨Nets.exists_record? hn.nets, fun ⟨_, hr⟩ => Nets.isLive_of_record? hr⟩

end Netlist

end MappedNetlist
