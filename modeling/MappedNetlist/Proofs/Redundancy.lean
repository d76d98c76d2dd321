import MappedNetlist.Netlist.Damage
import MappedNetlist.Proofs.Frame

/-!
# Every fact is kept twice

Verification can find damage because what it relies on is kept in two places: the key of an entity
in the index and in the entity, a width in the length of a row, a class in the list of the owner, a
pin in the row of its port, and a net in the slots of the net. So two consistent netlists that agree
in the one place agree in the other. `AgreesBut.getElem?_eq` says it of columns: consistent netlists
that differ in one column at most have the same entries in it, wherever an entry tells of a live
entity.
-/

namespace MappedNetlist

/-- Two answers are the same if what they give is. -/
theorem eq_of_eq_some {α : Type} {x y : Option α} {a b : α} (hx : x = some a) (hy : y = some b)
    (h : a = b) : x = y := by
  rw [hx, hy, h]

namespace Attribute

/-- The kind of the entities that a column tells of. -/
def kind : Attribute → Kind
  | blockSlot | blockName | blockModel | blockTable | blockPorts _ => .block
  | portSlot | portName | portOwner | portWidth | portClass | portPins => .port
  | pinSlot | pinPort | pinBit | pinNet | pinRole => .pin
  | netSlot | netName | netPins => .net

/-- The slots of a kind. -/
def slot : Kind → Attribute
  | .block => blockSlot
  | .port => portSlot
  | .pin => pinSlot
  | .net => netSlot

@[simp] theorem kind_slot (k : Kind) : (slot k).kind = k := by cases k <;> rfl

/-- No column is the only one of its kind. -/
theorem exists_ne_kind_eq (a : Attribute) : ∃ b, b ≠ a ∧ b.kind = a.kind := by
  by_cases ha : a = slot a.kind
  · cases a with
    | blockSlot => exact ⟨blockName, nofun, rfl⟩
    | portSlot => exact ⟨portName, nofun, rfl⟩
    | pinSlot => exact ⟨pinPort, nofun, rfl⟩
    | netSlot => exact ⟨netName, nofun, rfl⟩
    | _ => cases ha
  · exact ⟨slot a.kind, Ne.symm ha, kind_slot _⟩

/-- Whether there is another copy of the entry of a column at a position. For a slot there always
is, and for most of what tells of a live entity, but for the role of a pin only if the pin is on a
net. -/
def Guarded (n : Netlist) (i : Nat) : Attribute → Prop
  | blockSlot | portSlot | pinSlot | netSlot => True
  | blockName => n.IsLive (⟨i⟩ : BlockId)
  | portName | portOwner | portWidth | portClass => n.IsLive (⟨i⟩ : PortId)
  | pinPort | pinBit | pinNet => n.IsLive (⟨i⟩ : PinId)
  | pinRole => ∃ e, n.pinNet ⟨i⟩ = .ok (some e)
  | netName => n.IsLive (⟨i⟩ : NetId)
  | blockModel | blockTable | blockPorts _ | portPins | netPins => False

end Attribute

namespace Netlist

variable {n m : Netlist}

/-! ## Copies of a fact -/

namespace Consistent

section Index

variable {k : Kind} (hn : n.Consistent) (hm : m.Consistent) (hx : m.index = n.index)
include hn hm hx

theorem map_keyOf_eq (a : Handle k) :
    (m.store.record? a).map k.keyOf = (n.store.record? a).map k.keyOf := by
  refine Option.ext fun key => ?_
  rw [← hm.indexed.find?_eq_some_iff, ← hn.indexed.find?_eq_some_iff, hx]

/-- A live entity has the same key in both. -/
theorem exists_records {a : Handle k} (ha : n.IsLive a) : ∃ q r, n.store.record? a = some q ∧
    m.store.record? a = some r ∧ k.keyOf r = k.keyOf q := by
  obtain ⟨q, hq⟩ := hn.sized.isLive_iff.1 ha
  have hkey := map_keyOf_eq hn hm hx a
  rw [hq, Option.map_some] at hkey
  obtain ⟨r, hr, heq⟩ := Option.map_eq_some_iff.1 hkey
  exact ⟨q, r, hq, hr, heq⟩

theorem slots_eq (hsize : (m.slots k).size = (n.slots k).size) : m.slots k = n.slots k := by
  refine Slots.Placed.ext (hm.sized.placed k) (hn.sized.placed k) hsize fun a => ?_
  have hlive : m.IsLive a ↔ n.IsLive a := by
    rw [hm.sized.isLive_iff, hn.sized.isLive_iff, ← Option.isSome_iff_exists,
      ← Option.isSome_iff_exists, ← Option.isSome_map (f := k.keyOf), map_keyOf_eq hn hm hx,
      Option.isSome_map]
  exact hlive

end Index

section Copies

variable (hn : n.Consistent) (hm : m.Consistent)
include hn hm

/-- The length of a row is the width. -/
theorem width_eq {p : PortId} {q r : PortRecord} (hrows : m.ports.pins = n.ports.pins)
    (hq : n.store.ports p = some q) (hr : m.store.ports p = some r) : r.width = q.width := by
  obtain ⟨-, -, -, -, -, hrow⟩ := Ports.record?_eq_some_iff.1 hq
  obtain ⟨-, -, -, -, -, hrow'⟩ := Ports.record?_eq_some_iff.1 hr
  rw [hrows, hrow, Option.some.injEq] at hrow'
  rw [← hm.coherent.width hr, ← hn.coherent.width hq, hrow']

/-- The owner lists a port under its class. -/
theorem portClass_eq {p : PortId} {q r : PortRecord} (hblocks : m.blocks = n.blocks)
    (hq : n.store.ports p = some q) (hr : m.store.ports p = some r) :
    r.portClass = q.portClass := by
  obtain ⟨b, hb, hlisted⟩ := hm.coherent.owned hr
  rw [store_blocks, hblocks] at hb
  exact ((hn.coherent.listed hb hlisted).2 q hq).2.symm

/-- A net holds a pin in a slot for its role. -/
theorem net_eq_of_net_eq {i : PinId} {q r : PinRecord} {e : NetId} (hnets : m.nets = n.nets)
    (hq : n.store.pins i = some q) (hr : m.store.pins i = some r) (he : r.net = some e) :
    q.net = some e ∧ q.role = r.role := by
  obtain ⟨t, ht, slot, hslot, hrole⟩ := hm.coherent.connected hr he
  rw [store_nets, hnets] at ht
  obtain ⟨q', hq', hnet, hrole'⟩ := hn.coherent.attached ht hslot
  obtain rfl : q = q' := Option.some.inj (hq.symm.trans hq')
  exact ⟨hnet, hrole'.trans hrole⟩

/-- A pin in the row of a port tells where it stands. -/
theorem getElem?_row {p : PortId} {q r : PortRecord} {bit : Nat} {i : PinId}
    (hpins : m.pins = n.pins) (hq : n.store.ports p = some q) (hr : m.store.ports p = some r)
    (hi : r.pins[bit]? = some (some i)) : q.pins[bit]? = some (some i) := by
  obtain ⟨s, hs, rfl, rfl⟩ := hm.coherent.filled hr hi
  rw [store_pins, hpins] at hs
  obtain ⟨q', hq', -, hslot⟩ := hn.coherent.placed hs
  obtain rfl : q = q' := Option.some.inj (hq.symm.trans hq')
  exact hslot

/-- What stands at a bit of a port is known from the pins. -/
theorem bit_eq {p : PortId} {q r : PortRecord} {bit : Nat} {old new : Option PinId}
    (hpins : m.pins = n.pins) (hq : n.store.ports p = some q) (hr : m.store.ports p = some r)
    (hold : q.pins[bit]? = some old) (hnew : r.pins[bit]? = some new) : new = old := by
  refine Option.ext fun i => ⟨?_, ?_⟩
  · rintro rfl
    exact Option.some.inj (hold.symm.trans (hn.getElem?_row hm hpins hq hr hnew))
  · rintro rfl
    exact Option.some.inj (hnew.symm.trans (hm.getElem?_row hn hpins.symm hr hq hold))

/-- A pin in a slot of a net is in no other slot, so it stays in the slot if the others stay as they
are. -/
theorem getElem?_slot {e : NetId} {t u : NetRecord} {slot : Nat} {i : PinId}
    (hpins : m.pins = n.pins) (ht : n.store.nets e = some t) (hu : m.store.nets e = some u)
    (hrest : ∀ j, j ≠ slot → u.pins[j]? = t.pins[j]?) (hi : t.pins[slot]? = some (some i)) :
    u.pins[slot]? = some (some i) := by
  obtain ⟨q, hq, hnet, -⟩ := hn.coherent.attached ht hi
  rw [store_pins, ← hpins] at hq
  obtain ⟨u', hu', j, hj, -⟩ := hm.coherent.connected hq hnet
  obtain rfl : u = u' := Option.some.inj (hu.symm.trans hu')
  by_cases heq : j = slot
  · exact heq ▸ hj
  · -- the slot that has the pin in `m` has it in `n`, too
    rw [hrest j heq] at hj
    exact absurd (hn.coherent.once ht hj hi) heq

/-- What stands in one slot of a net is known from the pins and the other slots. -/
theorem slot_eq {e : NetId} {t u : NetRecord} {slot : Nat} {old new : Option PinId}
    (hpins : m.pins = n.pins) (ht : n.store.nets e = some t) (hu : m.store.nets e = some u)
    (hrest : ∀ j, j ≠ slot → u.pins[j]? = t.pins[j]?) (hold : t.pins[slot]? = some old)
    (hnew : u.pins[slot]? = some new) : new = old := by
  refine Option.ext fun i => ⟨?_, ?_⟩
  · rintro rfl
    have hi := hm.getElem?_slot hn hpins.symm hu ht (fun j hj => (hrest j hj).symm) hnew
    exact Option.some.inj (hold.symm.trans hi)
  · rintro rfl
    exact Option.some.inj (hnew.symm.trans (hn.getElem?_slot hm hpins ht hu hrest hold))

end Copies

end Consistent

/-! ## Columns -/

theorem Sized.size_column (hn : n.Sized) (a : Attribute) :
    (n.column a).size = (n.slots a.kind).size := by
  cases a with
  | blockSlot => rfl
  | blockName => exact hn.blocks.names
  | blockModel => exact hn.blocks.models
  | blockTable => exact hn.blocks.tables
  | blockPorts c => exact hn.blocks.listed c
  | portSlot => rfl
  | portName => exact hn.ports.names
  | portOwner => exact hn.ports.owners
  | portWidth => exact hn.ports.widths
  | portClass => exact hn.ports.classes
  | portPins => exact hn.ports.pins
  | pinSlot => rfl
  | pinPort => exact hn.pins.ports
  | pinBit => exact hn.pins.bits
  | pinNet => exact hn.pins.nets
  | pinRole => exact hn.pins.roles
  | netSlot => rfl
  | netName => exact hn.nets.names
  | netPins => exact hn.nets.pins

/-- `m` has the index of `n` and all its columns, except perhaps one. -/
structure AgreesBut (n m : Netlist) (a : Attribute) : Prop where
  index : m.index = n.index
  column {b : Attribute} : b ≠ a → m.column b = n.column b

theorem agreesBut_setColumn (n : Netlist) (a : Attribute) (col : Column a.Entry) :
    n.AgreesBut (n.setColumn a col) a where
  index := by cases a <;> rfl
  column {b} hb := by
    cases a with
    | blockPorts c =>
      cases b with
      | blockPorts d =>
        refine Blocks.listed_setListed_of_ne n.blocks col fun heq => hb ?_
        rw [heq]
      | _ => cases c <;> rfl
    | _ =>
      cases b with
      | blockPorts d => cases d <;> rfl
      | _ => first
        | rfl
        | exact absurd rfl hb

namespace AgreesBut

variable {a : Attribute} (h : n.AgreesBut m a)
include h

theorem blocks_eq (ha : a.kind ≠ .block) : m.blocks = n.blocks := by
  have hcol (b : Attribute) (hb : b.kind = .block) : m.column b = n.column b :=
    h.column fun heq => ha (heq ▸ hb)
  exact Blocks.ext (hcol .blockSlot rfl) (hcol .blockName rfl) (hcol .blockModel rfl)
    (hcol .blockTable rfl) (hcol (.blockPorts .input) rfl) (hcol (.blockPorts .output) rfl)
    (hcol (.blockPorts .clock) rfl)

theorem ports_eq (ha : a.kind ≠ .port) : m.ports = n.ports := by
  have hcol (b : Attribute) (hb : b.kind = .port) : m.column b = n.column b :=
    h.column fun heq => ha (heq ▸ hb)
  exact Ports.ext (hcol .portSlot rfl) (hcol .portName rfl) (hcol .portOwner rfl)
    (hcol .portWidth rfl) (hcol .portClass rfl) (hcol .portPins rfl)

theorem pins_eq (ha : a.kind ≠ .pin) : m.pins = n.pins := by
  have hcol (b : Attribute) (hb : b.kind = .pin) : m.column b = n.column b :=
    h.column fun heq => ha (heq ▸ hb)
  exact Pins.ext (hcol .pinSlot rfl) (hcol .pinPort rfl) (hcol .pinBit rfl) (hcol .pinNet rfl)
    (hcol .pinRole rfl)

theorem nets_eq (ha : a.kind ≠ .net) : m.nets = n.nets := by
  have hcol (b : Attribute) (hb : b.kind = .net) : m.column b = n.column b :=
    h.column fun heq => ha (heq ▸ hb)
  exact Nets.ext (hcol .netSlot rfl) (hcol .netName rfl) (hcol .netPins rfl)

/-- The other columns of the kind, of which there are some, have the same length. -/
theorem size_eq (hn : n.Sized) (hm : m.Sized) : (m.column a).size = (n.column a).size := by
  obtain ⟨b, hb, hkind⟩ := a.exists_ne_kind_eq
  calc (m.column a).size = (m.column b).size := by rw [hm.size_column, hm.size_column, hkind]
    _ = (n.column b).size := by rw [h.column hb]
    _ = (n.column a).size := by rw [hn.size_column, hn.size_column, hkind]

variable (hn : n.Consistent) (hm : m.Consistent)
include hn hm

theorem slots_eq : m.slots a.kind = n.slots a.kind := by
  refine hn.slots_eq hm h.index ?_
  rw [← hm.sized.size_column, h.size_eq hn.sized hm.sized, hn.sized.size_column]

/-- Consistent netlists that agree in all columns but one agree in that one, too, where it is
guarded. -/
theorem getElem?_eq {i : Nat} (hg : a.Guarded n i) : (m.column a)[i]? = (n.column a)[i]? := by
  have hrecords {k : Kind} {x : Handle k} (hx : n.IsLive x) := hn.exists_records hm h.index hx
  cases a with
  | blockSlot => exact congrArg (·[i]?) (h.slots_eq hn hm)
  | portSlot => exact congrArg (·[i]?) (h.slots_eq hn hm)
  | pinSlot => exact congrArg (·[i]?) (h.slots_eq hn hm)
  | netSlot => exact congrArg (·[i]?) (h.slots_eq hn hm)
  | blockName =>
    obtain ⟨q, r, hq, hr, hkey⟩ := hrecords hg
    exact eq_of_eq_some (Blocks.record?_eq_some_iff.1 hr).2.1 (Blocks.record?_eq_some_iff.1 hq).2.1
      hkey
  | portName =>
    obtain ⟨q, r, hq, hr, hkey⟩ := hrecords hg
    obtain ⟨-, hname, -⟩ := Ports.record?_eq_some_iff.1 hr
    obtain ⟨-, hname', -⟩ := Ports.record?_eq_some_iff.1 hq
    exact eq_of_eq_some hname hname' (congrArg PortKey.name hkey)
  | portOwner =>
    obtain ⟨q, r, hq, hr, hkey⟩ := hrecords hg
    obtain ⟨-, -, howner, -⟩ := Ports.record?_eq_some_iff.1 hr
    obtain ⟨-, -, howner', -⟩ := Ports.record?_eq_some_iff.1 hq
    exact eq_of_eq_some howner howner' (congrArg PortKey.block hkey)
  | portWidth =>
    obtain ⟨q, r, hq, hr, -⟩ := hrecords hg
    obtain ⟨-, -, -, hwidth, -⟩ := Ports.record?_eq_some_iff.1 hr
    obtain ⟨-, -, -, hwidth', -⟩ := Ports.record?_eq_some_iff.1 hq
    exact eq_of_eq_some hwidth hwidth' (hn.width_eq hm (h.column (b := .portPins) nofun) hq hr)
  | portClass =>
    obtain ⟨q, r, hq, hr, -⟩ := hrecords hg
    obtain ⟨-, -, -, -, hclass, -⟩ := Ports.record?_eq_some_iff.1 hr
    obtain ⟨-, -, -, -, hclass', -⟩ := Ports.record?_eq_some_iff.1 hq
    exact eq_of_eq_some hclass hclass' (hn.portClass_eq hm (h.blocks_eq nofun) hq hr)
  | pinPort =>
    obtain ⟨q, r, hq, hr, hkey⟩ := hrecords hg
    obtain ⟨-, hport, -⟩ := Pins.record?_eq_some_iff.1 hr
    obtain ⟨-, hport', -⟩ := Pins.record?_eq_some_iff.1 hq
    exact eq_of_eq_some hport hport' (congrArg BitKey.port hkey)
  | pinBit =>
    obtain ⟨q, r, hq, hr, hkey⟩ := hrecords hg
    obtain ⟨-, -, hbit, -⟩ := Pins.record?_eq_some_iff.1 hr
    obtain ⟨-, -, hbit', -⟩ := Pins.record?_eq_some_iff.1 hq
    exact eq_of_eq_some hbit hbit' (congrArg BitKey.bit hkey)
  | pinNet =>
    obtain ⟨q, r, hq, hr, -⟩ := hrecords hg
    obtain ⟨-, -, -, hnet, -⟩ := Pins.record?_eq_some_iff.1 hr
    obtain ⟨-, -, -, hnet', -⟩ := Pins.record?_eq_some_iff.1 hq
    have hnets := h.nets_eq nofun
    refine eq_of_eq_some hnet hnet' (Option.ext fun e => ?_)
    exact ⟨fun he => (hn.net_eq_of_net_eq hm hnets hq hr he).1,
      fun he => (hm.net_eq_of_net_eq hn hnets.symm hr hq he).1⟩
  | pinRole =>
    obtain ⟨e, he⟩ := hg
    obtain ⟨q, hq, hnet⟩ := (pinNet_eq_ok_iff hn.sized).1 he
    obtain ⟨q', r, hq', hr, -⟩ := hrecords (hn.sized.isLive_pin_iff.2 ⟨q, hq⟩)
    obtain rfl : q = q' := Option.some.inj (hq.symm.trans hq')
    obtain ⟨-, -, -, hcol, hrole⟩ := Pins.record?_eq_some_iff.1 hr
    obtain ⟨-, -, -, hcol', hrole'⟩ := Pins.record?_eq_some_iff.1 hq
    have hsame : m.pins.nets = n.pins.nets := h.column (b := .pinNet) nofun
    rw [hsame, hcol', Option.some.injEq] at hcol
    exact eq_of_eq_some hrole hrole'
      (hn.net_eq_of_net_eq hm (h.nets_eq nofun) hq hr (hcol.symm.trans hnet)).2.symm
  | netName =>
    obtain ⟨q, r, hq, hr, hkey⟩ := hrecords hg
    exact eq_of_eq_some (Nets.record?_eq_some_iff.1 hr).2.1 (Nets.record?_eq_some_iff.1 hq).2.1 hkey
  | _ => exact hg.elim

end AgreesBut

end Netlist

end MappedNetlist
