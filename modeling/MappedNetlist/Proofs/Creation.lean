import Mathlib.Tactic.Tauto
import MappedNetlist.Netlist.Create
import MappedNetlist.Proofs.Lookup
import MappedNetlist.Proofs.Query

/-!
# Creation in consistent netlists

In a consistent netlist a creation either is refused, or finds the entity that is there and changes
nothing, or grows the netlist by one entity. Each operation gets one lemma for each of these cases.
The last one says which store results, and that the netlist stays consistent (`Netlist.Grows`).
-/

namespace MappedNetlist

namespace StringTable

/-- Every handle of `t` stands for the same text in `u`. -/
def Extends (u t : StringTable) : Prop :=
  ∀ ⦃id : StringId⦄ ⦃text : String⦄, t.text? id = some text → u.text? id = some text

theorem Extends.refl (t : StringTable) : t.Extends t := fun _ _ h => h

theorem extends_intern (t : StringTable) (s : String) : (t.intern s).2.Extends t := by
  intro id text h
  rw [text?, texts_intern]
  split
  · exact h
  · rw [List.getElem?_append_left (List.getElem?_eq_some_iff.1 h).1]
    exact h

/-- Interning issues at most the handle that it gives. -/
theorem eq_or_text?_of_intern {t : StringTable} {s text : String} {id : StringId}
    (h : (t.intern s).2.text? id = some text) : id = (t.intern s).1 ∨ t.text? id = some text := by
  have hget := h
  rw [text?, texts_intern] at hget
  split at hget
  · exact .inr hget
  · rw [List.getElem?_append] at hget
    split at hget
    · exact .inr hget
    · obtain rfl : text = s := by simpa using List.mem_of_getElem? hget
      exact .inl (Option.some.inj
        ((find?_eq_some_iff.2 h).symm.trans (find?_eq_some_iff.2 (t.text?_intern text))))

/-- An old handle that interning gives stands for the text that was interned. -/
theorem eq_of_text?_intern {t : StringTable} {s text : String}
    (h : t.text? (t.intern s).1 = some text) : text = s :=
  Option.some.inj ((t.extends_intern s h).symm.trans (t.text?_intern s))

end StringTable

theorem Column.modify_of_getElem? {α : Type} {col : Column α} {i : Nat} {a : α}
    (h : col[i]? = some a) (f : α → α) : col.modify i f = col.setIfInBounds i (f a) := by
  refine Array.ext_getElem? fun j => ?_
  rw [Array.getElem?_modify, Array.getElem?_setIfInBounds]
  split
  · next hij =>
    subst hij
    rw [h, if_pos (Array.getElem?_eq_some_iff.1 h).1]
    rfl
  · rfl

/-- An entry that was added is written over. -/
theorem Column.setIfInBounds_push {α : Type} (col : Column α) (a b : α) :
    (col.push a).setIfInBounds col.size b = col.push b := by
  refine Array.ext_getElem? fun i => ?_
  rw [Array.getElem?_setIfInBounds, Array.getElem?_push, Array.getElem?_push, Array.size_push]
  by_cases hi : col.size = i
  · simp [hi]
  · simp [hi, Ne.symm hi]

/-- The columns of nets after a net, if one is given, took in a pin. -/
def Nets.take (nets : Nets) (i : PinId) (role : PinRole) : Option NetId → Nets
  | none => nets
  | some e => { nets with pins := nets.pins.modify e.index (plug i role) }

@[simp] theorem Nets.slots_take (nets : Nets) (i : PinId) (role : PinRole) (net : Option NetId) :
    (nets.take i role net).slots = nets.slots := by
  cases net <;> rfl

@[simp] theorem Nets.names_take (nets : Nets) (i : PinId) (role : PinRole) (net : Option NetId) :
    (nets.take i role net).names = nets.names := by
  cases net <;> rfl

theorem Nets.Sized.take {nets : Nets} (h : nets.Sized) (i : PinId) (role : PinRole)
    (net : Option NetId) : (nets.take i role net).Sized := by
  cases net with
  | none => exact h
  | some e => exact ⟨h.placed, h.names, Array.size_modify.trans h.pins⟩

namespace Netlist

variable {n m : Netlist}

theorem NamesInterned.of_subset (hn : n.NamesInterned) (hstrings : m.strings = n.strings)
    (h : ∀ x ∈ m.namesInUse, x ∈ n.namesInUse) : m.NamesInterned :=
  fun x hx => hstrings ▸ hn x (h x hx)

section Intern

variable {name : String} {x : StringId} (hstrings : m.strings = (n.strings.intern name).2)
  (hx : (n.strings.intern name).1 = x)
  (hnames : ∀ y, y ∈ m.namesInUse ↔ y ∈ n.namesInUse ∨ y = x)
include hstrings hx hnames

/-- If something new bears the name that was interned, every name is interned again. -/
theorem NamesInterned.intern (hn : n.NamesInterned) : m.NamesInterned := by
  subst hx
  intro y hy
  rw [hstrings]
  rcases (hnames y).1 hy with hy | rfl
  · obtain ⟨text, htext⟩ := hn y hy
    exact ⟨text, n.strings.extends_intern name htext⟩
  · exact ⟨name, n.strings.text?_intern name⟩

/-- If something new bears the name that was interned, every text is a name again. -/
theorem NamesUsed.intern (hn : n.NamesUsed) : m.NamesUsed := by
  subst hx
  intro y text htext
  rw [hstrings] at htext
  rcases StringTable.eq_or_text?_of_intern htext with rfl | htext
  · exact (hnames _).2 (.inr rfl)
  · exact (hnames y).2 (.inl (hn htext))

end Intern

theorem Consistent.of_store {s : Store} (hs : m.store = s) (hsized : m.Sized)
    (hcoherent : s.Coherent m.ports.slots.size) (hindexed : m.index.Exact s)
    (hinterned : m.NamesInterned) : m.Consistent := by
  subst hs
  exact ⟨hsized, hcoherent, hindexed, hinterned⟩

section Unfound

variable {name : String}

/-- A name under which no block is found is free in the index once it is interned. -/
theorem Consistent.index_blocks_intern (hn : n.Consistent) (h : n.block? name = none) :
    n.index.blocks[(n.strings.intern name).1]? = none := by
  rw [Option.eq_none_iff_forall_ne_some]
  intro b hb
  obtain ⟨r, hr, hname⟩ := Option.map_eq_some_iff.1 ((hn.indexed.blocks _ b).1 hb)
  obtain ⟨text, ht⟩ := hn.exists_blockName hr
  obtain rfl : text = name := StringTable.eq_of_text?_intern (hname ▸ ht)
  have hfound := hn.block?_eq_some_iff.2 ⟨r, hr, ht⟩
  simp [h] at hfound

theorem Consistent.index_ports_intern (hn : n.Consistent) {b : BlockId}
    (h : n.indexedPort? b name = none) :
    n.index.ports[PortKey.mk b (n.strings.intern name).1]? = none := by
  rw [Option.eq_none_iff_forall_ne_some]
  intro p hp
  obtain ⟨r, hr, hkey⟩ := Option.map_eq_some_iff.1 ((hn.indexed.ports _ p).1 hp)
  obtain ⟨howner, hname⟩ := PortKey.mk.inj hkey
  obtain ⟨text, ht⟩ := hn.exists_portName hr
  obtain rfl : text = name := StringTable.eq_of_text?_intern (hname ▸ ht)
  have hfound := hn.indexedPort?_eq_some_iff.2 ⟨r, hr, howner, ht⟩
  simp [h] at hfound

theorem Consistent.index_nets_intern (hn : n.Consistent) (h : n.net? name = none) :
    n.index.nets[(n.strings.intern name).1]? = none := by
  rw [Option.eq_none_iff_forall_ne_some]
  intro e he
  obtain ⟨r, hr, hname⟩ := Option.map_eq_some_iff.1 ((hn.indexed.nets _ e).1 he)
  obtain ⟨text, ht⟩ := hn.exists_netName hr
  obtain rfl : text = name := StringTable.eq_of_text?_intern (hname ▸ ht)
  have hfound := hn.net?_eq_some_iff.2 ⟨r, hr, ht⟩
  simp [h] at hfound

end Unfound

/-- One more entity of kind `k` was issued and is live, every old name still has its text, and what
was interned became a name. -/
structure Grows (n m : Netlist) (k : Kind) : Prop where
  consistent : m.Consistent
  strings : m.strings.Extends n.strings
  slots (l : Kind) :
    m.slots l = if l = k then (n.slots l).push (some ⟨(n.slots l).size⟩) else n.slots l
  dirty : m.dirty = n.dirty
  named : n.NamesUsed → m.NamesUsed

theorem Grows.issued {k : Kind} (h : n.Grows m k) (l : Kind) :
    (m.slots l).size = if l = k then (n.slots l).size + 1 else (n.slots l).size := by
  rw [h.slots]
  split
  · exact Array.size_push _
  · rfl

/-! ## Blocks -/

theorem createBlock_of_some {name : String} {b : BlockId} (h : n.block? name = some b)
    (model : Model) (table : TruthTable) : n.createBlock name model table = (b, n) := by
  obtain ⟨x, hx, hb⟩ := Option.bind_eq_some_iff.1 h
  simp only [createBlock, StringTable.intern_of_find? hx, hb]

theorem createBlock_of_none (hn : n.Consistent) {name : String} (h : n.block? name = none)
    (model : Model) (table : TruthTable) :
    ∃ m x, n.createBlock name model table = (⟨n.blocks.slots.size⟩, m) ∧ n.Grows m .block ∧
      m.store = n.store.addBlock ⟨n.blocks.slots.size⟩ ⟨x, model, table, fun _ => []⟩ ∧
      m.strings.text? x = some name := by
  have hext := n.strings.extends_intern name
  have htext := n.strings.text?_intern name
  have hkey := hn.index_blocks_intern h
  generalize hx : (n.strings.intern name).1 = x at htext hkey
  have hfresh : n.store.blocks ⟨n.blocks.slots.size⟩ = none := n.blocks.record?_size
  have hstore : Store.mk (n.blocks.push x model table).record? n.store.ports n.store.pins
      n.store.nets = n.store.addBlock ⟨n.blocks.slots.size⟩ ⟨x, model, table, fun _ => []⟩ := by
    rw [Blocks.record?_push hn.sized.blocks]
    rfl
  let m : Netlist := { n with
    blocks := n.blocks.push x model table
    strings := (n.strings.intern name).2
    index := { n.index with blocks := n.index.blocks.insert x ⟨n.blocks.slots.size⟩ } }
  have hnames (y : StringId) : y ∈ m.namesInUse ↔ y ∈ n.namesInUse ∨ y = x := by
    simp only [m, namesInUse, Blocks.push_names, Array.toList_push, List.mem_append,
      List.mem_singleton]
    tauto
  refine ⟨m, x, ?_, ⟨.of_store hstore ?_ ?_ ?_ (hn.interned.intern rfl hx hnames), hext, ?_, rfl,
    fun h => h.intern rfl hx hnames⟩, hstore, htext⟩
  · simp only [createBlock, hx, hkey]
    rfl
  · exact { hn.sized with blocks := hn.sized.blocks.push x model table }
  · exact hn.coherent.addBlock hfresh fun _ => rfl
  · exact hn.indexed.addBlock (r := ⟨x, model, table, fun _ => []⟩) hfresh hkey
  · intro l
    cases l <;> simp [m, slots]

/-! ## Ports -/

theorem createPort_of_dead {b : BlockId} (hb : ¬n.IsLive b) (name : String) :
    n.createPort b name = .error (.refused (.invalidHandle .block b)) := by
  simp [createPort, hb]

theorem createPort_of_some {b : BlockId} {name : String} {p : PortId} (hb : n.IsLive b)
    (h : n.indexedPort? b name = some p) : n.createPort b name = .ok (p, n) := by
  simp [createPort, hb, h]

theorem createPort_of_undeclared {b : BlockId} {r : BlockRecord} {name : String}
    (hb : n.store.blocks b = some r) (h : n.indexedPort? b name = none)
    (hdecl : r.model.port? name = none) :
    n.createPort b name = .error (.refused (.unknownModelPort r.model.name name)) := by
  simp [createPort, IsLive, slots, Blocks.isLive_of_record? hb, h, Blocks.read_models hb, hdecl,
    refuse]

theorem createPort_of_none (hn : n.Consistent) {b : BlockId} {r : BlockRecord} {name : String}
    {decl : PortDecl} (hb : n.store.blocks b = some r) (h : n.indexedPort? b name = none)
    (hdecl : r.model.port? name = some decl) :
    ∃ m x, n.createPort b name = .ok (⟨n.ports.slots.size⟩, m) ∧ n.Grows m .port ∧
      m.store = n.store.addPort ⟨n.ports.slots.size⟩
        ⟨x, b, decl.width.toNat, decl.portClass, List.replicate decl.width.toNat none⟩ ∧
      m.strings.text? x = some name := by
  obtain rfl : decl.name = name := Model.name_of_port? hdecl
  have hext := n.strings.extends_intern decl.name
  have htext := n.strings.text?_intern decl.name
  have hkey := hn.index_ports_intern h
  generalize hx : (n.strings.intern decl.name).1 = x at htext hkey
  generalize hq : (⟨x, b, decl.width.toNat, decl.portClass,
    List.replicate decl.width.toNat none⟩ : PortRecord) = q
  have hqkey : q.key = ⟨b, x⟩ := by rw [← hq, PortRecord.key]
  rw [← hqkey] at hkey
  have hfresh : n.store.ports ⟨n.ports.slots.size⟩ = none := n.ports.record?_size
  have hstore : Store.mk (n.blocks.setListed ((n.blocks.listed q.portClass).setIfInBounds b.index
      (r.listed q.portClass ++ [⟨n.ports.slots.size⟩])) q.portClass).record?
      (n.ports.push q).record? n.store.pins n.store.nets =
        n.store.addPort ⟨n.ports.slots.size⟩ q := by
    have howner : q.owner = b := by rw [← hq]
    rw [store_blocks] at hb
    rw [Blocks.record?_setListed, Ports.record?_push hn.sized.ports, Store.addPort, howner, modify,
      store_blocks, hb]
    rfl
  let m : Netlist := { n with
    blocks := n.blocks.setListed ((n.blocks.listed q.portClass).setIfInBounds b.index
      (r.listed q.portClass ++ [⟨n.ports.slots.size⟩])) q.portClass
    ports := n.ports.push q
    strings := (n.strings.intern decl.name).2
    index := { n.index with ports := n.index.ports.insert q.key ⟨n.ports.slots.size⟩ } }
  have hnames (y : StringId) : y ∈ m.namesInUse ↔ y ∈ n.namesInUse ∨ y = x := by
    have hqname : q.name = x := by rw [← hq]
    simp only [m, namesInUse, Blocks.names_setListed, Ports.push_names, hqname, Array.toList_push,
      List.mem_append, List.mem_singleton]
    tauto
  refine ⟨m, x, ?_, ⟨.of_store hstore ?_ ?_ ?_ (hn.interned.intern rfl hx hnames), hext, ?_, rfl,
    fun h => h.intern rfl hx hnames⟩, hq ▸ hstore, htext⟩
  · subst hq
    simp only [createPort, demand_of_pos (show n.IsLive b from Blocks.isLive_of_record? hb), ok_bind,
      h, Blocks.read_models hb, liftM_ok, hdecl, addPort, Blocks.alter_listed hb, hx, pure_eq_ok]
    rfl
  · exact { hn.sized with
      blocks := hn.sized.blocks.setListed ..
      ports := hn.sized.ports.push q }
  · have := hn.coherent.addPort (r := q) hfresh rfl (by rw [← hq]; exact hb) (by rw [← hq])
    simpa [m] using this
  · exact hn.indexed.addPort hfresh hkey
  · intro l
    cases l <;> simp [m, slots]

/-! ## Pins -/

theorem createPin_of_dead {p : PortId} (hp : ¬n.IsLive p) (bit : Nat) (net : Option NetId)
    (role : PinRole) :
    n.createPin p bit net role = .error (.refused (.invalidHandle .port p)) := by
  simp [createPin, hp]

section LivePort

variable {p : PortId} {r : PortRecord} {bit : Nat} {net : Option NetId}

theorem createPin_of_width_le (hp : n.store.ports p = some r) (hbit : r.width ≤ bit)
    (net : Option NetId) (role : PinRole) :
    n.createPin p bit net role = .error (.refused (.bitOutOfRange p bit r.width)) := by
  have hl : n.IsLive p := Ports.isLive_of_record? hp
  simp [createPin, hl, Ports.read_widths hp, hbit]

theorem createPin_of_deadNet (hp : n.store.ports p = some r) (hbit : bit < r.width) {e : NetId}
    (he : ¬n.IsLive e) (role : PinRole) :
    n.createPin p bit (some e) role = .error (.refused (.invalidHandle .net e)) := by
  have hl : n.IsLive p := Ports.isLive_of_record? hp
  simp [createPin, hl, Ports.read_widths hp, hbit, demandLiveNet, he]

theorem demandLiveNet_of_live (hnet : ∀ e, net = some e → n.IsLive e) :
    n.demandLiveNet net = .ok () := by
  cases net with
  | none => rfl
  | some e => exact demand_of_pos (hnet e rfl)

theorem createPin_of_some (hp : n.store.ports p = some r) (hbit : bit < r.width)
    (hnet : ∀ e, net = some e → n.IsLive e) {i : PinId}
    (h : n.index.pins[BitKey.mk p bit]? = some i) (role : PinRole) :
    n.createPin p bit net role = .ok (i, n) := by
  have hl : n.IsLive p := Ports.isLive_of_record? hp
  simp [createPin, hl, Ports.read_widths hp, hbit, demandLiveNet_of_live hnet, h]

theorem createPin_of_driven (hp : n.store.ports p = some r) (hbit : bit < r.width)
    (h : n.index.pins[BitKey.mk p bit]? = none) {e : NetId} {t : NetRecord} {j : PinId}
    (he : n.store.nets e = some t) (hj : t.pins[0]? = some (some j)) :
    n.createPin p bit (some e) .driver = .error (.refused (.driverConflict e j)) := by
  have hl : n.IsLive p := Ports.isLive_of_record? hp
  have hle : n.IsLive e := Nets.isLive_of_record? he
  have hread : readSlot t.pins 0 = .ok (some j) := readSlot_eq_ok_iff.2 hj
  simp [createPin, hl, Ports.read_widths hp, hbit, demandLiveNet, hle, h, demandUndriven,
    Nets.read_pins he, hread, refuse]

theorem connect_eq_ok (i : PinId) (role : PinRole) {slots : List (Option PinId)}
    (hs : slots ≠ []) : connect i role slots = .ok (plug i role slots) := by
  cases role with
  | driver => exact writeSlot_eq_ok_iff.2 ⟨List.length_pos_iff.2 hs, rfl⟩
  | sink => rfl

/-- The net, if there is one, has room for a pin of a role. -/
def Vacant (n : Netlist) (net : Option NetId) (role : PinRole) : Prop :=
  ∀ ⦃e t⦄, net = some e → n.store.nets e = some t → role = .driver → t.pins[0]? = some none

/-- A net that has no room is driven. -/
theorem Consistent.exists_driver (hn : n.Consistent) {role : PinRole} (h : ¬n.Vacant net role) :
    role = .driver ∧ ∃ e t j, net = some e ∧ n.store.nets e = some t ∧
      t.pins[0]? = some (some j) := by
  simp only [Vacant, not_forall] at h
  obtain ⟨e, t, rfl, ht, rfl, hslot⟩ := h
  obtain ⟨slot, hget⟩ : ∃ slot, t.pins[0]? = some slot :=
    ⟨_, List.getElem?_eq_getElem (List.length_pos_iff.2 (hn.coherent.slotted ht))⟩
  cases slot with
  | none => exact absurd hget hslot
  | some j => exact ⟨rfl, e, t, j, rfl, ht, hget⟩

theorem demandUndriven_eq_ok (hn : n.Consistent) {role : PinRole}
    (hnet : ∀ e, net = some e → n.IsLive e) (hfree : n.Vacant net role) :
    n.demandUndriven net role = .ok () := by
  cases net with
  | none => rfl
  | some e =>
    cases role with
    | sink => rfl
    | driver =>
      obtain ⟨t, ht⟩ := hn.sized.isLive_net_iff.1 (hnet e rfl)
      have hread : readSlot t.pins 0 = .ok none := readSlot_eq_ok_iff.2 (hfree rfl ht rfl)
      simp [demandUndriven, Nets.read_pins ht, hread]

/-- A bit without an entry in the index has no pin. -/
theorem Consistent.getElem?_of_index_pins (hn : n.Consistent) (hp : n.store.ports p = some r)
    (hbit : bit < r.width) (h : n.index.pins[BitKey.mk p bit]? = none) :
    r.pins[bit]? = some none := by
  rw [← hn.coherent.width hp] at hbit
  rw [List.getElem?_eq_getElem hbit, Option.some_inj, Option.eq_none_iff_forall_ne_some]
  intro i hi
  obtain ⟨q, hq, hport, hqbit⟩ :=
    hn.coherent.filled hp ((List.getElem?_eq_getElem hbit).trans (congrArg some hi))
  have := hn.index_pins_eq_some_iff.2 ⟨q, hq, hport, hqbit⟩
  simp [h] at this

/-- The columns after a pin was added, to a port whose record is `r`. -/
def withPin (n : Netlist) (r : PortRecord) (q : PinRecord) : Netlist :=
  { n with
    ports := { n.ports with
      pins := n.ports.pins.setIfInBounds q.port.index (r.fill q.bit ⟨n.pins.slots.size⟩).pins }
    pins := n.pins.push q
    nets := n.nets.take ⟨n.pins.slots.size⟩ q.role q.net
    index := { n.index with pins := n.index.pins.insert q.key ⟨n.pins.slots.size⟩ } }

theorem addPin_eq_ok (hn : n.Consistent) (role : PinRole) (hp : n.store.ports p = some r)
    (hbit : bit < r.width) (hnet : ∀ e, net = some e → n.IsLive e) :
    n.addPin p bit net role = .ok (⟨n.pins.slots.size⟩, n.withPin r ⟨p, bit, net, role⟩) := by
  have hrow : writeSlot r.pins bit (some (⟨n.pins.slots.size⟩ : PinId)) =
      .ok (r.pins.set bit (some ⟨n.pins.slots.size⟩)) :=
    writeSlot_eq_ok_iff.2 ⟨hn.coherent.width hp ▸ hbit, rfl⟩
  have hget := (Ports.record?_eq_some_iff.1 hp).2.2.2.2.2
  cases net with
  | none =>
    simp only [addPin, Ports.read_pins hp, ok_bind, hrow, Column.write_of_getElem? hget, pure_eq_ok]
    rfl
  | some e =>
    obtain ⟨t, ht⟩ := hn.sized.isLive_net_iff.1 (hnet e rfl)
    have hslots := connect_eq_ok ⟨n.pins.slots.size⟩ role (hn.coherent.slotted ht)
    have hold := (Nets.record?_eq_some_iff.1 ht).2.2
    simp only [addPin, Ports.read_pins hp, ok_bind, hrow, Column.write_of_getElem? hget,
      Nets.read_pins ht, hslots, Column.write_of_getElem? hold, pure_eq_ok, withPin, Nets.take,
      Column.modify_of_getElem? hold]
    rfl

theorem record?_take (i : PinId) (q : PinRecord) (hnet : ∀ e, q.net = some e → n.IsLive e)
    (hn : n.Sized) : (n.nets.take i q.role q.net).record? = (n.store.addPin i q).nets := by
  obtain ⟨port, bit, net, role⟩ := q
  cases net with
  | none => rfl
  | some e =>
    obtain ⟨t, ht⟩ := hn.isLive_net_iff.1 (hnet e rfl)
    rw [Nets.take, Column.modify_of_getElem? (Nets.record?_eq_some_iff.1 ht).2.2,
      Nets.record?_setPins, Store.addPin_nets]
    dsimp only
    rw [modify, store_nets, ← store_nets, ht]
    rfl

/-- A pin is created at a bit that has none, and takes its place on its net if there is one. -/
theorem createPin_eq_ok (hn : n.Consistent) {role : PinRole} (hp : n.store.ports p = some r)
    (hbit : bit < r.width) (hnet : ∀ e, net = some e → n.IsLive e)
    (h : n.index.pins[BitKey.mk p bit]? = none) (hfree : n.Vacant net role) :
    n.createPin p bit net role = .ok (⟨n.pins.slots.size⟩, n.withPin r ⟨p, bit, net, role⟩) := by
  have hl : n.IsLive p := Ports.isLive_of_record? hp
  simp only [createPin, demand_of_pos hl, ok_bind, Ports.read_widths hp, liftM_ok,
    demand_of_pos hbit, demandLiveNet_of_live hnet, h, demandUndriven_eq_ok hn hnet hfree,
    addPin_eq_ok hn role hp hbit hnet]

/-- A pin is added at a bit that has none. -/
theorem grows_withPin (hn : n.Consistent) {role : PinRole} (hp : n.store.ports p = some r)
    (hbit : bit < r.width) (hnet : ∀ e, net = some e → n.IsLive e)
    (h : n.index.pins[BitKey.mk p bit]? = none) (hfree : n.Vacant net role) :
    n.Grows (n.withPin r ⟨p, bit, net, role⟩) .pin ∧
      (n.withPin r ⟨p, bit, net, role⟩).store =
        n.store.addPin ⟨n.pins.slots.size⟩ ⟨p, bit, net, role⟩ := by
  have hempty := hn.getElem?_of_index_pins hp hbit h
  have hfresh : n.store.pins ⟨n.pins.slots.size⟩ = none := n.pins.record?_size
  have hstore : (n.withPin r ⟨p, bit, net, role⟩).store =
      n.store.addPin ⟨n.pins.slots.size⟩ ⟨p, bit, net, role⟩ := by
    refine Store.ext rfl ?_ (Pins.record?_push hn.sized.pins _) (record?_take _ _ hnet hn.sized)
    rw [store_ports] at hp
    refine (Ports.record?_setPins ..).trans ?_
    rw [Store.addPin_ports, modify, store_ports, hp]
    rfl
  have hnames : (n.withPin r ⟨p, bit, net, role⟩).namesInUse = n.namesInUse := by
    rw [namesInUse, withPin, Nets.names_take]
    rfl
  refine ⟨⟨.of_store hstore ?_ ?_ ?_ (hn.interned.of_subset rfl fun y => ?_),
    StringTable.Extends.refl _, ?_, rfl, fun h y text htext => ?_⟩, hstore⟩
  · exact { hn.sized with
      ports := hn.sized.ports.setPins ..
      pins := hn.sized.pins.push _
      nets := hn.sized.nets.take .. }
  · refine hn.coherent.addPin hfresh hp hempty fun e he => ?_
    obtain ⟨t, ht⟩ := hn.sized.isLive_net_iff.1 (hnet e he)
    exact ⟨t, ht, hfree he ht⟩
  · exact hn.indexed.addPin hfresh h
  · rw [hnames]
    exact id
  · intro l
    cases l <;> simp [slots, withPin]
  · rw [hnames]
    exact h htext

theorem createPin_of_none (hn : n.Consistent) {role : PinRole} (hp : n.store.ports p = some r)
    (hbit : bit < r.width) (hnet : ∀ e, net = some e → n.IsLive e)
    (h : n.index.pins[BitKey.mk p bit]? = none) (hfree : n.Vacant net role) :
    ∃ m, n.createPin p bit net role = .ok (⟨n.pins.slots.size⟩, m) ∧ n.Grows m .pin ∧
      m.store = n.store.addPin ⟨n.pins.slots.size⟩ ⟨p, bit, net, role⟩ ∧
      m.strings = n.strings := by
  obtain ⟨hm, hstore⟩ := grows_withPin hn hp hbit hnet h hfree
  exact ⟨_, createPin_eq_ok hn hp hbit hnet h hfree, hm, hstore, rfl⟩

end LivePort

/-! ## Nets -/

theorem createNet_of_some {name : String} {e : NetId} (h : n.net? name = some e) :
    n.createNet name = (e, n) := by
  obtain ⟨x, hx, he⟩ := Option.bind_eq_some_iff.1 h
  simp only [createNet, StringTable.intern_of_find? hx, he]

/-- `new` says of the pins in `slots` that they are on the net `e`, and of the others what `old`
says. -/
structure Joins (old new : Column (Option NetId)) (e : NetId) (slots : List (Option PinId)) :
    Prop where
  size : new.size = old.size
  get (i : PinId) : new[i.index]? =
    (old[i.index]?).map fun net => if some i ∈ slots then some e else net

theorem Joins.of_unplugged (old : Column (Option NetId)) (e : NetId) : Joins old old e [none] :=
  ⟨rfl, fun i => by simp⟩

/-- The columns after a net was added, `pinNets` being what the pins say of their nets now. -/
def withNet (n : Netlist) (name : String) (slots : List (Option PinId))
    (pinNets : Column (Option NetId)) : Netlist :=
  { n with
    pins := { n.pins with nets := pinNets }
    nets := n.nets.push ⟨(n.strings.intern name).1, slots⟩
    strings := (n.strings.intern name).2
    index := { n.index with
      nets := n.index.nets.insert (n.strings.intern name).1 ⟨n.nets.slots.size⟩ } }

@[simp] theorem withNet_nets (n : Netlist) (name : String) (slots : List (Option PinId))
    (pinNets : Column (Option NetId)) :
    (n.withNet name slots pinNets).nets = n.nets.push ⟨(n.strings.intern name).1, slots⟩ := rfl

@[simp] theorem withNet_pins_nets (n : Netlist) (name : String) (slots : List (Option PinId))
    (pinNets : Column (Option NetId)) : (n.withNet name slots pinNets).pins.nets = pinNets := rfl

/-- A net is added under a name that no net has, with pins that are free for it. -/
theorem grows_withNet (hn : n.Consistent) {name : String} (h : n.net? name = none)
    {slots : List (Option PinId)} {pinNets : Column (Option NetId)}
    (hjoins : Joins n.pins.nets pinNets ⟨n.nets.slots.size⟩ slots) (hslots : slots ≠ [])
    (honce : ∀ {i : PinId} {j k : Nat},
      slots[j]? = some (some i) → slots[k]? = some (some i) → j = k)
    (hfree : ∀ {slot : Nat} {i : PinId}, slots[slot]? = some (some i) →
      ∃ q, n.store.pins i = some q ∧ q.net = none ∧ q.role = slotRole slot) :
    n.Grows (n.withNet name slots pinNets) .net ∧
      (n.withNet name slots pinNets).store =
        n.store.addNet ⟨n.nets.slots.size⟩ ⟨(n.strings.intern name).1, slots⟩ := by
  have hext := n.strings.extends_intern name
  have hkey := hn.index_nets_intern h
  have hfresh : n.store.nets ⟨n.nets.slots.size⟩ = none := n.nets.record?_size
  have hstore : (n.withNet name slots pinNets).store =
      n.store.addNet ⟨n.nets.slots.size⟩ ⟨(n.strings.intern name).1, slots⟩ := by
    refine Store.ext rfl rfl ?_ (Nets.record?_push hn.sized.nets _)
    funext i
    exact (Pins.record?_withNets (hjoins.get i)).trans rfl
  have hnames (y : StringId) : y ∈ (n.withNet name slots pinNets).namesInUse ↔
      y ∈ n.namesInUse ∨ y = (n.strings.intern name).1 := by
    simp only [withNet, namesInUse, Nets.push_names, Array.toList_push, List.mem_append,
      List.mem_singleton]
    tauto
  refine ⟨⟨.of_store hstore ?_ ?_ ?_ (hn.interned.intern rfl rfl hnames), hext, ?_, rfl,
    fun h => h.intern rfl rfl hnames⟩, hstore⟩
  · exact { hn.sized with
      pins := hn.sized.pins.withNets hjoins.size
      nets := hn.sized.nets.push _ }
  · exact hn.coherent.addNet hfresh hslots honce hfree
  · exact hn.indexed.addNet (r := ⟨(n.strings.intern name).1, slots⟩) hfresh hkey
  · intro l
    cases l <;> simp [Netlist.slots, withNet]

theorem createNet_eq_of_none (hn : n.Consistent) {name : String} (h : n.net? name = none) :
    n.createNet name = (⟨n.nets.slots.size⟩, n.withNet name [none] n.pins.nets) := by
  simp only [createNet, hn.index_nets_intern h]
  rfl

theorem createNet_of_none (hn : n.Consistent) {name : String} (h : n.net? name = none) :
    ∃ m x, n.createNet name = (⟨n.nets.slots.size⟩, m) ∧ n.Grows m .net ∧
      m.store = n.store.addNet ⟨n.nets.slots.size⟩ ⟨x, [none]⟩ ∧
      m.strings.text? x = some name := by
  have hunplugged {j : Nat} {i : PinId} : [none][j]? ≠ some (some i) :=
    fun hj => by simpa using List.mem_of_getElem? hj
  obtain ⟨hm, hstore⟩ := grows_withNet hn h (.of_unplugged ..) (by simp)
    (fun hj => absurd hj hunplugged) (fun hj => absurd hj hunplugged)
  exact ⟨_, _, createNet_eq_of_none hn h, hm, hstore, n.strings.text?_intern name⟩

/-! ## Whole nets -/

/-- Putting pins on a net changes what is said of these pins. -/
theorem exists_assignNet (net : Option NetId) {pins : List PinId} {column : Column (Option NetId)}
    (hpins : ∀ i ∈ pins, i.index < column.size) :
    ∃ column', assignNet net column pins = .ok column' ∧ column'.size = column.size ∧
      ∀ i : PinId, column'[i.index]? =
        (column[i.index]?).map fun old => if i ∈ pins then net else old := by
  induction pins generalizing column with
  | nil => exact ⟨column, rfl, rfl, fun i => by simp⟩
  | cons j pins ih =>
    have hj : j.index < column.size := hpins j List.mem_cons_self
    have hrest : ∀ i ∈ pins, i.index < (column.setIfInBounds j.index net).size := by
      intro i hi
      rw [Array.size_setIfInBounds]
      exact hpins i (List.mem_cons_of_mem j hi)
    obtain ⟨column', hassign, hsize, hget⟩ := ih hrest
    refine ⟨column', ?_, by simpa using hsize, fun i => ?_⟩
    · rw [assignNet, List.foldlM_cons, Column.write_of_lt net hj]
      exact hassign
    · rw [hget]
      by_cases hij : i = j
      · subst hij
        simp [hj]
      · have hne : j.index ≠ i.index := fun h => hij (by cases i; cases j; simp_all)
        simp [hij, Array.getElem?_setIfInBounds_ne hne]

/-- Pins are free for a new net if they are live, have the roles asked for, are on no net, and are
not named twice. -/
def Free (n : Netlist) (pins : List (PinId × PinRole)) : Prop :=
  (∀ i role, (i, role) ∈ pins → ∃ r, n.store.pins i = some r ∧ r.role = role ∧ r.net = none) ∧
    (pins.map Prod.fst).Nodup

section DemandFree

variable {i : PinId} {r : PinRecord} {role : PinRole} {earlier : List PinId}
  {pins : List (PinId × PinRole)}

theorem demandFree_cons_of_dead (hi : ¬n.IsLive i) : n.demandFree earlier ((i, role) :: pins) =
    .error (.refused (.invalidHandle .pin i)) := by
  simp [demandFree, hi]

theorem demandFree_cons_of_role (hi : n.store.pins i = some r) (hrole : r.role ≠ role) :
    n.demandFree earlier ((i, role) :: pins) = .error (.refused (.roleMismatch i)) := by
  have hl : n.IsLive i := Pins.isLive_of_record? hi
  simp [demandFree, hl, Pins.read_roles hi, hrole]

theorem demandFree_cons_of_connected (hi : n.store.pins i = some r) (hrole : r.role = role)
    {e : NetId} (hnet : r.net = some e) : n.demandFree earlier ((i, role) :: pins) =
      .error (.refused (.pinAlreadyConnected i e)) := by
  have hl : n.IsLive i := Pins.isLive_of_record? hi
  simp [demandFree, hl, Pins.read_roles hi, hrole, Pins.read_nets hi, hnet, refuse]

theorem demandFree_cons_of_mem (hi : n.store.pins i = some r) (hrole : r.role = role)
    (hnet : r.net = none) (hmem : i ∈ earlier) : n.demandFree earlier ((i, role) :: pins) =
      .error (.refused (.duplicatePin i)) := by
  have hl : n.IsLive i := Pins.isLive_of_record? hi
  simp [demandFree, hl, Pins.read_roles hi, hrole, Pins.read_nets hi, hnet, hmem]

theorem demandFree_cons_of_free (hi : n.store.pins i = some r) (hrole : r.role = role)
    (hnet : r.net = none) (hmem : i ∉ earlier) : n.demandFree earlier ((i, role) :: pins) =
      n.demandFree (i :: earlier) pins := by
  have hl : n.IsLive i := Pins.isLive_of_record? hi
  simp [demandFree, hl, Pins.read_roles hi, hrole, Pins.read_nets hi, hnet, hmem]

end DemandFree

theorem demandFree_cases (hn : n.Consistent) (earlier : List PinId)
    (pins : List (PinId × PinRole)) :
    (∃ e, n.demandFree earlier pins = .error (.refused e)) ∨
      (n.demandFree earlier pins = .ok () ∧ n.Free pins ∧ ∀ p ∈ pins, p.1 ∉ earlier) := by
  induction pins generalizing earlier with
  | nil => exact .inr ⟨rfl, by simp [Free], by simp⟩
  | cons entry pins ih =>
    obtain ⟨i, role⟩ := entry
    by_cases hl : n.IsLive i
    · obtain ⟨r, hr⟩ := hn.sized.isLive_pin_iff.1 hl
      by_cases hrole : r.role = role
      · cases hnet : r.net with
        | some e => exact .inl ⟨_, demandFree_cons_of_connected hr hrole hnet⟩
        | none =>
          by_cases hi : i ∈ earlier
          · exact .inl ⟨_, demandFree_cons_of_mem hr hrole hnet hi⟩
          · rw [demandFree_cons_of_free hr hrole hnet hi]
            rcases ih (i :: earlier) with ⟨e, he⟩ | ⟨hok, ⟨hall, hnodup⟩, hnew⟩
            · exact .inl ⟨e, he⟩
            · refine .inr ⟨hok, ⟨?_, ?_⟩, ?_⟩
              · intro j role' hj
                rcases List.mem_cons.1 hj with heq | hj
                · cases heq
                  exact ⟨r, hr, hrole, hnet⟩
                · exact hall j role' hj
              · refine List.nodup_cons.2 ⟨fun hmem => ?_, hnodup⟩
                obtain ⟨p, hp, rfl⟩ := List.mem_map.1 hmem
                exact hnew p hp List.mem_cons_self
              · refine List.forall_mem_cons.2 ⟨hi, fun p hp h => ?_⟩
                exact hnew p hp (List.mem_cons_of_mem i h)
      · exact .inl ⟨_, demandFree_cons_of_role hr hrole⟩
    · exact .inl ⟨_, demandFree_cons_of_dead hl⟩

theorem free_of_demandFree (hn : n.Consistent) {earlier : List PinId}
    {pins : List (PinId × PinRole)} (h : n.demandFree earlier pins = .ok ()) : n.Free pins := by
  rcases demandFree_cases hn earlier pins with ⟨e, he⟩ | ⟨-, hfree, -⟩
  · simp [h] at he
  · exact hfree

theorem demandFree_eq_ok {earlier : List PinId} {pins : List (PinId × PinRole)} (h : n.Free pins)
    (hnew : ∀ p ∈ pins, p.1 ∉ earlier) : n.demandFree earlier pins = .ok () := by
  induction pins generalizing earlier with
  | nil => rfl
  | cons entry pins ih =>
    obtain ⟨i, role⟩ := entry
    obtain ⟨hall, hnodup⟩ := h
    obtain ⟨hi, hnodup⟩ := List.nodup_cons.1 hnodup
    obtain ⟨hiearlier, hnew⟩ := List.forall_mem_cons.1 hnew
    obtain ⟨r, hr, hrole, hnet⟩ := hall i role List.mem_cons_self
    rw [demandFree_cons_of_free hr hrole hnet hiearlier]
    refine ih ⟨fun j role' hj => hall j role' (List.mem_cons_of_mem _ hj), hnodup⟩ fun p hp => ?_
    refine List.not_mem_cons_of_ne_of_not_mem (fun heq => hi ?_) (hnew p hp)
    exact List.mem_map.2 ⟨p, hp, heq⟩

section WholeNet

variable {name : String} {driver : Option PinId} {sinks : List PinId}

/-- The pins that a new net is asked to have, each with the role that it needs. -/
def asked (driver : Option PinId) (sinks : List PinId) : List (PinId × PinRole) :=
  driver.toList.map (·, PinRole.driver) ++ sinks.map (·, PinRole.sink)

theorem map_fst_asked (driver : Option PinId) (sinks : List PinId) :
    (asked driver sinks).map Prod.fst = driver.toList ++ sinks := by
  simp [asked, Function.comp_def]

theorem mem_slots_iff {i : PinId} :
    some i ∈ driver :: sinks.map some ↔ i ∈ driver.toList ++ sinks := by
  cases driver <;> simp [eq_comm]

theorem mem_asked_of_slot {slot : Nat} {i : PinId}
    (h : (driver :: sinks.map some)[slot]? = some (some i)) :
    (i, slotRole slot) ∈ asked driver sinks := by
  cases slot with
  | zero =>
    obtain rfl : driver = some i := by simpa using h
    simp [asked, slotRole]
  | succ k =>
    have hi : i ∈ sinks := by
      rw [List.getElem?_cons_succ] at h
      simpa using List.mem_of_getElem? h
    simp [asked, slotRole, hi]

theorem eq_of_slots (hnodup : (driver.toList ++ sinks).Nodup) {i : PinId} {j k : Nat}
    (hj : (driver :: sinks.map some)[j]? = some (some i))
    (hk : (driver :: sinks.map some)[k]? = some (some i)) : j = k := by
  have hsinks : sinks.Nodup := (List.nodup_append.1 hnodup).2.1
  have hapart : ∀ {k : Nat}, driver = some i → sinks[k]? ≠ some i := by
    intro k hd hs
    exact (List.nodup_append.1 hnodup).2.2 i (by simp [hd]) i (List.mem_of_getElem? hs) rfl
  cases j with
  | zero =>
    cases k with
    | zero => rfl
    | succ k => exact absurd (by simpa using hk) (hapart (by simpa using hj))
  | succ j =>
    cases k with
    | zero => exact absurd (by simpa using hj) (hapart (by simpa using hk))
    | succ k =>
      have hj' : sinks[j]? = some i := by simpa using hj
      have hk' : sinks[k]? = some i := by simpa using hk
      obtain ⟨hlt, -⟩ := List.getElem?_eq_some_iff.1 hj'
      rw [(List.getElem?_inj hlt hsinks).1 (hj'.trans hk'.symm)]

theorem addNet_of_some {e : NetId} (h : n.net? name = some e) (driver : Option PinId)
    (sinks : List PinId) :
    n.addNet name driver sinks = .error (.refused (.duplicateNet name)) := by
  simp [addNet, h]

theorem addNet_of_refused {f : Failure} (h : n.net? name = none)
    (hfree : n.demandFree [] (asked driver sinks) = .error f) :
    n.addNet name driver sinks = .error f := by
  rw [asked] at hfree
  simp [addNet, h, hfree]

theorem addNet_eq_ok (hn : n.Consistent) (h : n.net? name = none)
    (hfree : n.Free (asked driver sinks)) :
    ∃ pinNets, Joins n.pins.nets pinNets ⟨n.nets.slots.size⟩ (driver :: sinks.map some) ∧
      n.addNet name driver sinks =
        .ok (⟨n.nets.slots.size⟩, n.withNet name (driver :: sinks.map some) pinNets) := by
  have hbound : ∀ i ∈ driver.toList ++ sinks, i.index < n.pins.nets.size := by
    intro i hi
    obtain ⟨slot, hslot⟩ := List.mem_iff_getElem?.1 (mem_slots_iff.2 hi)
    obtain ⟨r, hr, -⟩ := hfree.1 i _ (mem_asked_of_slot hslot)
    rw [hn.sized.pins.nets]
    exact (Pins.isLive_of_record? hr).lt_size
  obtain ⟨pinNets, hassign, hsize, hget⟩ :=
    exists_assignNet (some (⟨n.nets.slots.size⟩ : NetId)) hbound
  refine ⟨pinNets, ⟨hsize, by simpa only [mem_slots_iff] using hget⟩, ?_⟩
  have hdemand : n.demandFree [] (asked driver sinks) = .ok () :=
    demandFree_eq_ok hfree fun _ _ => List.not_mem_nil
  rw [asked] at hdemand
  have hold (x : StringId) : (n.nets.push ⟨x, [none]⟩).pins[n.nets.slots.size]? = some [none] := by
    rw [← hn.sized.nets.pins]
    exact Array.getElem?_push_size
  have hslot : writeSlot [none] 0 driver = .ok [driver] := rfl
  -- the new net gets its pins in a second write
  have hpush (x : StringId) : (n.nets.push ⟨x, [none]⟩).pins.setIfInBounds n.nets.slots.size
      (driver :: sinks.map some) = (n.nets.push ⟨x, driver :: sinks.map some⟩).pins := by
    rw [Nets.push_pins, ← hn.sized.nets.pins]
    exact Column.setIfInBounds_push ..
  simp only [addNet, h, demand_of_pos, ok_bind, hdemand, createNet_eq_of_none hn h, withNet_nets,
    withNet_pins_nets, Column.read_of_getElem? (hold _), liftM_ok, hslot, List.singleton_append,
    Column.write_of_getElem? (hold _), hassign, hpush, pure_eq_ok]
  rfl

/-- A net is added with free pins. -/
theorem grows_withNet_of_free (hn : n.Consistent) (h : n.net? name = none)
    (hfree : n.Free (asked driver sinks)) {pinNets : Column (Option NetId)}
    (hjoins : Joins n.pins.nets pinNets ⟨n.nets.slots.size⟩ (driver :: sinks.map some)) :
    n.Grows (n.withNet name (driver :: sinks.map some) pinNets) .net ∧
      (n.withNet name (driver :: sinks.map some) pinNets).store =
        n.store.addNet ⟨n.nets.slots.size⟩
          ⟨(n.strings.intern name).1, driver :: sinks.map some⟩ := by
  have hnodup := hfree.2
  rw [map_fst_asked] at hnodup
  refine grows_withNet hn h hjoins (List.cons_ne_nil _ _) (eq_of_slots hnodup) fun hi => ?_
  obtain ⟨r, hr, hrole, hnet⟩ := hfree.1 _ _ (mem_asked_of_slot hi)
  exact ⟨r, hr, hnet, hrole⟩

theorem addNet_of_none (hn : n.Consistent) (h : n.net? name = none)
    (hfree : n.Free (asked driver sinks)) :
    ∃ m x, n.addNet name driver sinks = .ok (⟨n.nets.slots.size⟩, m) ∧ n.Grows m .net ∧
      m.store = n.store.addNet ⟨n.nets.slots.size⟩ ⟨x, driver :: sinks.map some⟩ ∧
      m.strings.text? x = some name := by
  obtain ⟨pinNets, hjoins, hadd⟩ := addNet_eq_ok hn h hfree
  obtain ⟨hm, hstore⟩ := grows_withNet_of_free hn h hfree hjoins
  exact ⟨_, _, hadd, hm, hstore, n.strings.text?_intern name⟩

end WholeNet

end Netlist

end MappedNetlist
