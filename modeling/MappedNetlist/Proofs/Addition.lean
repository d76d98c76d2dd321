import MappedNetlist.Proofs.Frame
import MappedNetlist.Proofs.Invariance

/-!
# What a creation adds, and what it leaves alone

A creation under a free key adds one entity and nothing else. `Netlist.Gains` says so of two
netlists: one handle more is issued and live and is found under its key, every other handle and key is
as before, and so are the texts that were interned. What is kept of the other entities is said by
their records, and only those that have to know of the new one are touched. The block of a new port
lists it last under its class. The port of a new pin has it at a bit that was empty, and its net has
it in the first slot if it drives the net, and else in a slot of its own at the end.
-/

namespace MappedNetlist

/-- Interning appends one text at most. -/
theorem StringTable.texts_intern_cases (t : StringTable) (s : String) :
    (t.intern s).2.texts = t.texts ∨ ∃ text, (t.intern s).2.texts = t.texts ++ [text] := by
  rw [texts_intern]
  split
  · exact .inl rfl
  · exact .inr ⟨s, rfl⟩

theorem Slots.live_push {k : Kind} (s : Slots k) (h : Handle k) :
    live (s.push (some h)) = s.live ++ [h] := by
  simp [live]

/-! ## Records in grown stores -/

namespace Store

variable {s : Store} {k : Kind} {x : Handle k}

theorem record?_addBlock {b : BlockId} {r : BlockRecord} (hx : ¬b.Is x) :
    (s.addBlock b r).record? x = s.record? x := by
  cases k with
  | block => exact Function.update_of_ne (fun h => hx (Handle.is_iff.2 h)) ..
  | _ => rfl

theorem record?_addPort {p : PortId} {r : PortRecord} (hx : ¬p.Is x) (howner : ¬r.owner.Is x) :
    (s.addPort p r).record? x = s.record? x := by
  cases k with
  | block => exact modify_of_ne _ _ fun h => howner (Handle.is_iff.2 h)
  | port => exact Function.update_of_ne (fun h => hx (Handle.is_iff.2 h)) ..
  | _ => rfl

theorem record?_addPin {i : PinId} {r : PinRecord} (hx : ¬i.Is x) (hport : ¬r.port.Is x)
    (hnet : ∀ e, r.net = some e → ¬e.Is x) : (s.addPin i r).record? x = s.record? x := by
  cases k with
  | block => rfl
  | port => exact modify_of_ne _ _ fun h => hport (Handle.is_iff.2 h)
  | pin => exact Function.update_of_ne (fun h => hx (Handle.is_iff.2 h)) ..
  | net =>
    have hne : r.net ≠ some x := fun h => hnet x h .refl
    simp only [record?, addPin_nets_apply, if_neg hne, Option.map_id']

/-- No pin is told of a net without pins. -/
theorem record?_addNet_of_empty {e : NetId} {name : StringId} (hx : ¬e.Is x) :
    (s.addNet e ⟨name, [none]⟩).record? x = s.record? x := by
  cases k with
  | net => exact Function.update_of_ne (fun h => hx (Handle.is_iff.2 h)) ..
  | pin =>
    have hjoin (q : PinRecord) : q.join x e [none] = q := by simp [PinRecord.join]
    simp only [record?, addNet_pins, hjoin, Option.map_id']
  | _ => rfl

theorem map_keyOf_addPort {p : PortId} {r : PortRecord} (hx : ¬p.Is x) :
    ((s.addPort p r).record? x).map k.keyOf = (s.record? x).map k.keyOf := by
  cases k with
  | block =>
    refine congrFun (map_modify ?_) x
    exact fun _ => rfl
  | _ => rw [record?_addPort hx (Handle.not_is (by simp))]

theorem map_keyOf_addPin {i : PinId} {r : PinRecord} (hx : ¬i.Is x) :
    ((s.addPin i r).record? x).map k.keyOf = (s.record? x).map k.keyOf := by
  cases k with
  | port =>
    refine congrFun (map_modify ?_) x
    exact fun _ => rfl
  | net =>
    simp only [record?, addPin_nets_apply, Option.map_map]
    congr 1
    funext t
    simp only [Function.comp_apply, Kind.keyOf]
    split <;> rfl
  | _ => rw [record?_addPin hx (Handle.not_is (by simp)) fun _ _ => Handle.not_is (by simp)]

end Store

namespace Netlist

variable {n m : Netlist}

/-- `m` is `n` with one more entity, `a`. -/
structure Gains (n m : Netlist) {k : Kind} (a : Handle k) : Prop where
  /-- The new handle is the next one of its kind. -/
  next : a.index = n.issued.get k
  issued (l : Kind) : m.issued.get l = n.issued.get l + if l = k then 1 else 0
  living (l : Kind) : m.living.get l = n.living.get l + if l = k then 1 else 0
  isLive_iff {l : Kind} (x : Handle l) : m.IsLive x ↔ n.IsLive x ∨ a.Is x
  /-- The new entity is found under its key, and everything else under the key that it had. -/
  find?_eq_some_iff {l : Kind} (key : l.Key) (x : Handle l) : m.index.find? l key = some x ↔
    n.index.find? l key = some x ∨ a.Is x ∧ (m.store.record? x).map l.keyOf = some key
  /-- No handle of a text changes its meaning. -/
  string {x : StringId} {text : String} : n.string x = .ok text → m.string x = .ok text
  texts : m.strings.texts = n.strings.texts ∨
    ∃ text, m.strings.texts = n.strings.texts ++ [text]
  name : m.name = n.name
  dirty : m.dirty = n.dirty

/-- `m` is `n` with the new block `b`, which has no ports. -/
structure GainsBlock (n m : Netlist) (b : BlockId) (name : String) (model : Model)
    (table : TruthTable) : Prop where
  gains : n.Gains m b
  found : m.block? name = some b
  blockName : m.blockName b = .ok name
  blockModel : m.blockModel b = .ok model
  blockTable : m.blockTable b = .ok table
  portsOfClass (c : PortClass) : m.portsOfClass c b = .ok []
  record {k : Kind} {x : Handle k} : ¬b.Is x → m.store.record? x = n.store.record? x

/-- `m` is `n` with the new port `p`, as the model of its block declares it, and without pins. -/
structure GainsPort (n m : Netlist) (p : PortId) (b : BlockId) (name : String) (decl : PortDecl) :
    Prop where
  gains : n.Gains m p
  declared : ∃ model, n.blockModel b = .ok model ∧ model.port? name = some decl
  found : m.port? b name = .ok (some p)
  portBlock : m.portBlock p = .ok b
  portName : m.portName p = .ok name
  portWidth : m.portWidth p = .ok decl.width.toNat
  portClass : m.portClass p = .ok decl.portClass
  portPins : m.portPins p = .ok []
  /-- The block lists the port last under its class. -/
  block : ∃ r, n.store.blocks b = some r ∧ m.store.blocks b = some { r with
    listed := Function.update r.listed decl.portClass (r.listed decl.portClass ++ [p]) }
  record {k : Kind} {x : Handle k} : ¬p.Is x → ¬b.Is x → m.store.record? x = n.store.record? x

/-- `m` is `n` with the new pin `i` at a bit of the port `p`, and on a net if one is given. -/
structure GainsPin (n m : Netlist) (i : PinId) (p : PortId) (bit : Nat) (net : Option NetId)
    (role : PinRole) : Prop where
  gains : n.Gains m i
  found : m.pin? p bit = .ok (some i)
  pinPort : m.pinPort i = .ok p
  pinBit : m.pinBit i = .ok bit
  pinNet : m.pinNet i = .ok net
  pinRole : m.pinRole i = .ok role
  strings : m.strings = n.strings
  /-- The pin fills a bit that was empty. -/
  port : ∃ r, n.store.ports p = some r ∧ r.pins[bit]? = some none ∧
    m.store.ports p = some { r with pins := r.pins.set bit (some i) }
  /-- A pin that drives its net fills the first slot, which was empty. -/
  driven {e : NetId} : net = some e → role = .driver → ∃ t, n.store.nets e = some t ∧
    t.pins[0]? = some none ∧ m.store.nets e = some { t with pins := t.pins.set 0 (some i) }
  /-- Any other pin of the net gets a new slot at the end. -/
  sunk {e : NetId} : net = some e → role = .sink → ∃ t, n.store.nets e = some t ∧
    m.store.nets e = some { t with pins := t.pins ++ [some i] }
  record {k : Kind} {x : Handle k} : ¬i.Is x → ¬p.Is x → (∀ e, net = some e → ¬e.Is x) →
    m.store.record? x = n.store.record? x

/-- `m` is `n` with the new net `e`, which has no driver and no sinks. -/
structure GainsNet (n m : Netlist) (e : NetId) (name : String) : Prop where
  gains : n.Gains m e
  found : m.net? name = some e
  netName : m.netName e = .ok name
  netDriver : m.netDriver e = .ok none
  netSinks : m.netSinks e = .ok []
  record {k : Kind} {x : Handle k} : ¬e.Is x → m.store.record? x = n.store.record? x

/-! ## One more entity -/

/-- The netlist keeps its own name, and interns one text at most. -/
def Interns (n m : Netlist) : Prop :=
  m.name = n.name ∧ (m.strings.texts = n.strings.texts ∨
    ∃ text, m.strings.texts = n.strings.texts ++ [text])

/-- A netlist that grew gained what it issued, if the other entities keep their keys. -/
theorem Grows.gains (hn : n.Consistent) {k : Kind} (h : n.Grows m k)
    (hkeys : ∀ {l : Kind} {x : Handle l}, ¬Handle.Is (⟨(n.slots k).size⟩ : Handle k) x →
      (m.store.record? x).map l.keyOf = (n.store.record? x).map l.keyOf)
    (hrest : n.Interns m) : n.Gains m (⟨(n.slots k).size⟩ : Handle k) where
  next := by rw [Netlist.issued, Tally.get_of]
  issued l := by
    rw [Netlist.issued, Netlist.issued, Tally.get_of, Tally.get_of, h.issued]
    split <;> rfl
  living l := by
    rw [Netlist.living, Netlist.living, Tally.get_of, Tally.get_of, live, live, h.slots]
    split
    · rw [Slots.live_push, List.length_append, List.length_singleton]
    · rfl
  isLive_iff {l} x := by
    rw [IsLive, IsLive, h.slots]
    split
    · next hl =>
      subst hl
      rw [Slots.isLive_push, Handle.is_iff, or_comm]
    · next hl => simp [Handle.not_is (Ne.symm hl)]
  find?_eq_some_iff {l} key x := by
    rw [h.consistent.indexed.find?_eq_some_iff, hn.indexed.find?_eq_some_iff]
    by_cases hx : Handle.Is (⟨(n.slots k).size⟩ : Handle k) x
    · have hnew : n.store.record? x = none := by
        cases hx
        cases hr : n.store.record? (⟨(n.slots k).size⟩ : Handle k) with
        | none => rfl
        | some r => exact absurd (hn.sized.isLive_iff.2 ⟨r, hr⟩) (Slots.not_isLive_size _)
      simp [hx, hnew]
    · simp [hx, hkeys hx]
  string hx := string_eq_ok_iff.2 (h.strings (string_eq_ok_iff.1 hx))
  texts := hrest.2
  name := hrest.1
  dirty := h.dirty

/-! ## The rest of the netlist -/

theorem interns_createBlock (n : Netlist) (name : String) (model : Model) (table : TruthTable) :
    n.Interns (n.createBlock name model table).2 := by
  unfold createBlock
  dsimp only
  split <;> exact ⟨rfl, n.strings.texts_intern_cases name⟩

theorem interns_createNet (n : Netlist) (name : String) : n.Interns (n.createNet name).2 := by
  unfold createNet
  dsimp only
  split <;> exact ⟨rfl, n.strings.texts_intern_cases name⟩

theorem interns_createPort {b : BlockId} {name : String} {p : PortId}
    (h : n.createPort b name = .ok (p, m)) : n.Interns m := by
  rw [createPort, demand_bind_eq_ok_iff] at h
  obtain ⟨-, h⟩ := h
  split at h
  · cases h
    exact ⟨rfl, .inl rfl⟩
  · obtain ⟨model, -, h⟩ := bind_eq_ok_iff.1 h
    split at h
    · cases h
    · next decl _ =>
      obtain ⟨lists, -, h⟩ := bind_eq_ok_iff.1 (liftM_eq_ok_iff.1 h)
      cases h
      exact ⟨rfl, n.strings.texts_intern_cases decl.name⟩

/-! ## Creations -/

section Creations

variable (hn : n.Consistent) {name : String}
include hn

theorem Consistent.gainsBlock {model : Model} {table : TruthTable} {b : BlockId}
    (hfree : ∀ x, n.blockName x ≠ .ok name) (h : n.createBlock name model table = (b, m)) :
    n.GainsBlock m b name model table := by
  have hrest := interns_createBlock n name model table
  obtain ⟨_, x, hcreate, hm, hstore, htext⟩ :=
    createBlock_of_none hn (hn.block?_eq_none_iff.2 hfree) model table
  rw [h] at hrest
  cases h.symm.trans hcreate
  have hb : m.store.blocks ⟨n.blocks.slots.size⟩ = some ⟨x, model, table, fun _ => []⟩ := by
    rw [hstore]
    exact Function.update_self ..
  have hrecord {k : Kind} {y : Handle k} (hy : ¬Handle.Is (⟨n.blocks.slots.size⟩ : BlockId) y) :
      m.store.record? y = n.store.record? y := by
    rw [hstore, Store.record?_addBlock hy]
  exact {
    gains := hm.gains hn (fun hy => by rw [hrecord hy]) hrest
    found := hm.consistent.block?_eq_some_iff.2 ⟨_, hb, htext⟩
    blockName := (blockName_eq hb).trans (string_eq_ok htext)
    blockModel := blockModel_eq_ok hb
    blockTable := blockTable_eq_ok hb
    portsOfClass := portsOfClass_eq_ok hb
    record := hrecord }

theorem Consistent.gainsPort {b : BlockId} {p : PortId}
    (hfree : ∀ x, n.portBlock x = .ok b → n.portName x ≠ .ok name)
    (h : n.createPort b name = .ok (p, m)) : ∃ decl, n.GainsPort m p b name decl := by
  have hindex := hn.indexedPort?_eq_none_iff.2 hfree
  have hrest := interns_createPort h
  have hl : n.IsLive b := by
    by_contra hl
    rw [createPort_of_dead hl] at h
    cases h
  obtain ⟨r, hr⟩ := hn.sized.isLive_block_iff.1 hl
  obtain ⟨decl, hdecl⟩ : ∃ decl, r.model.port? name = some decl := by
    rw [← Option.isSome_iff_exists, Option.isSome_iff_ne_none]
    intro hdecl
    rw [createPort_of_undeclared hr hindex hdecl] at h
    cases h
  obtain ⟨_, x, hcreate, hm, hstore, htext⟩ := createPort_of_none hn hr hindex hdecl
  cases h.symm.trans hcreate
  have hp : m.store.ports ⟨n.ports.slots.size⟩ = some ⟨x, b, decl.width.toNat, decl.portClass,
      List.replicate decl.width.toNat none⟩ := by
    rw [hstore]
    exact Function.update_self ..
  have hb : m.store.blocks b = some (r.list decl.portClass ⟨n.ports.slots.size⟩) := by
    rw [hstore, Store.addPort_blocks, modify_self, hr, Option.map_some]
  refine ⟨decl, {
    gains := hm.gains hn (fun hy => hstore ▸ Store.map_keyOf_addPort hy) hrest
    declared := ⟨r.model, blockModel_eq_ok hr, hdecl⟩
    found := ?_
    portBlock := portBlock_eq_ok hp
    portName := (portName_eq hp).trans (string_eq_ok htext)
    portWidth := portWidth_eq_ok hp
    portClass := portClass_eq_ok hp
    portPins := ?_
    block := ⟨r, hr, hb⟩
    record := fun hy howner => by rw [hstore, Store.record?_addPort hy howner] }⟩
  · have hfound := hm.consistent.indexedPort?_eq_some_iff.2 ⟨_, hp, rfl, htext⟩
    rw [port?, require_eq_ok (Blocks.isLive_of_record? hb), ok_bind, hfound, pure_eq_ok]
  · rw [portPins_eq_ok hp]
    simp

/-- A pin that could be created at a bit without one had a live port that has the bit, and room on a
live net if one is given. -/
theorem Consistent.of_createPin {p : PortId} {bit : Nat} {net : Option NetId} {role : PinRole}
    {i : PinId} (hfree : ∀ x, n.pinPort x = .ok p → n.pinBit x ≠ .ok bit)
    (h : n.createPin p bit net role = .ok (i, m)) : ∃ r, n.store.ports p = some r ∧
      bit < r.width ∧ (∀ e, net = some e → n.IsLive e) ∧
      n.index.pins[BitKey.mk p bit]? = none ∧ n.Vacant net role := by
  have hindex := hn.index_pins_eq_none_iff.2 hfree
  have hl : n.IsLive p := by
    by_contra hl
    rw [createPin_of_dead hl] at h
    cases h
  obtain ⟨r, hr⟩ := hn.sized.isLive_port_iff.1 hl
  have hbit : bit < r.width := by
    by_contra hbit
    rw [createPin_of_width_le hr (Nat.not_lt.1 hbit)] at h
    cases h
  refine ⟨r, hr, hbit, ?_, hindex, ?_⟩
  · rintro e rfl
    by_contra he
    rw [createPin_of_deadNet hr hbit he] at h
    cases h
  · by_contra hvacant
    obtain ⟨rfl, e, t, j, rfl, ht, hj⟩ := hn.exists_driver hvacant
    rw [createPin_of_driven hr hbit hindex ht hj] at h
    cases h

theorem Consistent.gainsPin {p : PortId} {bit : Nat} {net : Option NetId} {role : PinRole}
    {i : PinId} (hfree : ∀ x, n.pinPort x = .ok p → n.pinBit x ≠ .ok bit)
    (h : n.createPin p bit net role = .ok (i, m)) : n.GainsPin m i p bit net role := by
  obtain ⟨r, hr, hbit, hnet, hindex, hvacant⟩ := hn.of_createPin hfree h
  obtain ⟨hm, hstore⟩ := grows_withPin hn hr hbit hnet hindex hvacant
  have hcreate := createPin_eq_ok hn hr hbit hnet hindex hvacant
  rw [h, Except.ok.injEq, Prod.mk.injEq] at hcreate
  obtain ⟨rfl, hwith⟩ := hcreate
  rw [← hwith] at hm hstore
  have hi : m.store.pins ⟨n.pins.slots.size⟩ = some ⟨p, bit, net, role⟩ := by
    rw [hstore]
    exact Function.update_self ..
  have hp : m.store.ports p = some (r.fill bit ⟨n.pins.slots.size⟩) := by
    rw [hstore, Store.addPin_ports, modify_self, hr, Option.map_some]
  have hplug {e : NetId} (he : net = some e) : ∃ t, n.store.nets e = some t ∧
      m.store.nets e = some (t.plug ⟨n.pins.slots.size⟩ role) := by
    obtain ⟨t, ht⟩ := hn.sized.isLive_net_iff.1 (hnet e he)
    refine ⟨t, ht, ?_⟩
    rw [hstore]
    exact Store.addPin_nets_eq_some_iff.2 ⟨t, ht, (if_pos he).symm⟩
  exact {
    gains := hm.gains hn (fun hy => hstore ▸ Store.map_keyOf_addPin hy)
      ⟨hwith ▸ rfl, hwith ▸ .inl rfl⟩
    found := by
      have hfound := hm.consistent.index_pins_eq_some_iff.2 ⟨_, hi, rfl, rfl⟩
      have hlt : bit < (r.fill bit ⟨n.pins.slots.size⟩).width := hbit
      rw [pin?, hasBit_eq_ok hp, ok_bind, if_pos (decide_eq_true hlt), hfound, pure_eq_ok]
    pinPort := pinPort_eq_ok hi
    pinBit := pinBit_eq_ok hi
    pinNet := pinNet_eq_ok hi
    pinRole := pinRole_eq_ok hi
    strings := hwith ▸ rfl
    port := ⟨r, hr, hn.getElem?_of_index_pins hr hbit hindex, hp⟩
    driven := fun he hrole => by
      obtain ⟨t, ht, hmt⟩ := hplug he
      subst hrole
      exact ⟨t, ht, hvacant he ht rfl, hmt⟩
    sunk := fun he hrole => by
      obtain ⟨t, ht, hmt⟩ := hplug he
      subst hrole
      exact ⟨t, ht, hmt⟩
    record := fun hy hport hnets => hstore ▸ Store.record?_addPin hy hport hnets }

theorem Consistent.gainsNet {e : NetId} (hfree : ∀ x, n.netName x ≠ .ok name)
    (h : n.createNet name = (e, m)) : n.GainsNet m e name := by
  have hrest := interns_createNet n name
  obtain ⟨_, x, hcreate, hm, hstore, htext⟩ := createNet_of_none hn (hn.net?_eq_none_iff.2 hfree)
  rw [h] at hrest
  cases h.symm.trans hcreate
  have he : m.store.nets ⟨n.nets.slots.size⟩ = some ⟨x, [none]⟩ := by
    rw [hstore]
    exact Function.update_self ..
  have hrecord {k : Kind} {y : Handle k} (hy : ¬Handle.Is (⟨n.nets.slots.size⟩ : NetId) y) :
      m.store.record? y = n.store.record? y := by
    rw [hstore, Store.record?_addNet_of_empty hy]
  exact {
    gains := hm.gains hn (fun hy => by rw [hrecord hy]) hrest
    found := hm.consistent.net?_eq_some_iff.2 ⟨_, he, htext⟩
    netName := (netName_eq he).trans (string_eq_ok htext)
    netDriver := netDriver_eq_ok he
    netSinks := netSinks_eq_ok he
    record := hrecord }

end Creations

/-- If a creation succeeds under a key that no live entity has, it adds one entity as it was asked for,
and disturbs nothing. -/
theorem creations_exact {n : Netlist} (hn : n.Reachable) :
    (∀ {name model table b m}, (∀ x, n.blockName x ≠ .ok name) →
      n.createBlock name model table = (b, m) → n.GainsBlock m b name model table) ∧
    (∀ {b name p m}, (∀ x, n.portBlock x = .ok b → n.portName x ≠ .ok name) →
      n.createPort b name = .ok (p, m) → ∃ decl, n.GainsPort m p b name decl) ∧
    (∀ {p bit net role i m}, (∀ x, n.pinPort x = .ok p → n.pinBit x ≠ .ok bit) →
      n.createPin p bit net role = .ok (i, m) → n.GainsPin m i p bit net role) ∧
    ∀ {name e m}, (∀ x, n.netName x ≠ .ok name) → n.createNet name = (e, m) →
      n.GainsNet m e name :=
  ⟨hn.consistent.gainsBlock, hn.consistent.gainsPort, hn.consistent.gainsPin,
    hn.consistent.gainsNet⟩

/-- The net has lost its driver, and the name of the second block is free again. -/
def vacated : List Edit :=
  let cell : Model := { name := "cell", ports := [.output "o" 1, .input "i" 2] }
  [.createBlock "a" cell [], .createBlock "b" cell [], .createPort ⟨0⟩ "o", .createPort ⟨1⟩ "i",
    .createNet "x", .createPin ⟨0⟩ 0 (some ⟨0⟩) .driver, .createPin ⟨1⟩ 0 (some ⟨0⟩) .sink,
    .removePin ⟨0⟩, .removeBlock ⟨1⟩]

theorem creations_exact_vacated :
    (∃ m, (Edit.run (.new "top") vacated).createBlock "b" ⟨"pad", []⟩ [] = (⟨2⟩, m) ∧
      (Edit.run (.new "top") vacated).GainsBlock m ⟨2⟩ "b" ⟨"pad", []⟩ []) ∧
    (∃ m decl, (Edit.run (.new "top") vacated).createPort ⟨0⟩ "i" = .ok (⟨2⟩, m) ∧
      (Edit.run (.new "top") vacated).GainsPort m ⟨2⟩ ⟨0⟩ "i" decl) ∧
    (∃ m, (Edit.run (.new "top") vacated).createPin ⟨0⟩ 0 (some ⟨0⟩) .driver = .ok (⟨2⟩, m) ∧
      (Edit.run (.new "top") vacated).GainsPin m ⟨2⟩ ⟨0⟩ 0 (some ⟨0⟩) .driver) ∧
    ∃ m, (Edit.run (.new "top") vacated).createNet "b" = (⟨1⟩, m) ∧
      (Edit.run (.new "top") vacated).GainsNet m ⟨1⟩ "b" := by
  have hreachable := (Reachable.new "top").run vacated
  have hn := hreachable.consistent
  obtain ⟨hblock, hport, hpin, hnet⟩ := creations_exact hreachable
  refine ⟨⟨_, rfl, hblock (hn.block?_eq_none_iff.1 rfl) rfl⟩, ?_, ?_,
    ⟨_, rfl, hnet (hn.net?_eq_none_iff.1 rfl) rfl⟩⟩
  · obtain ⟨decl, hdecl⟩ := @hport ⟨0⟩ "i" ⟨2⟩ _ (hn.indexedPort?_eq_none_iff.1 rfl) rfl
    exact ⟨_, decl, rfl, hdecl⟩
  · exact ⟨_, rfl, hpin (hn.index_pins_eq_none_iff.1 rfl) rfl⟩

end Netlist

end MappedNetlist
