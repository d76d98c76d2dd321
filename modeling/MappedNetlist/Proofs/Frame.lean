import MappedNetlist.Proofs.Reporting

/-!
# What a removal leaves alone

A removal is exact if it takes the entities that it names and no others. `Netlist.Retires` says so
of two netlists: the entities that are gone are neither live nor found any more, and every other
handle and key is as before, together with the names and the number of issued handles. What is kept
of the remaining entities is said by their records. A record is untouched by a loss unless it tells
of something that was lost: a port of its pins, a pin of its net, a net of its pins.
-/

namespace MappedNetlist

/-! ## Records and keys of every kind -/

/-- What is kept of a live entity. -/
abbrev Kind.Record : Kind → Type
  | .block => BlockRecord
  | .port => PortRecord
  | .pin => PinRecord
  | .net => NetRecord

/-- What an entity is found by. -/
abbrev Kind.Key : Kind → Type
  | .block => StringId
  | .port => PortKey
  | .pin => BitKey
  | .net => StringId

/-- The key that a record stands under. -/
def Kind.keyOf : (k : Kind) → k.Record → k.Key
  | .block, r => BlockRecord.name r
  | .port, r => PortRecord.key r
  | .pin, r => PinRecord.key r
  | .net, r => NetRecord.name r

/-- The record of an entity of any kind. -/
def Store.record? (s : Store) : {k : Kind} → Handle k → Option k.Record
  | .block, b => s.blocks b
  | .port, p => s.ports p
  | .pin, i => s.pins i
  | .net, e => s.nets e

/-- What the index holds under a key of any kind. -/
def Index.find? (x : Index) : (k : Kind) → k.Key → Option (Handle k)
  | .block, name => x.blocks[(name : StringId)]?
  | .port, key => x.ports[(key : PortKey)]?
  | .pin, key => x.pins[(key : BitKey)]?
  | .net, name => x.nets[(name : StringId)]?

/-- The other handle, of whatever kind, is the same. -/
inductive Handle.Is {k : Kind} (a : Handle k) : {l : Kind} → Handle l → Prop
  | refl : a.Is a

@[simp] theorem Handle.is_iff {k : Kind} {a b : Handle k} : a.Is b ↔ b = a :=
  ⟨fun h => by cases h; rfl, fun h => h ▸ .refl⟩

theorem Handle.not_is {k l : Kind} {a : Handle k} {b : Handle l} (h : k ≠ l) : ¬a.Is b := by
  rintro ⟨⟩
  exact h rfl

section Index

variable {x y : Index} {s : Store}

theorem Index.Exact.find?_eq_some_iff (h : x.Exact s) {k : Kind} {key : k.Key} {a : Handle k} :
    x.find? k key = some a ↔ (s.record? a).map k.keyOf = some key := by
  cases k with
  | block => exact h.blocks key a
  | port => exact h.ports key a
  | pin => exact h.pins key a
  | net => exact h.nets key a

end Index

namespace Store

variable {s : Store} {issued : Nat} {d : Loss}

/-- What is left keeps its key. -/
theorem map_keyOf_without {k : Kind} (a : Handle k) : ((s.without d).record? a).map k.keyOf =
    if d.takes a then none else (s.record? a).map k.keyOf := by
  cases k with
  | block => cases h : d.blocks a <;> simp [record?, Loss.takes, h]
  | port =>
    cases h : d.ports a <;> cases hr : s.ports a <;>
      simp [record?, Loss.takes, h, hr, Kind.keyOf, PortRecord.key]
  | pin =>
    cases h : d.pins a <;> cases hr : s.pins a <;>
      simp [record?, Loss.takes, h, hr, Kind.keyOf, PinRecord.key]
  | net =>
    cases h : d.nets a <;> cases hr : s.nets a <;>
      simp [record?, Loss.takes, h, hr, Kind.keyOf]

theorem without_blocks_of_kept {b : BlockId} (hb : d.blocks b = false) :
    (s.without d).blocks b = s.blocks b := by
  simp [hb]

/-- A port that keeps its pins is untouched. -/
theorem Coherent.without_ports_of_kept (hs : s.Coherent issued) {p : PortId}
    (hp : d.ports p = false)
    (hpins : ∀ {i r}, s.pins i = some r → r.port = p → d.pins i = false) :
    (s.without d).ports p = s.ports p := by
  cases hr : s.ports p with
  | none => simp [hp, hr]
  | some r =>
    have hclear : r.clear d.pins = r := by
      refine PortRecord.ext rfl rfl rfl rfl (clear_eq_self fun i hi => ?_)
      obtain ⟨bit, hbit⟩ := List.mem_iff_getElem?.1 hi
      obtain ⟨q, hq, hport, -⟩ := hs.filled hr hbit
      exact hpins hq hport
    simp [hp, hr, hclear]

/-- A pin that keeps its net is untouched. -/
theorem without_pins_of_kept {i : PinId} (hi : d.pins i = false)
    (hnet : ∀ {r e}, s.pins i = some r → r.net = some e → d.links i = false ∧ d.nets e = false) :
    (s.without d).pins i = s.pins i := by
  cases hr : s.pins i with
  | none => simp [hi, hr]
  | some r =>
    have hrelease : r.release (d.links i) d.nets = r := by
      refine PinRecord.ext rfl rfl ?_ rfl
      rw [PinRecord.release_net]
      cases he : r.net with
      | none => simp
      | some e =>
        obtain ⟨hlink, hkept⟩ := hnet hr he
        simp [hlink, hkept, Option.filter]
    simp [hi, hr, hrelease]

/-- A net that keeps its pins is untouched. -/
theorem Coherent.without_nets_of_kept (hs : s.Coherent issued) {e : NetId} (he : d.nets e = false)
    (hpins : ∀ {i r}, s.pins i = some r → r.net = some e →
      d.pins i = false ∧ d.links i = false) : (s.without d).nets e = s.nets e := by
  cases hr : s.nets e with
  | none => simp [he, hr]
  | some r =>
    have hclear : r.clear (fun i => d.pins i || d.links i) = r := by
      refine NetRecord.ext rfl (clear_eq_self fun i hi => ?_)
      obtain ⟨slot, hslot⟩ := List.mem_iff_getElem?.1 hi
      obtain ⟨q, hq, hnet, -⟩ := hs.attached hr hslot
      obtain ⟨hpin, hlink⟩ := hpins hq hnet
      rw [hpin, hlink, Bool.or_false]
    simp [he, hr, hclear]

end Store

namespace Netlist

variable {n m : Netlist} {d : Loss}

theorem Sized.isLive_iff (hn : n.Sized) {k : Kind} {a : Handle k} :
    n.IsLive a ↔ ∃ r, n.store.record? a = some r := by
  cases k
  · exact hn.isLive_block_iff
  · exact hn.isLive_port_iff
  · exact hn.isLive_pin_iff
  · exact hn.isLive_net_iff

/-- What the index finds is live. -/
theorem Consistent.isLive_of_find? (hn : n.Consistent) {k : Kind} {key : k.Key} {a : Handle k}
    (h : n.index.find? k key = some a) : n.IsLive a := by
  obtain ⟨r, hr, -⟩ := Option.map_eq_some_iff.1 (hn.indexed.find?_eq_some_iff.1 h)
  exact hn.sized.isLive_iff.2 ⟨r, hr⟩

/-- `m` is `n` without the entities that are `gone`. -/
structure Retires (n m : Netlist) (gone : {k : Kind} → Handle k → Prop) : Prop where
  /-- What is gone is not live any more, and no other handle stops being live. -/
  isLive_iff {k : Kind} (a : Handle k) : m.IsLive a ↔ n.IsLive a ∧ ¬gone a
  /-- What is gone is found under no key any more, and everything else is under its key. -/
  find?_eq_some_iff {k : Kind} (key : k.Key) (a : Handle k) :
    m.index.find? k key = some a ↔ n.index.find? k key = some a ∧ ¬gone a
  name : m.name = n.name
  blockNames : m.blocks.names = n.blocks.names
  portNames : m.ports.names = n.ports.names
  netNames : m.nets.names = n.nets.names
  strings : m.strings = n.strings
  issued : m.issued = n.issued

/-- After a loss the entities are gone that it takes. -/
theorem Shrinks.retires (hn : n.Consistent) (h : n.Shrinks m d)
    {gone : {k : Kind} → Handle k → Prop}
    (hgone : ∀ {k : Kind} {a : Handle k}, n.IsLive a → (gone a ↔ d.takes a = true)) :
    n.Retires m gone where
  isLive_iff a := by
    rw [h.isLive_iff hn.sized]
    exact and_congr_right fun ha => by rw [hgone ha, Bool.not_eq_true]
  find?_eq_some_iff key a := by
    have hkey : m.index.find? _ key = some a ↔
        n.index.find? _ key = some a ∧ d.takes a = false := by
      rw [h.consistent.indexed.find?_eq_some_iff, hn.indexed.find?_eq_some_iff, h.store,
        Store.map_keyOf_without]
      cases d.takes a <;> simp
    rw [hkey]
    exact and_congr_right fun ha => by rw [hgone (hn.isLive_of_find? ha), Bool.not_eq_true]
  name := h.remains.name
  blockNames := by rw [h.remains.blocks]
  portNames := by rw [h.remains.ports]
  netNames := by rw [h.remains.nets]
  strings := h.strings
  issued := congrArg Tally.of (funext h.issued)

/-- A removal that changes anything marks the netlist. -/
theorem Shrinks.dirty_of_ne (h : n.Shrinks m d) (hne : m ≠ n) : m.dirty = true :=
  (h.changed.resolve_left hne).1

end Netlist

end MappedNetlist
