import MappedNetlist.Proofs.Content
import MappedNetlist.Proofs.Idempotence
import MappedNetlist.Proofs.Redundancy

/-!
# Compaction leaves nothing behind

After a compaction nothing tells of what is gone (`Netlist.Purges`). Every column has one entry for each
survivor and the index has one, too; no list has an entry for what was removed, and no slot for a sink is
empty. A text stays in the table if and only if it is the name of a survivor, no matter which other
entities bore it, so it is enough to know that the survivors keep their names: the texts after the
compaction are the names in a tidy netlist (`Tidy.mem_texts_iff`), and those are the names of the
survivors before (`Compacts.bears_iff`).
-/

namespace MappedNetlist

/-- The number of entries for the entities of a kind. -/
def Index.size (x : Index) : Kind → Nat
  | .block => x.blocks.size
  | .port => x.ports.size
  | .pin => x.pins.size
  | .net => x.nets.size

namespace Netlist

variable {n t m : Netlist}

/-! ## Names of every kind -/

/-- The name of an entity. A pin has none. -/
def label (n : Netlist) : {k : Kind} → Handle k → Except Fault (Option String)
  | .block, b => do return some (← n.blockName b)
  | .port, p => do return some (← n.portName p)
  | .pin, i => do
    n.require i
    return none
  | .net, e => do return some (← n.netName e)

/-- The text is the name of one of the chosen entities. -/
def Bears (n : Netlist) (chosen : (k : Kind) → List (Handle k)) (text : String) : Prop :=
  ∃ k, ∃ x ∈ chosen k, n.label x = .ok (some text)

section Label

variable {text : String}

@[simp] theorem label_block_iff {b : BlockId} :
    n.label b = .ok (some text) ↔ n.blockName b = .ok text := by
  simp [label, bind_eq_ok_iff]

@[simp] theorem label_port_iff {p : PortId} :
    n.label p = .ok (some text) ↔ n.portName p = .ok text := by
  simp [label, bind_eq_ok_iff]

theorem label_pin_ne {i : PinId} : n.label i ≠ .ok (some text) := by
  simp [label, bind_eq_ok_iff]

@[simp] theorem label_net_iff {e : NetId} :
    n.label e = .ok (some text) ↔ n.netName e = .ok text := by
  simp [label, bind_eq_ok_iff]

/-- What has a name is live, and the table has its name. -/
theorem Sized.of_label (hn : n.Sized) {k : Kind} {x : Handle k} (h : n.label x = .ok (some text)) :
    x ∈ n.live k ∧ text ∈ n.strings.texts := by
  rw [hn.mem_live_iff]
  cases k with
  | block =>
    obtain ⟨r, hr, hname⟩ := (blockName_eq_ok_iff hn).1 (label_block_iff.1 h)
    exact ⟨hn.isLive_block_iff.2 ⟨r, hr⟩, List.mem_of_getElem? hname⟩
  | port =>
    obtain ⟨r, hr, hname⟩ := (portName_eq_ok_iff hn).1 (label_port_iff.1 h)
    exact ⟨hn.isLive_port_iff.2 ⟨r, hr⟩, List.mem_of_getElem? hname⟩
  | pin => exact absurd h label_pin_ne
  | net =>
    obtain ⟨r, hr, hname⟩ := (netName_eq_ok_iff hn).1 (label_net_iff.1 h)
    exact ⟨hn.isLive_net_iff.2 ⟨r, hr⟩, List.mem_of_getElem? hname⟩

/-- In a tidy netlist the texts are the names. -/
theorem Tidy.mem_texts_iff (h : n.Tidy) (hn : n.Consistent) :
    text ∈ n.strings.texts ↔ n.Bears n.live text := by
  constructor
  · intro htext
    have hlabel {k : Kind} {x : Handle k} (hx : n.label x = .ok (some text)) : n.Bears n.live text :=
      ⟨k, x, (hn.sized.of_label hx).1, hx⟩
    rcases (h.clean hn).names htext with ⟨b, hb⟩ | ⟨p, hp⟩ | ⟨e, he⟩
    · exact hlabel (label_block_iff.2 hb)
    · exact hlabel (label_port_iff.2 hp)
    · exact hlabel (label_net_iff.2 he)
  · rintro ⟨k, x, -, hx⟩
    exact (hn.sized.of_label hx).2

/-- Entities that correspond bear the same names. -/
theorem Bears.of_concur {chosen chosen' : (k : Kind) → List (Handle k)}
    (h : ∀ k, List.Forall₂ (fun x x' => Concur (n.label x) (m.label x')) (chosen k) (chosen' k))
    (htext : n.Bears chosen text) : m.Bears chosen' text := by
  obtain ⟨k, x, hx, hname⟩ := htext
  obtain ⟨x', hx', o, ho, ho'⟩ := Forall₂.exists_of_mem (h k) hx
  exact ⟨k, x', hx', ho'.trans (ho.symm.trans hname)⟩

end Label

namespace Compacts

variable (h : n.Compacts t m)
include h

/-- A survivor keeps its name. -/
theorem label {k : Kind} {x x' : Handle k} (hmove : t.moves k x x') :
    Concur (n.label x) (m.label x') := by
  cases k with
  | block => exact (h.blockName hmove).bind fun _ => .ok _
  | port => exact (h.portName hmove).bind fun _ => .ok _
  | pin =>
    obtain ⟨r, r', hr, hr', -⟩ := h.exists_pin hmove
    rw [Netlist.label, Netlist.label, require_eq_ok (Pins.isLive_of_record? hr),
      require_eq_ok (Pins.isLive_of_record? hr')]
    exact .ok _
  | net => exact (h.netName hmove).bind fun _ => .ok _

theorem labels (k : Kind) :
    List.Forall₂ (fun x x' => Concur (n.label x) (m.label x')) (n.survivors k) (m.live k) :=
  (h.forall₂_moves k).imp fun _ _ hmove => h.label hmove

theorem bears_iff {text : String} : n.Bears n.survivors text ↔ m.Bears m.live text := by
  refine ⟨.of_concur h.labels, .of_concur fun k => List.Forall₂.flip ?_⟩
  exact (h.labels k).imp fun _ _ ⟨o, ho, ho'⟩ => ⟨o, ho', ho⟩

end Compacts

/-! ## Tables without gaps -/

/-- The texts that are left are in their old order. -/
theorem sublist_texts_of_compact {es fs : List Event} (hsweep : n.sweep = .ok (t, es))
    (ht : t.strings = n.strings) (h : n.compact = .ok (m, fs)) :
    m.strings.texts.Sublist n.strings.texts := by
  obtain ⟨t', es', q, l, hsweep', hsqueeze, hrename, rfl, -⟩ := compact_eq_ok_iff.1 h
  cases hsweep.symm.trans hsweep'
  obtain ⟨-, -, hstrings, -⟩ := frame_squeeze hsqueeze
  obtain ⟨-, rfl⟩ := compactStrings_eq_ok_iff.1 hrename
  rw [← ht, ← hstrings]
  exact q.strings.sublist_compact fun name => name ∈ q.namesInUse

/-- The index of a tidy netlist has an entry for each position. -/
theorem Tidy.size_index (h : n.Tidy) (hn : n.Consistent) (k : Kind) :
    n.index.size k = (n.slots k).size := by
  rw [h.index_eq hn]
  cases k with
  | block =>
    refine (Lookup.size_ofKeys ?_).trans ?_
    · exact nodup_keys (hn.sized.blocks.getElem?_names (h.full .block)) hn.indexed.blocks.injective
    · exact Array.length_toList.trans hn.sized.blocks.names
  | port =>
    refine (Lookup.size_ofKeys ?_).trans ?_
    · exact nodup_keys (hn.sized.ports.getElem?_keys (h.full .port)) hn.indexed.ports.injective
    · rw [List.length_zipWith, Array.length_toList, Array.length_toList, hn.sized.ports.owners,
        hn.sized.ports.names, Nat.min_self]
      rfl
  | pin =>
    refine (Lookup.size_ofKeys ?_).trans ?_
    · exact nodup_keys (hn.sized.pins.getElem?_keys (h.full .pin)) hn.indexed.pins.injective
    · rw [List.length_zipWith, Array.length_toList, Array.length_toList, hn.sized.pins.ports,
        hn.sized.pins.bits, Nat.min_self]
      rfl
  | net =>
    refine (Lookup.size_ofKeys ?_).trans ?_
    · exact nodup_keys (hn.sized.nets.getElem?_names (h.full .net)) hn.indexed.nets.injective
    · exact Array.length_toList.trans hn.sized.nets.names

theorem Compacts.size_slots (h : n.Compacts t m) (k : Kind) :
    (m.slots k).size = (n.survivors k).length := by
  rw [← Array.length_toList, h.slots_eq, List.length_map, List.length_range]

/-! ## What is left -/

/-- `m` has what survives of `n`, and nothing that tells of anything else. -/
structure Purges (n m : Netlist) : Prop where
  slots (k : Kind) : (m.slots k).toList = (List.range (n.survivors k).length).map fun i => some ⟨i⟩
  columns (a : Attribute) : (m.column a).size = (n.survivors a.kind).length
  index (k : Kind) : m.index.size k = (n.survivors k).length
  dirty : m.dirty = false
  /-- A port has a pin. -/
  ports {p : PortId} : m.IsLive p → ∃ pins, m.portPins p = .ok pins ∧ pins ≠ []
  /-- The slots for sinks are filled. -/
  nets {e : NetId} : m.IsLive e →
    ∃ driver sinks, m.netSlots e = .ok (driver :: List.map some sinks)
  /-- A block lists what is live. -/
  blocks {b : BlockId} : m.IsLive b → ∃ ports, m.portsOf b = .ok ports ∧ ∀ p ∈ ports, m.IsLive p
  /-- The survivors keep their names. -/
  labels (k : Kind) :
    List.Forall₂ (fun x x' => Concur (n.label x) (m.label x')) (n.survivors k) (m.live k)
  /-- What is left of the texts is in the old order, each once. -/
  texts : m.strings.texts.Sublist n.strings.texts ∧ m.strings.texts.Nodup
  /-- The texts are the names of the survivors. -/
  names {text : String} : text ∈ m.strings.texts ↔ n.Bears n.survivors text
  /-- A name is the position of its text. -/
  handles {x : StringId} {text : String} :
    m.string? text = some x ↔ m.strings.texts[x.index]? = some text
  /-- What is no name of a survivor is not found any more. -/
  gone {text : String} : m.string? text = none ↔ ¬n.Bears n.survivors text

/-- Compaction of a netlist in which verification finds nothing leaves the survivors and nothing else. -/
theorem compact_purges (hn : n.verify = .ok (none, [])) :
    ∃ m es, n.compact = .ok (m, es) ∧ n.Purges m := by
  have hn := consistent_of_verify hn
  obtain ⟨t, es, m, fs, f, hsweep, ht, hcompact, hpacks, hm⟩ := exists_compact hn
  have h : n.Compacts t m := ⟨hn, ht, hpacks.slots, hpacks.twin ht.consistent hm ht.swept⟩
  have htidy : m.Tidy := .of_packs ht.consistent.sized hpacks (namesUsed_of_compact hcompact)
  have hnames {text : String} : text ∈ m.strings.texts ↔ n.Bears n.survivors text :=
    (htidy.mem_texts_iff hm).trans h.bears_iff.symm
  refine ⟨m, fs, hcompact, ?_⟩
  exact {
    slots := h.slots_eq
    columns := fun a => (hm.sized.size_column a).trans (h.size_slots a.kind)
    index := fun k => (htidy.size_index hm k).trans (h.size_slots k)
    dirty := dirty_of_compact hcompact
    ports := fun {p} hp => by
      obtain ⟨r, hr⟩ := hm.sized.isLive_port_iff.1 hp
      have hbare : r.bare = false := hpacks.bare_eq_false ht.consistent (.of_sweep ht) hr
      obtain ⟨i, hi⟩ := PortRecord.bare_eq_false_iff.1 hbare
      refine ⟨_, portPins_eq_ok hr, List.ne_nil_of_mem (a := i) ?_⟩
      exact List.mem_filterMap.2 ⟨some i, hi, rfl⟩
    nets := fun {e} he => by
      obtain ⟨r', hr'⟩ := hm.sized.isLive_net_iff.1 he
      obtain ⟨-, r, -, -, rfl⟩ := (hpacks.nets_eq_some_iff ht.consistent.sized).1 hr'
      exact ⟨_, _, netSlots_eq_ok hr'⟩
    blocks := fun {b} hb => by
      obtain ⟨r, hr⟩ := hm.sized.isLive_block_iff.1 hb
      exact ⟨_, portsOf_eq_ok hr, (htidy.clean hm).listed (portsOf_eq_ok hr)⟩
    labels := h.labels
    texts := ⟨sublist_texts_of_compact hsweep ht.strings hcompact, m.strings.nodup⟩
    names := hnames
    handles := StringTable.find?_eq_some_iff
    gone := StringTable.find?_eq_none_iff.trans (not_congr hnames) }

/-- A block, its port and a net have one name. Two more blocks were removed, and the name of the first of
them is that of a net, too. A port has no pin. -/
def sharedNames : List Edit :=
  let cell : Model := { name := "cell", ports := [.input "i" 1, .output "x" 1] }
  [.createBlock "x" cell [], .createPort ⟨0⟩ "i", .createPort ⟨0⟩ "x", .createBlock "z" cell [],
    .createBlock "y" cell [], .createNet "y", .createNet "x", .createPin ⟨1⟩ 0 (some ⟨1⟩) .driver,
    .removeBlock ⟨1⟩, .removeBlock ⟨2⟩]

theorem compact_purges_sharedNames :
    (Edit.run (.new "top") sharedNames).verify = .ok (none, []) ∧
    (Edit.run (.new "top") sharedNames).strings.texts = ["x", "i", "z", "y"] ∧
    ∃ m es, (Edit.run (.new "top") sharedNames).compact = .ok (m, es) ∧
      (Edit.run (.new "top") sharedNames).Purges m ∧ m.strings.texts = ["x", "y"] := by
  have hn := ((Reachable.new "top").run sharedNames).consistent.verify_eq_ok
  obtain ⟨m, es, hcompact, hm⟩ := compact_purges hn
  refine ⟨hn, by decide +kernel, m, es, hcompact, hm, ?_⟩
  have htexts : (Edit.run (.new "top") sharedNames).compact.toOption.map (fun r => r.1.strings.texts) =
      some ["x", "y"] := by decide +kernel
  rw [hcompact] at htexts
  exact Option.some.inj htexts

end Netlist

end MappedNetlist
