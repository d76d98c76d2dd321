import MappedNetlist.Proofs.Invariance

/-!
# Handles are stable between compactions

As long as a netlist is not compacted, a handle means one entity or none. What is live among the
handles issued so far was live before, with the same key and the same fixed attributes
(`Netlist.Stays`), so an entity never changes under its handle, and a handle whose entity was removed
stays dead, whatever is created under its key later. New entities take the next handle of their kind,
and an entity is found under its key for as long as it lives.
-/

namespace MappedNetlist

/-! ## What is fixed of an entity -/

/-- The name of a block, its model and its truth table. -/
def BlockRecord.fixed (r : BlockRecord) : StringId × Model × TruthTable :=
  (r.name, r.model, r.table)

/-- The name of a port, its block, its width and its class. -/
def PortRecord.fixed (r : PortRecord) : StringId × BlockId × Nat × PortClass :=
  (r.name, r.owner, r.width, r.portClass)

/-- The port of a pin, its bit and its role. -/
def PinRecord.fixed (r : PinRecord) : PortId × Nat × PinRole :=
  (r.port, r.bit, r.role)

theorem BlockRecord.fixed_eq_iff {r q : BlockRecord} :
    r.fixed = q.fixed ↔ r.name = q.name ∧ r.model = q.model ∧ r.table = q.table := by
  simp only [fixed, Prod.mk.injEq]

theorem PortRecord.fixed_eq_iff {r q : PortRecord} : r.fixed = q.fixed ↔
    r.name = q.name ∧ r.owner = q.owner ∧ r.width = q.width ∧ r.portClass = q.portClass := by
  simp only [fixed, Prod.mk.injEq]

theorem PinRecord.fixed_eq_iff {r q : PinRecord} :
    r.fixed = q.fixed ↔ r.port = q.port ∧ r.bit = q.bit ∧ r.role = q.role := by
  simp only [fixed, Prod.mk.injEq]

/-- Every record that `g` has for a handle issued so far, `f` has as well, as far as `fixed` tells. -/
def Kept {α β : Type} {k : Kind} (fixed : α → β) (issued : Nat) (f g : Handle k → Option α) : Prop :=
  ∀ ⦃h : Handle k⦄ ⦃q : α⦄, h.index < issued → g h = some q → ∃ r, f h = some r ∧ fixed r = fixed q

namespace Kept

variable {α β : Type} {k : Kind} {fixed : α → β} {issued later : Nat} {f g l : Handle k → Option α}

theorem refl (fixed : α → β) (issued : Nat) (f : Handle k → Option α) : Kept fixed issued f f :=
  fun _ q _ hq => ⟨q, hq, rfl⟩

theorem trans (hfg : Kept fixed issued f g) (hgl : Kept fixed later g l) (hle : issued ≤ later) :
    Kept fixed issued f l := by
  intro h t hh ht
  obtain ⟨q, hq, hqt⟩ := hgl (Nat.lt_of_lt_of_le hh hle) ht
  obtain ⟨r, hr, hrq⟩ := hfg hh hq
  exact ⟨r, hr, hrq.trans hqt⟩

/-- A new handle is not among those issued so far. -/
theorem update (fixed : α → β) (issued : Nat) (f : Handle k → Option α) (v : Option α) :
    Kept fixed issued f (Function.update f ⟨issued⟩ v) := by
  intro h q hh hq
  rw [Function.update_of_ne] at hq
  · exact ⟨q, hq, rfl⟩
  · rintro rfl
    exact Nat.lt_irrefl _ hh

theorem modify (issued : Nat) (f : Handle k → Option α) (h : Handle k) {change : α → α}
    (hchange : ∀ a, fixed (change a) = fixed a) :
    Kept fixed issued f (MappedNetlist.modify f h change) := by
  intro x q _ hq
  obtain ⟨r, hr, rfl⟩ := modify_eq_some_iff.1 hq
  refine ⟨r, hr, ?_⟩
  split
  · exact (hchange r).symm
  · rfl

end Kept

namespace Store

variable {s : Store} {issued : Kind → Nat}

/-- The entities of `t` among those issued so far are entities of `s`, with the same keys and fixed
attributes. -/
structure Stays (issued : Kind → Nat) (s t : Store) : Prop where
  blocks : Kept BlockRecord.fixed (issued .block) s.blocks t.blocks
  ports : Kept PortRecord.fixed (issued .port) s.ports t.ports
  pins : Kept PinRecord.fixed (issued .pin) s.pins t.pins
  nets : Kept NetRecord.name (issued .net) s.nets t.nets

namespace Stays

theorem refl (issued : Kind → Nat) (s : Store) : s.Stays issued s :=
  ⟨.refl .., .refl .., .refl .., .refl ..⟩

theorem addBlock (r : BlockRecord) : s.Stays issued (s.addBlock ⟨issued .block⟩ r) :=
  { Stays.refl issued s with blocks := .update .. }

theorem addPort (r : PortRecord) : s.Stays issued (s.addPort ⟨issued .port⟩ r) :=
  { Stays.refl issued s with
    blocks := .modify _ _ _ fun _ => rfl
    ports := .update .. }

theorem addPin (r : PinRecord) : s.Stays issued (s.addPin ⟨issued .pin⟩ r) where
  blocks := .refl ..
  ports := .modify _ _ _ fun _ => rfl
  pins := .update ..
  nets _ q _ hq := by
    obtain ⟨t, ht, rfl⟩ := addPin_nets_eq_some_iff.1 hq
    refine ⟨t, ht, ?_⟩
    split <;> rfl

theorem addNet (r : NetRecord) : s.Stays issued (s.addNet ⟨issued .net⟩ r) where
  blocks := .refl ..
  ports := .refl ..
  pins _ q _ hq := by
    obtain ⟨t, ht, rfl⟩ := Option.map_eq_some_iff.1 hq
    exact ⟨t, ht, rfl⟩
  nets := .update ..

theorem without (d : Loss) : s.Stays issued (s.without d) where
  blocks _ q _ hq := ⟨q, (without_blocks_eq_some_iff.1 hq).2, rfl⟩
  ports _ q _ hq := by
    obtain ⟨-, t, ht, rfl⟩ := without_ports_eq_some_iff.1 hq
    exact ⟨t, ht, rfl⟩
  pins _ q _ hq := by
    obtain ⟨-, t, ht, rfl⟩ := without_pins_eq_some_iff.1 hq
    exact ⟨t, ht, rfl⟩
  nets _ q _ hq := by
    obtain ⟨-, t, ht, rfl⟩ := without_nets_eq_some_iff.1 hq
    exact ⟨t, ht, rfl⟩

end Stays

end Store

namespace Netlist

variable {n m l : Netlist}

/-- Between `n` and `m` handles were issued, but none of the old ones was given to another entity, and
no name to another text. -/
structure Stays (n m : Netlist) : Prop where
  issued (k : Kind) : (n.slots k).size ≤ (m.slots k).size
  strings : m.strings.Extends n.strings
  store : n.store.Stays (fun k => (n.slots k).size) m.store

namespace Stays

theorem refl (n : Netlist) : n.Stays n := ⟨fun _ => Nat.le_refl _, .refl _, .refl ..⟩

theorem trans (h : n.Stays m) (h' : m.Stays l) : n.Stays l where
  issued k := Nat.le_trans (h.issued k) (h'.issued k)
  strings := fun _ _ htext => h'.strings (h.strings htext)
  store :=
    ⟨h.store.blocks.trans h'.store.blocks (h.issued .block),
      h.store.ports.trans h'.store.ports (h.issued .port),
      h.store.pins.trans h'.store.pins (h.issued .pin),
      h.store.nets.trans h'.store.nets (h.issued .net)⟩

theorem of_grows {k : Kind} (h : n.Grows m k)
    (hstore : n.store.Stays (fun k => (n.slots k).size) m.store) : n.Stays m where
  issued l := by
    rw [h.issued]
    split
    · exact Nat.le_succ _
    · exact Nat.le_refl _
  strings := h.strings
  store := hstore

theorem of_shrinks {d : Loss} (h : n.Shrinks m d) : n.Stays m where
  issued k := Nat.le_of_eq (h.issued k).symm
  strings := h.strings ▸ .refl _
  store := h.store ▸ .without d

end Stays

theorem Step.stays {e : Edit} {found : Option ((k : Kind) × Handle k)} (h : n.Step e found m)
    (he : e ≠ .compact) : n.Stays m := by
  cases h with
  | found => exact .refl n
  | block hm _ hstore => exact .of_grows hm (hstore ▸ .addBlock _)
  | port hm _ _ _ _ _ hstore => exact .of_grows hm (hstore ▸ .addPort _)
  | pin hm hstore => exact .of_grows hm (hstore ▸ .addPin _)
  | net hm hstore => exact .of_grows hm (hstore ▸ .addNet _)
  | loss hm => exact .of_shrinks hm
  | packed hcompact => exact absurd hcompact he

theorem Consistent.stays_run (hn : n.Consistent) {es : List Edit} (hes : Edit.compact ∉ es) :
    n.Stays (Edit.run n es) :=
  hn.run_induction (.refl n) fun he _ hstays hstep =>
    hstays.trans (hstep.stays fun heq => hes (heq ▸ he))

/-! ## Liveness -/

/-- What is live among the handles issued before was live before. -/
theorem Stays.isLive (h : n.Stays m) (hn : n.Sized) (hm : m.Sized) {k : Kind} {x : Handle k}
    (hx : x.index < (n.slots k).size) (hl : m.IsLive x) : n.IsLive x := by
  cases k with
  | block =>
    obtain ⟨q, hq⟩ := hm.isLive_block_iff.1 hl
    obtain ⟨r, hr, -⟩ := h.store.blocks hx hq
    exact hn.isLive_block_iff.2 ⟨r, hr⟩
  | port =>
    obtain ⟨q, hq⟩ := hm.isLive_port_iff.1 hl
    obtain ⟨r, hr, -⟩ := h.store.ports hx hq
    exact hn.isLive_port_iff.2 ⟨r, hr⟩
  | pin =>
    obtain ⟨q, hq⟩ := hm.isLive_pin_iff.1 hl
    obtain ⟨r, hr, -⟩ := h.store.pins hx hq
    exact hn.isLive_pin_iff.2 ⟨r, hr⟩
  | net =>
    obtain ⟨q, hq⟩ := hm.isLive_net_iff.1 hl
    obtain ⟨r, hr, -⟩ := h.store.nets hx hq
    exact hn.isLive_net_iff.2 ⟨r, hr⟩

/-- A handle that was not live is the next one to be issued, and is live now. -/
theorem Step.eq_next {e : Edit} {k : Kind} {h : Handle k} (hstep : n.Step e (some ⟨k, h⟩) m)
    (hl : ¬n.IsLive h) :
    h.index = (n.slots k).size ∧ (m.slots k).size = h.index + 1 ∧ m.IsLive h := by
  cases hstep with
  | found hlive => exact absurd hlive hl
  | @block _ r hm _ hstore =>
    refine ⟨rfl, hm.issued .block, hm.consistent.sized.isLive_block_iff.2 ⟨r, ?_⟩⟩
    rw [hstore, Store.addBlock_blocks, Function.update_self]
  | @port _ r _ _ _ hm _ _ _ _ _ hstore =>
    refine ⟨rfl, hm.issued .port, hm.consistent.sized.isLive_port_iff.2 ⟨r, ?_⟩⟩
    rw [hstore, Store.addPort_ports, Function.update_self]
  | @pin _ r hm hstore =>
    refine ⟨rfl, hm.issued .pin, hm.consistent.sized.isLive_pin_iff.2 ⟨r, ?_⟩⟩
    rw [hstore, Store.addPin_pins, Function.update_self]
  | @net _ r hm hstore =>
    refine ⟨rfl, hm.issued .net, hm.consistent.sized.isLive_net_iff.2 ⟨r, ?_⟩⟩
    rw [hstore, Store.addNet_nets, Function.update_self]

/-! ## Identity -/

/-- Asked of either netlist, the query has the answer `a`. -/
def BothAnswer {α : Type} (n m : Netlist) (query : Netlist → Except Fault α) (a : α) : Prop :=
  query n = .ok a ∧ query m = .ok a

/-- The handle means the same entity in both netlists: its key and its fixed attributes are equal. -/
def SameEntity (n m : Netlist) : {k : Kind} → Handle k → Prop
  | .block, b => ∃ name model table, n.BothAnswer m (·.blockName b) name ∧
      n.BothAnswer m (·.blockModel b) model ∧ n.BothAnswer m (·.blockTable b) table
  | .port, p => ∃ block name width portClass, n.BothAnswer m (·.portBlock p) block ∧
      n.BothAnswer m (·.portName p) name ∧ n.BothAnswer m (·.portWidth p) width ∧
      n.BothAnswer m (·.portClass p) portClass
  | .pin, i => ∃ port bit role, n.BothAnswer m (·.pinPort i) port ∧
      n.BothAnswer m (·.pinBit i) bit ∧ n.BothAnswer m (·.pinRole i) role
  | .net, e => ∃ name, n.BothAnswer m (·.netName e) name

/-- Creating an entity with the key of the handle finds the handle and changes nothing, whatever else
the entity is asked to have. -/
def HoldsKey (n : Netlist) : {k : Kind} → Handle k → Prop
  | .block, b => ∃ name, n.blockName b = .ok name ∧ ∀ model table,
      (Edit.createBlock name model table).apply n = .ok (.ofFound (b, n))
  | .port, p => ∃ block name, n.portBlock p = .ok block ∧ n.portName p = .ok name ∧
      (Edit.createPort block name).apply n = .ok (.ofFound (p, n))
  | .pin, i => ∃ port bit, n.pinPort i = .ok port ∧ n.pinBit i = .ok bit ∧
      ∀ net role, (∀ e, net = some e → n.IsLive e) →
        (Edit.createPin port bit net role).apply n = .ok (.ofFound (i, n))
  | .net, e => ∃ name, n.netName e = .ok name ∧
      (Edit.createNet name).apply n = .ok (.ofFound (e, n))

theorem Stays.samePin (h : n.Stays m) {i : PinId} {q : PinRecord} (hl : n.IsLive i)
    (hq : m.store.pins i = some q) : n.SameEntity m i := by
  obtain ⟨r, hr, hfixed⟩ := h.store.pins hl.lt_size hq
  obtain ⟨hport, hbit, hrole⟩ := PinRecord.fixed_eq_iff.1 hfixed
  refine ⟨r.port, r.bit, r.role, ⟨pinPort_eq_ok hr, ?_⟩, ⟨pinBit_eq_ok hr, ?_⟩,
    pinRole_eq_ok hr, ?_⟩
  · exact hport ▸ pinPort_eq_ok hq
  · exact hbit ▸ pinBit_eq_ok hq
  · exact hrole ▸ pinRole_eq_ok hq

section SameEntity

variable (h : n.Stays m) (hn : n.Consistent)
include h hn

theorem Stays.sameBlock {b : BlockId} {q : BlockRecord} (hl : n.IsLive b)
    (hq : m.store.blocks b = some q) : n.SameEntity m b := by
  obtain ⟨r, hr, hfixed⟩ := h.store.blocks hl.lt_size hq
  obtain ⟨hname, hmodel, htable⟩ := BlockRecord.fixed_eq_iff.1 hfixed
  obtain ⟨text, htext⟩ := hn.exists_blockName hr
  refine ⟨text, r.model, r.table, ⟨?_, ?_⟩, ⟨blockModel_eq_ok hr, ?_⟩, blockTable_eq_ok hr, ?_⟩
  · exact (blockName_eq hr).trans (string_eq_ok htext)
  · exact (blockName_eq hq).trans (string_eq_ok (hname ▸ h.strings htext))
  · exact hmodel ▸ blockModel_eq_ok hq
  · exact htable ▸ blockTable_eq_ok hq

theorem Stays.samePort {p : PortId} {q : PortRecord} (hl : n.IsLive p)
    (hq : m.store.ports p = some q) : n.SameEntity m p := by
  obtain ⟨r, hr, hfixed⟩ := h.store.ports hl.lt_size hq
  obtain ⟨hname, howner, hwidth, hclass⟩ := PortRecord.fixed_eq_iff.1 hfixed
  obtain ⟨text, htext⟩ := hn.exists_portName hr
  refine ⟨r.owner, text, r.width, r.portClass, ⟨portBlock_eq_ok hr, ?_⟩, ⟨?_, ?_⟩,
    ⟨portWidth_eq_ok hr, ?_⟩, portClass_eq_ok hr, ?_⟩
  · exact howner ▸ portBlock_eq_ok hq
  · exact (portName_eq hr).trans (string_eq_ok htext)
  · exact (portName_eq hq).trans (string_eq_ok (hname ▸ h.strings htext))
  · exact hwidth ▸ portWidth_eq_ok hq
  · exact hclass ▸ portClass_eq_ok hq

theorem Stays.sameNet {e : NetId} {q : NetRecord} (hl : n.IsLive e)
    (hq : m.store.nets e = some q) : n.SameEntity m e := by
  obtain ⟨r, hr, hname⟩ := h.store.nets hl.lt_size hq
  obtain ⟨text, htext⟩ := hn.exists_netName hr
  refine ⟨text, ?_, ?_⟩
  · exact (netName_eq hr).trans (string_eq_ok htext)
  · exact (netName_eq hq).trans (string_eq_ok (hname ▸ h.strings htext))

/-- What is live at both moments is the same entity at both. -/
theorem Stays.sameEntity (hm : m.Sized) {k : Kind} {x : Handle k} (hl : n.IsLive x)
    (hl' : m.IsLive x) : n.SameEntity m x := by
  cases k with
  | block =>
    obtain ⟨q, hq⟩ := hm.isLive_block_iff.1 hl'
    exact h.sameBlock hn hl hq
  | port =>
    obtain ⟨q, hq⟩ := hm.isLive_port_iff.1 hl'
    exact h.samePort hn hl hq
  | pin =>
    obtain ⟨q, hq⟩ := hm.isLive_pin_iff.1 hl'
    exact h.samePin hl hq
  | net =>
    obtain ⟨q, hq⟩ := hm.isLive_net_iff.1 hl'
    exact h.sameNet hn hl hq

end SameEntity

/-! ## Keys of live entities -/

/-- A live entity holds its key. -/
theorem Consistent.holdsKey (hn : n.Consistent) {k : Kind} {x : Handle k} (hl : n.IsLive x) :
    n.HoldsKey x := by
  cases k with
  | block =>
    obtain ⟨r, hr⟩ := hn.sized.isLive_block_iff.1 hl
    obtain ⟨text, htext⟩ := hn.exists_blockName hr
    have hfound := hn.block?_eq_some_iff.2 ⟨r, hr, htext⟩
    refine ⟨text, (blockName_eq hr).trans (string_eq_ok htext), fun model table => ?_⟩
    rw [Edit.apply, createBlock_of_some hfound]
    rfl
  | port =>
    obtain ⟨r, hr⟩ := hn.sized.isLive_port_iff.1 hl
    obtain ⟨text, htext⟩ := hn.exists_portName hr
    obtain ⟨b, hb, -⟩ := hn.coherent.owned hr
    have hfound := hn.indexedPort?_eq_some_iff.2 ⟨r, hr, rfl, htext⟩
    refine ⟨r.owner, text, portBlock_eq_ok hr, (portName_eq hr).trans (string_eq_ok htext), ?_⟩
    rw [Edit.apply, createPort_of_some (hn.sized.isLive_block_iff.2 ⟨b, hb⟩) hfound, ok_bind]
    rfl
  | pin =>
    obtain ⟨r, hr⟩ := hn.sized.isLive_pin_iff.1 hl
    obtain ⟨q, hq, hbit, -⟩ := hn.coherent.placed hr
    have hfound := hn.index_pins_eq_some_iff.2 ⟨r, hr, rfl, rfl⟩
    refine ⟨r.port, r.bit, pinPort_eq_ok hr, pinBit_eq_ok hr, fun net role hnet => ?_⟩
    rw [Edit.apply, createPin_of_some hq hbit hnet hfound, ok_bind]
    rfl
  | net =>
    obtain ⟨r, hr⟩ := hn.sized.isLive_net_iff.1 hl
    obtain ⟨text, htext⟩ := hn.exists_netName hr
    have hfound := hn.net?_eq_some_iff.2 ⟨r, hr, htext⟩
    refine ⟨text, (netName_eq hr).trans (string_eq_ok htext), ?_⟩
    rw [Edit.apply, createNet_of_some hfound]
    rfl

/-! ## Runs without compaction -/

/-- Take a run that begins in a reachable netlist and does not compact it. A handle that an edit returns
and that was not live is the next one of its kind, so it is none of those issued before, be they live,
removed in the run, or removed before it. A handle that is live in the beginning and at the end means
the same entity at both moments, and at the end creating an entity with its key finds it and changes
nothing. A handle that is live in the beginning but not at the end is not live at any later moment. -/
theorem handles_stable (hn : n.Reachable) {es : List Edit} (hes : Edit.compact ∉ es) :
    (∀ {e : Edit} {r : Edited} {k : Kind} {h : Handle k}, e.apply (Edit.run n es) = .ok r →
      r.found = some ⟨k, h⟩ → ¬(Edit.run n es).IsLive h →
        h.index = (Edit.run n es).issued.get k ∧
        (r.netlist.issued.get k = h.index + 1 ∧ r.netlist.IsLive h) ∧
        ∀ g : Handle k, g.index < (Edit.run n es).issued.get k ∨
          (∃ as, as <+: es ∧ (Edit.run n as).IsLive g) → g ≠ h) ∧
    ∀ {k : Kind} {h : Handle k}, n.IsLive h →
      ((Edit.run n es).IsLive h →
        n.SameEntity (Edit.run n es) h ∧ (Edit.run n es).HoldsKey h) ∧
      (¬(Edit.run n es).IsLive h →
        ∀ fs, Edit.compact ∉ fs → ¬(Edit.run n (es ++ fs)).IsLive h) := by
  have hc := hn.consistent
  have hm := hc.run es
  refine ⟨fun {e r k h} hr hfound hl => ?_, fun {k h} hl => ⟨fun hl' => ?_, fun hdead fs hfs => ?_⟩⟩
  · obtain ⟨hnext, hissued⟩ := (hfound ▸ hm.step hr).eq_next hl
    rw [issued, issued, Tally.get_of, Tally.get_of]
    refine ⟨hnext, hissued, ?_⟩
    rintro g hg rfl
    rcases hg with hg | ⟨as, ⟨bs, rfl⟩, hg⟩
    · exact Nat.ne_of_lt hg hnext
    · rw [List.mem_append, not_or] at hes
      have hstays := (hc.run as).stays_run hes.2
      rw [← Edit.run_append] at hstays
      exact Nat.ne_of_lt (Nat.lt_of_lt_of_le hg.lt_size (hstays.issued k)) hnext
  · exact ⟨(hc.stays_run hes).sameEntity hc hm.sized hl hl', hm.holdsKey hl'⟩
  · rw [Edit.run_append]
    have hissued := Nat.lt_of_lt_of_le hl.lt_size ((hc.stays_run hes).issued k)
    exact fun hlive =>
      hdead ((hm.stays_run hfs).isLive hm.sized (hm.run fs).sized hissued hlive)

/-- A block and a net. -/
def blockAndNet : Netlist :=
  Edit.run (.new "top") [.createBlock "a" { name := "buf" } [], .createNet "x"]

theorem handles_stable_recreated :
    (⟨1⟩ : BlockId).index = (Edit.run blockAndNet [.removeBlock ⟨0⟩]).issued.get .block ∧
    ¬(Edit.run blockAndNet ([.removeBlock ⟨0⟩] ++ [.createBlock "a" { name := "buf" } []])).IsLive
      (⟨0⟩ : BlockId) ∧
    blockAndNet.SameEntity (Edit.run blockAndNet [.removeBlock ⟨0⟩]) (⟨0⟩ : NetId) ∧
    (Edit.run blockAndNet [.removeBlock ⟨0⟩]).HoldsKey (⟨0⟩ : NetId) := by
  have hn : blockAndNet.Reachable := (Reachable.new "top").run _
  have hes : Edit.compact ∉ [Edit.removeBlock ⟨0⟩] := by simp
  obtain ⟨hnew, hold⟩ := handles_stable hn hes
  have hcreate : (Edit.createBlock "a" { name := "buf" } []).apply
      (Edit.run blockAndNet [.removeBlock ⟨0⟩]) = .ok (.ofFound ((⟨1⟩ : BlockId), _)) := rfl
  have hlive : blockAndNet.IsLive (⟨0⟩ : NetId) := rfl
  refine ⟨(hnew hcreate rfl ?_).1, (hold ?_).2 ?_ _ (by simp), (hold hlive).1 rfl⟩
  · decide
  · rfl
  · decide

end Netlist

end MappedNetlist
