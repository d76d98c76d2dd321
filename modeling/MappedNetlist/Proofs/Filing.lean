import Mathlib.Data.List.Nodup
import MappedNetlist.Proofs.Stability

/-!
# Ports are filed as declared

Two things that verification does not look at, and that hold in every history. A block lists its ports
in the order of their creation, each once, also those that were removed (`BlockRecord.Ordered`). And a
port has the width and the class that its block's model declares for its name, where of several
declarations of one name the first counts (`PortRecord.Declared`). Models are never compared with each
other, so blocks of different models of one name do not disturb each other. Compaction keeps both,
because new handles have the order of the old ones, and because a port, its block and its name move
together.
-/

namespace MappedNetlist

/-- The lists of the block are in the order of handles, and no port is in two of them. -/
structure BlockRecord.Ordered (r : BlockRecord) : Prop where
  increasing (c : PortClass) : (r.listed c).Pairwise fun p q => p.index < q.index
  apart {c d : PortClass} {p : PortId} : p ∈ r.listed c → p ∈ r.listed d → c = d

namespace BlockRecord.Ordered

variable {r : BlockRecord}

theorem of_bare (h : ∀ c, r.listed c = []) : r.Ordered where
  increasing c := by
    rw [h]
    exact .nil
  apart {c d p} hp := by simp [h] at hp

/-- A port with a later handle than those listed can be listed last. -/
theorem list (h : r.Ordered) {p : PortId} (hp : ∀ {d : PortClass} {q : PortId}, q ∈ r.listed d →
    q.index < p.index) (c : PortClass) : (r.list c p).Ordered where
  increasing d := by
    rw [BlockRecord.list_listed]
    by_cases hd : d = c
    · subst hd
      rw [Function.update_self, List.pairwise_append]
      refine ⟨h.increasing d, List.pairwise_singleton _ _, fun q hq x hx => ?_⟩
      rw [List.mem_singleton.1 hx]
      exact hp hq
    · rw [Function.update_of_ne hd]
      exact h.increasing d
  apart {d e q} hd he := by
    have hnew {x : PortClass} (hx : q ∈ r.listed x) : q ≠ p := by
      rintro rfl
      exact Nat.lt_irrefl _ (hp hx)
    rcases mem_listed_list.1 hd with hqd | ⟨hdc, hqp⟩
    · rcases mem_listed_list.1 he with hqe | ⟨-, hqp⟩
      · exact h.apart hqd hqe
      · exact absurd hqp (hnew hqd)
    · rcases mem_listed_list.1 he with hqe | ⟨hec, -⟩
      · exact absurd hqp (hnew hqe)
      · exact hdc.trans hec.symm

/-- Ports that move keep their order. -/
theorem renumber (h : r.Ordered) {R : Renumberings} {s : Slots .port} (hs : s.Placed)
    (hR : R.ports = s.renumbering) : (r.renumber R).Ordered where
  increasing c := by
    rw [BlockRecord.renumber_listed, hR, List.pairwise_filterMap]
    exact (h.increasing c).imp fun hlt _ hp _ hq => Slots.Moves.lt hs hp hq hlt
  apart {c d p'} hc hd := by
    rw [BlockRecord.renumber_listed, hR] at hc hd
    obtain ⟨p, hp, hmove⟩ := List.mem_filterMap.1 hc
    obtain ⟨q, hq, hmove'⟩ := List.mem_filterMap.1 hd
    obtain rfl : p = q := Slots.Moves.injective hs hmove hmove'
    exact h.apart hp hq

theorem nodup_ports (h : r.Ordered) : r.ports.Nodup := by
  have hnodup (c : PortClass) : (r.listed c).Nodup :=
    (h.increasing c).imp fun hlt heq => Nat.ne_of_lt hlt (congrArg Handle.index heq)
  have hapart {c d : PortClass} (hcd : c ≠ d) : (r.listed c).Disjoint (r.listed d) :=
    fun _ hc hd => hcd (h.apart hc hd)
  have hinputs : (r.listed .input ++ r.listed .output).Nodup :=
    (hnodup .input).append (hnodup .output) (hapart (by decide))
  refine hinputs.append (hnodup .clock) ?_
  rw [List.disjoint_append_left]
  exact ⟨hapart (by decide), hapart (by decide)⟩

end BlockRecord.Ordered

/-- The port is as the model declares the first port of its name. -/
def PortRecord.Declared (r : PortRecord) (model : Model) (name : String) : Prop :=
  ∃ decl, model.port? name = some decl ∧ r.width = decl.width.toNat ∧ r.portClass = decl.portClass

namespace Netlist

variable {n m t : Netlist}

/-- Every live block lists its ports in order, and every live port is as the model of its block
declares it. -/
structure Filed (n : Netlist) : Prop where
  ordered {b : BlockId} {r : BlockRecord} : n.store.blocks b = some r → r.Ordered
  declared {p : PortId} {r : PortRecord} : n.store.ports p = some r →
    ∃ b name, n.store.blocks r.owner = some b ∧ n.strings.text? r.name = some name ∧
      r.Declared b.model name

namespace Filed

theorem new (name : String) : (Netlist.new name).Filed where
  ordered hr := by
    rw [store_new] at hr
    cases hr
  declared hr := by
    rw [store_new] at hr
    cases hr

/-- Between compactions the ports issued before stay as declared. -/
theorem declared_of_stays (h : n.Filed) (hstays : n.Stays m) (hm : m.Consistent) {p : PortId}
    {q : PortRecord} (hissued : p.index < (n.slots .port).size) (hq : m.store.ports p = some q) :
    ∃ b name, m.store.blocks q.owner = some b ∧ m.strings.text? q.name = some name ∧
      q.Declared b.model name := by
  obtain ⟨r, hr, hfixed⟩ := hstays.store.ports hissued hq
  obtain ⟨hname, howner, hwidth, hclass⟩ := PortRecord.fixed_eq_iff.1 hfixed
  obtain ⟨b, name, hb, htext, decl, hdecl, hdecl'⟩ := h.declared hr
  obtain ⟨c, hc, -⟩ := hm.coherent.owned hq
  rw [howner] at hb
  obtain ⟨b', hb', hfixed'⟩ := hstays.store.blocks (Blocks.isLive_of_record? hb).lt_size hc
  obtain rfl : b = b' := Option.some.inj (hb.symm.trans hb')
  rw [(BlockRecord.fixed_eq_iff.1 hfixed').2.1] at hdecl
  rw [hwidth, hclass] at hdecl'
  exact ⟨c, name, hc, hname ▸ hstays.strings htext, decl, hdecl, hdecl'⟩

/-- A netlist that got no port. -/
theorem of_stays (h : n.Filed) (hstays : n.Stays m) (hm : m.Consistent)
    (hports : (m.slots .port).size = (n.slots .port).size)
    (hordered : ∀ {b r}, m.store.blocks b = some r → r.Ordered) : m.Filed where
  ordered := hordered
  declared hq :=
    h.declared_of_stays hstays hm (hports ▸ (Ports.isLive_of_record? hq).lt_size) hq

theorem of_shrinks (h : n.Filed) {d : Loss} (hm : n.Shrinks m d) : m.Filed :=
  h.of_stays (.of_shrinks hm) hm.consistent (hm.issued .port) fun hr =>
    h.ordered (Store.without_blocks_eq_some_iff.1 (hm.store ▸ hr)).2

theorem of_packs (h : t.Filed) {f : StringId → StringId} (ht : t.Consistent) (hm : t.Packs m f) :
    m.Filed where
  ordered {b' r'} hr' := by
    obtain ⟨b, r, -, hr, rfl⟩ := (hm.blocks_eq_some_iff ht.sized).1 hr'
    have hmoved := (h.ordered hr).renumber ht.sized.ports.placed (R := t.renumberings) rfl
    exact ⟨hmoved.increasing, hmoved.apart⟩
  declared {p' r'} hr' := by
    obtain ⟨p, r, -, hr, rfl⟩ := (hm.ports_eq_some_iff ht.sized).1 hr'
    obtain ⟨b, name, hb, htext, hdecl⟩ := h.declared hr
    obtain ⟨o, hmove⟩ := Slots.exists_moves ht.sized.blocks.placed (Blocks.isLive_of_record? hb)
    have howner : ((r.renumber t.renumberings).rename f).owner = o := by
      rw [PortRecord.rename_owner, PortRecord.renumber_owner]
      exact hmove.redirect_eq
    have hb' := (hm.blocks_eq_some_iff ht.sized).2 ⟨r.owner, b, hmove, hb, rfl⟩
    rw [← howner] at hb'
    exact ⟨_, name, hb', (hm.portName hr).trans htext, hdecl⟩

/-- The port that an edit creates is declared, and its handle is later than those its block lists. -/
theorem of_step (h : n.Filed) (hn : n.Consistent) {e : Edit}
    {found : Option ((k : Kind) × Handle k)} (hstep : n.Step e found m) : m.Filed := by
  cases hstep with
  | found => exact h
  | block hm hr hstore =>
    refine h.of_stays (.of_grows hm (hstore ▸ .addBlock _)) hm.consistent (hm.issued .port) ?_
    intro b q hq
    rw [hstore, Store.addBlock_blocks] at hq
    rcases (update_some_eq_some_iff n.blocks.record?_size).1 hq with ⟨-, rfl⟩ | hq
    · exact .of_bare hr
    · exact h.ordered hq
  | @port _ r b name decl hm hb hname hdecl hwidth hclass hstore =>
    have hstays : n.Stays m := .of_grows hm (hstore ▸ .addPort _)
    refine ⟨fun hx => ?_, fun {p q} hq => ?_⟩
    · rw [hstore, Store.addPort_blocks] at hx
      obtain ⟨x, hx', rfl⟩ := modify_eq_some_iff.1 hx
      split
      · exact (h.ordered hx').list (fun hp => (hn.coherent.listed hx' hp).1) _
      · exact h.ordered hx'
    · have hq' := hq
      rw [hstore, Store.addPort_ports] at hq'
      rcases (update_some_eq_some_iff n.ports.record?_size).1 hq' with ⟨rfl, rfl⟩ | hold
      · refine ⟨b.list q.portClass ⟨n.ports.slots.size⟩, name, ?_, hname, decl, hdecl, hwidth, hclass⟩
        rw [hstore, Store.addPort_blocks, modify_self, hb, Option.map_some]
      · exact h.declared_of_stays hstays hm.consistent (Ports.isLive_of_record? hold).lt_size hq
  | pin hm hstore =>
    refine h.of_stays (.of_grows hm (hstore ▸ .addPin _)) hm.consistent (hm.issued .port) ?_
    intro b q hq
    rw [hstore] at hq
    exact h.ordered hq
  | net hm hstore =>
    refine h.of_stays (.of_grows hm (hstore ▸ .addNet _)) hm.consistent (hm.issued .port) ?_
    intro b q hq
    rw [hstore] at hq
    exact h.ordered hq
  | loss hm => exact h.of_shrinks hm
  | packed _ ht hm => exact (h.of_shrinks ht).of_packs ht.consistent hm

end Filed

theorem Reachable.filed (hn : n.Reachable) : n.Filed := by
  obtain ⟨name, es, rfl⟩ := hn
  exact (consistent_new name).run_induction (.new name) fun _ hn h hstep => h.of_step hn hstep

/-! ## What queries tell of it -/

/-- A block tells these lists of ports. They are strictly increasing and share no handle, a live port is
in the list of its class of its own block and in no other, and all lists together have every live port
of the block once. -/
structure Lists (n : Netlist) (b : BlockId) (listed : PortClass → List PortId) : Prop where
  tells (c : PortClass) : n.portsOfClass c b = .ok (listed c)
  increasing (c : PortClass) : (listed c).Pairwise fun p q => p.index < q.index
  disjoint {c d : PortClass} : c ≠ d → (listed c).Disjoint (listed d)
  mem_iff {p : PortId} {c : PortClass} : n.IsLive p →
    (p ∈ listed c ↔ n.portBlock p = .ok b ∧ n.portClass p = .ok c)
  once {p : PortId} : n.portBlock p = .ok b →
    (listed .input ++ listed .output ++ listed .clock).count p = 1

/-- The model of the port's block declares the port: `decl` is the first declaration of the port's name
in it, and the port has its width and its class. -/
structure DeclaredBy (n : Netlist) (p : PortId) (b : BlockId) (model : Model) (decl : PortDecl) :
    Prop where
  first : ∃ before after, model.ports = before ++ decl :: after ∧ ∀ d ∈ before, d.name ≠ decl.name
  block : n.portBlock p = .ok b
  model : n.blockModel b = .ok model
  name : n.portName p = .ok decl.name
  width : n.portWidth p = .ok decl.width.toNat
  portClass : n.portClass p = .ok decl.portClass
  /-- An output is listed among the outputs, also if it carries a clock. -/
  output {listed : PortClass → List PortId} : n.Lists b listed →
    (p ∈ listed .output ↔ decl.direction = .output)
  clock {listed : PortClass → List PortId} : n.Lists b listed →
    (p ∈ listed .clock ↔ decl.direction = .input ∧ decl.clock = true)

/-- A live port is listed under its class in its own block. -/
theorem Lists.mem_iff_eq {b : BlockId} {listed : PortClass → List PortId} (h : n.Lists b listed)
    {p : PortId} (hl : n.IsLive p) (hblock : n.portBlock p = .ok b) {c : PortClass}
    (hclass : n.portClass p = .ok c) (d : PortClass) : p ∈ listed d ↔ c = d := by
  rw [h.mem_iff hl, hblock, hclass, Except.ok.injEq, Except.ok.injEq]
  exact and_iff_right rfl

theorem Filed.lists (h : n.Filed) (hn : n.Consistent) {b : BlockId} {r : BlockRecord}
    (hr : n.store.blocks b = some r) : n.Lists b r.listed := by
  have hordered := h.ordered hr
  have hlisted {p : PortId} {q : PortRecord} (hq : n.store.ports p = some q) (howner : q.owner = b) :
      p ∈ r.listed q.portClass := by
    obtain ⟨r', hr', hmem⟩ := hn.coherent.owned hq
    obtain rfl : r = r' := Option.some.inj (hr.symm.trans (howner ▸ hr'))
    exact hmem
  refine ⟨portsOfClass_eq_ok hr, hordered.increasing,
    fun hcd p hc hd => hcd (hordered.apart hc hd), fun {p c} hl => ?_, fun {p} howner => ?_⟩
  · obtain ⟨q, hq⟩ := hn.sized.isLive_port_iff.1 hl
    rw [portBlock_eq_ok hq, portClass_eq_ok hq, Except.ok.injEq, Except.ok.injEq]
    constructor
    · exact fun hmem => (hn.coherent.listed hr hmem).2 q hq
    · rintro ⟨howner, rfl⟩
      exact hlisted hq howner
  · obtain ⟨q, hq, howner⟩ := (portBlock_eq_ok_iff hn.sized).1 howner
    exact List.count_eq_one_of_mem hordered.nodup_ports
      (BlockRecord.mem_ports_iff.2 ⟨_, hlisted hq howner⟩)

theorem Filed.exists_declaredBy (h : n.Filed) {p : PortId} {q : PortRecord}
    (hq : n.store.ports p = some q) : ∃ b model decl, n.DeclaredBy p b model decl := by
  obtain ⟨b, name, hb, htext, decl, hdecl, hwidth, hclass⟩ := h.declared hq
  obtain rfl : decl.name = name := Model.name_of_port? hdecl
  obtain ⟨-, before, after, hports, hbefore⟩ := List.find?_eq_some_iff_append.1 hdecl
  have hblock := portBlock_eq_ok hq
  have hportClass : n.portClass p = .ok decl.portClass := hclass ▸ portClass_eq_ok hq
  have hlisted {listed : PortClass → List PortId} (hlists : n.Lists q.owner listed) :=
    hlists.mem_iff_eq (Ports.isLive_of_record? hq) hblock hportClass
  refine ⟨q.owner, b.model, decl, ⟨before, after, hports, fun d hd => ?_⟩, hblock,
    blockModel_eq_ok hb, (portName_eq hq).trans (string_eq_ok htext), hwidth ▸ portWidth_eq_ok hq,
    hportClass, fun hlists => ?_, fun hlists => ?_⟩
  · simpa using hbefore d hd
  · rw [hlisted hlists, PortDecl.portClass_eq_output_iff]
  · rw [hlisted hlists, PortDecl.portClass_eq_clock_iff]

/-- In every reachable netlist, however often it was compacted, the lists of a live block are in order
and have each of its live ports once, and a live port is as the model of its block declares the first
port of its name. What carries a clock is listed among the clocks only if it is an input. -/
theorem ports_filed (hn : n.Reachable) :
    (∀ b : BlockId, n.IsLive b → ∃ listed, n.Lists b listed) ∧
    ∀ p : PortId, n.IsLive p → ∃ b model decl, n.DeclaredBy p b model decl := by
  have hc := hn.consistent
  refine ⟨fun b hl => ?_, fun p hl => ?_⟩
  · obtain ⟨r, hr⟩ := hc.sized.isLive_block_iff.1 hl
    exact ⟨r.listed, hn.filed.lists hc hr⟩
  · obtain ⟨q, hq⟩ := hc.sized.isLive_port_iff.1 hl
    exact hn.filed.exists_declaredBy hq

/-- A block that moves to the handle of another one. Its model declares a name twice, first for an
output that carries a clock, then for an input without bits. -/
def movedBlock : List Edit :=
  [.createBlock "a" { name := "pll" } [],
    .createBlock "b" { name := "pll", ports :=
      [{ name := "q", direction := .output, width := 2, clock := true }, .input "q" 0] } [],
    .createPort ⟨1⟩ "q", .createPin ⟨0⟩ 1 none .driver, .removeBlock ⟨0⟩, .compact]

theorem ports_filed_movedBlock :
    (∃ listed, (Edit.run (.new "top") movedBlock).Lists ⟨0⟩ listed ∧ ⟨0⟩ ∈ listed .output) ∧
    ∃ b model decl, (Edit.run (.new "top") movedBlock).DeclaredBy ⟨0⟩ b model decl := by
  have hn := (Reachable.new "top").run movedBlock
  refine ⟨?_, (ports_filed hn).2 _ rfl⟩
  obtain ⟨listed, hlists⟩ := (ports_filed hn).1 ⟨0⟩ rfl
  have hlive : (Edit.run (.new "top") movedBlock).IsLive (⟨0⟩ : PortId) := rfl
  exact ⟨listed, hlists, (hlists.mem_iff hlive).2 ⟨by decide +kernel, by decide +kernel⟩⟩

end Netlist

end MappedNetlist
