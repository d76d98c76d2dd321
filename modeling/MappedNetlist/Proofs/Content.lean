import MappedNetlist.Proofs.Twin.Compaction

/-!
# Compaction keeps the content

The *content* of a netlist is what its queries tell in terms of names: its live blocks, ports, pins
and nets, in order, with everything that is known of them, but without handles. Compaction drops the
ports that have no pin and the blocks that list ports but none that is kept, and leaves the content
of everything else as it is.
-/

namespace MappedNetlist

/-- Where a pin stands. -/
structure Site where
  block : String
  port : String
  bit : Nat
  deriving DecidableEq, Repr

structure PinContent where
  site : Site
  role : PinRole
  net : Option String
  deriving DecidableEq, Repr

structure PortContent where
  block : String
  name : String
  width : Nat
  portClass : PortClass
  bits : List (Option PinContent)
  deriving DecidableEq, Repr

structure BlockContent where
  name : String
  model : Model
  table : TruthTable
  inputs : List String
  outputs : List String
  clocks : List String
  deriving DecidableEq, Repr

structure NetContent where
  name : String
  driver : Option Site
  sinks : List Site
  deriving DecidableEq, Repr

/-- What a netlist tells in terms of names. -/
structure Content where
  blocks : List BlockContent
  ports : List PortContent
  pins : List PinContent
  nets : List NetContent
  deriving DecidableEq, Repr

namespace Netlist

/-- The name of the block of a port. -/
def ownerName (n : Netlist) (port : PortId) : Except Fault String := do
  n.blockName (← n.portBlock port)

def site (n : Netlist) (pin : PinId) : Except Fault Site := do
  let port ← n.pinPort pin
  return {
    block := ← n.ownerName port
    port := ← n.portName port
    bit := ← n.pinBit pin }

def pinContent (n : Netlist) (pin : PinId) : Except Fault PinContent := do
  return {
    site := ← n.site pin
    role := ← n.pinRole pin
    net := ← (← n.pinNet pin).mapM n.netName }

def bitContent (n : Netlist) (port : PortId) (bit : Nat) : Except Fault (Option PinContent) := do
  (← n.portPin port bit).mapM n.pinContent

def portContent (n : Netlist) (port : PortId) : Except Fault PortContent := do
  let width ← n.portWidth port
  return {
    block := ← n.ownerName port
    name := ← n.portName port
    width
    portClass := ← n.portClass port
    bits := ← (List.range width).mapM (n.bitContent port) }

/-- The names of those ports from `ports` that a block lists under a class. -/
def portNames (n : Netlist) (ports : List PortId) (c : PortClass) (block : BlockId) :
    Except Fault (List String) := do
  ((← n.portsOfClass c block).filter (· ∈ ports)).mapM n.portName

def blockContent (n : Netlist) (ports : List PortId) (block : BlockId) :
    Except Fault BlockContent := do
  return {
    name := ← n.blockName block
    model := ← n.blockModel block
    table := ← n.blockTable block
    inputs := ← n.portNames ports .input block
    outputs := ← n.portNames ports .output block
    clocks := ← n.portNames ports .clock block }

def netContent (n : Netlist) (net : NetId) : Except Fault NetContent := do
  return {
    name := ← n.netName net
    driver := ← (← n.netDriver net).mapM n.site
    sinks := ← (← n.netSinks net).mapM n.site }

/-- The content of some entities of a netlist, as if there were no others. -/
def contentOf (n : Netlist) (chosen : (k : Kind) → List (Handle k)) : Except Fault Content := do
  return {
    blocks := ← (chosen .block).mapM (n.blockContent (chosen .port))
    ports := ← (chosen .port).mapM n.portContent
    pins := ← (chosen .pin).mapM n.pinContent
    nets := ← (chosen .net).mapM n.netContent }

/-- The content of all live entities. -/
def content (n : Netlist) : Except Fault Content := n.contentOf n.live

/-- A port is kept if it has a live pin. -/
def keepsPort (n : Netlist) (port : PortId) : Bool :=
  match n.portPins port with
  | .ok pins => pins.any (n.IsLive ·)
  | .error _ => false

/-- A block is kept if it lists no port at all or one that is kept. -/
def keepsBlock (n : Netlist) (block : BlockId) : Bool :=
  match n.portsOf block with
  | .ok ports => ports.isEmpty || ports.any n.keepsPort
  | .error _ => false

/-- The live entities that a compaction keeps, in order. -/
def survivors (n : Netlist) : (k : Kind) → List (Handle k)
  | .block => (n.live .block).filter n.keepsBlock
  | .port => (n.live .port).filter n.keepsPort
  | .pin => n.live .pin
  | .net => n.live .net

end Netlist

/-- Both succeed with the same result. -/
def Concur {α : Type} (x y : Except Fault α) : Prop := ∃ a, x = .ok a ∧ y = .ok a

namespace Concur

variable {α β γ : Type} {R : α → β → Prop}

theorem ok (a : α) : Concur (.ok a) (.ok a) := ⟨a, rfl, rfl⟩

theorem bind {x y : Except Fault α} {f g : α → Except Fault β} (h : Concur x y)
    (hfg : ∀ a, Concur (f a) (g a)) : Concur (x >>= f) (y >>= g) := by
  obtain ⟨a, rfl, rfl⟩ := h
  exact hfg a

theorem option {o : Option α} {o' : Option β} {f : α → Except Fault γ} {g : β → Except Fault γ}
    (h : Option.Rel R o o') (hfg : ∀ a b, R a b → Concur (f a) (g b)) :
    Concur (o.mapM f) (o'.mapM g) := by
  rcases h with hab | _
  · obtain ⟨c, hf, hg⟩ := hfg _ _ hab
    exact ⟨some c, by rw [Option.mapM_some, hf]; rfl, by rw [Option.mapM_some, hg]; rfl⟩
  · exact ok none

theorem list {l : List α} {l' : List β} {f : α → Except Fault γ} {g : β → Except Fault γ}
    (h : List.Forall₂ R l l') (hfg : ∀ a b, R a b → Concur (f a) (g b)) :
    Concur (l.mapM f) (l'.mapM g) := by
  induction h with
  | nil => exact ok []
  | cons hab _ ih =>
    rw [List.mapM_cons, List.mapM_cons]
    exact (hfg _ _ hab).bind fun c => ih.bind fun cs => ok (c :: cs)

end Concur

namespace Netlist

/-- `m` is what compaction makes of `n`, which is `t` once it is swept. -/
structure Compacts (n t m : Netlist) : Prop where
  consistent : n.Consistent
  shrinks : n.Shrinks t n.store.unused
  slots (k : Kind) : m.slots k = Slots.ofRenumbering (t.slots k).renumbering
  twin : Twin t.moves t m

variable {n t m : Netlist}

/-! ## What is kept -/

theorem Consistent.keepsPort_iff (hn : n.Consistent) {p : PortId} :
    n.keepsPort p = true ↔ ∃ r, n.store.ports p = some r ∧ r.bare = false := by
  cases hp : n.store.ports p with
  | none =>
    have hdead : ¬n.IsLive p := by simp [hn.sized.isLive_port_iff, hp]
    have hpins : n.portPins p = .error (.deadHandle .port p) := by
      rw [portPins, require_of_dead hdead]
      rfl
    simp [keepsPort, hpins]
  | some r =>
    have hlive {i : PinId} (hi : some i ∈ r.pins) : n.IsLive i := by
      obtain ⟨q, hq, -⟩ := (hn.mem_pins_iff hp).1 hi
      exact hn.sized.isLive_pin_iff.2 ⟨q, hq⟩
    have hbare : r.bare = false ↔ ∃ i, some i ∈ r.pins := by
      rw [← Bool.not_eq_true, PortRecord.bare_iff]
      simp
    rw [keepsPort, portPins_eq_ok hp]
    simp only [List.any_eq_true, List.mem_filterMap, id_eq, exists_eq_right, decide_eq_true_eq,
      Option.some.injEq, exists_eq_left', hbare]
    constructor
    · rintro ⟨i, hi, -⟩
      exact ⟨i, hi⟩
    · rintro ⟨i, hi⟩
      exact ⟨i, hi, hlive hi⟩

theorem Consistent.keepsBlock_iff (hn : n.Consistent) {b : BlockId} {r : BlockRecord}
    (hb : n.store.blocks b = some r) : n.keepsBlock b = true ↔
      r.ports = [] ∨ ∃ p ∈ r.ports, ∃ q, n.store.ports p = some q ∧ q.bare = false := by
  rw [keepsBlock, portsOf_eq_ok hb]
  simp only [Bool.or_eq_true, List.isEmpty_iff, List.any_eq_true, hn.keepsPort_iff]

namespace Compacts

variable (h : Compacts n t m)
include h

theorem live_eq_filter (k : Kind) : t.live k = (n.live k).filter (t.IsLive ·) := by
  rw [live, live, Slots.live_eq_filter (h.shrinks.consistent.sized.placed k),
    Slots.live_eq_filter (h.consistent.sized.placed k), h.shrinks.issued, List.filter_filter]
  refine List.filter_congr fun x _ => ?_
  rw [← Bool.decide_and, decide_eq_decide]
  exact ⟨fun hx => ⟨hx, h.shrinks.remains.live hx⟩, And.left⟩

/-- What is live after the sweep is what compaction keeps. -/
theorem live_eq_survivors (k : Kind) : t.live k = n.survivors k := by
  have ht := h.shrinks.consistent.sized
  have hn := h.consistent.sized
  have hmem {k : Kind} {x : Handle k} (hx : x ∈ n.live k) : n.IsLive x :=
    (Slots.mem_live_iff (hn.placed k)).1 hx
  rw [h.live_eq_filter]
  cases k with
  | block =>
    refine List.filter_congr fun b hb => ?_
    obtain ⟨r, hr⟩ := hn.isLive_block_iff.1 (hmem hb)
    rw [Bool.eq_iff_iff, decide_eq_true_iff, h.consistent.keepsBlock_iff hr, ht.isLive_block_iff,
      h.shrinks.store]
    simp only [Store.without_unused_blocks_eq_some_iff, hr, Option.some.injEq]
    constructor
    · rintro ⟨_, rfl, hused⟩
      exact hused
    · intro hused
      exact ⟨r, rfl, hused⟩
  | port =>
    refine List.filter_congr fun p hp => ?_
    rw [Bool.eq_iff_iff, decide_eq_true_iff, h.consistent.keepsPort_iff, ht.isLive_port_iff,
      h.shrinks.store]
    simp only [Store.without_unused_ports_eq_some_iff]
  | pin =>
    refine List.filter_eq_self.2 fun i hi => decide_eq_true ?_
    rw [ht.isLive_pin_iff, h.shrinks.store, Store.without_unused_pins]
    exact hn.isLive_pin_iff.1 (hmem hi)
  | net =>
    refine List.filter_eq_self.2 fun e he => decide_eq_true ?_
    rw [ht.isLive_net_iff, h.shrinks.store, Store.without_unused_nets]
    exact hn.isLive_net_iff.1 (hmem he)

/-- The survivors get the new handles in order. -/
theorem forall₂_moves (k : Kind) : List.Forall₂ (t.moves k) (n.survivors k) (m.live k) := by
  have ht := h.shrinks.consistent.sized
  have hall : (t.live k).filter (t.IsLive ·) = t.live k :=
    List.filter_eq_self.2 fun x hx => decide_eq_true ((Slots.mem_live_iff (ht.placed k)).1 hx)
  have hmoves := forall₂_target? ht (t.live k)
  rw [hall] at hmoves
  have hnew : m.live k = (t.live k).filterMap fun x => (t.slots k).renumbering.target? x.index := by
    rw [live, live, h.slots, Slots.live_ofRenumbering, Slots.filterMap_target?_live (ht.placed k)]
  rw [← h.live_eq_survivors, hnew]
  exact hmoves

theorem slots_eq (k : Kind) :
    (m.slots k).toList = (List.range (n.survivors k).length).map fun i => some ⟨i⟩ := by
  rw [h.slots, Slots.ofRenumbering, Slots.handles_renumbering, ← h.live_eq_survivors, live]
  simp

/-! ## Records of what moves -/

theorem exists_block {b b' : BlockId} (hb : t.moves .block b b') :
    ∃ r r', n.store.blocks b = some r ∧ m.store.blocks b' = some r' ∧ r.Twin t.moves t m r' := by
  rcases h.twin.block_cases hb with ⟨hdead, -⟩ | ⟨r, r', hr, hr', htwin⟩
  · exact absurd (Slots.Moves.isLive (h.twin.left.sized.placed .block) hb) hdead
  · rw [h.shrinks.store] at hr
    exact ⟨r, r', (Store.without_unused_blocks_eq_some_iff.1 hr).1, hr', htwin⟩

theorem exists_port {p p' : PortId} (hp : t.moves .port p p') :
    ∃ r r', n.store.ports p = some r ∧ m.store.ports p' = some r' ∧ r.Twin t.moves t m r' := by
  rcases h.twin.port_cases hp with ⟨hdead, -⟩ | ⟨r, r', hr, hr', htwin⟩
  · exact absurd (Slots.Moves.isLive (h.twin.left.sized.placed .port) hp) hdead
  · rw [h.shrinks.store] at hr
    exact ⟨r, r', (Store.without_unused_ports_eq_some_iff.1 hr).1, hr', htwin⟩

theorem exists_pin {i i' : PinId} (hi : t.moves .pin i i') :
    ∃ r r', n.store.pins i = some r ∧ m.store.pins i' = some r' ∧ r.Twin t.moves r' := by
  rcases h.twin.pin_cases hi with ⟨hdead, -⟩ | ⟨r, r', hr, hr', htwin⟩
  · exact absurd (Slots.Moves.isLive (h.twin.left.sized.placed .pin) hi) hdead
  · rw [h.shrinks.store, Store.without_unused_pins] at hr
    exact ⟨r, r', hr, hr', htwin⟩

theorem exists_net {e e' : NetId} (he : t.moves .net e e') :
    ∃ r r', n.store.nets e = some r ∧ m.store.nets e' = some r' ∧ r.Twin t.moves t m r' := by
  rcases h.twin.net_cases he with ⟨hdead, -⟩ | ⟨r, r', hr, hr', htwin⟩
  · exact absurd (Slots.Moves.isLive (h.twin.left.sized.placed .net) he) hdead
  · rw [h.shrinks.store, Store.without_unused_nets] at hr
    exact ⟨r, r', hr, hr', htwin⟩

/-! ## The content of what moves -/

theorem string {x y : StringId} (hxy : SameText t.strings m.strings x y) :
    Concur (n.string x) (m.string y) := by
  obtain ⟨text, hx, hy⟩ := hxy
  rw [h.shrinks.strings] at hx
  exact ⟨text, string_eq_ok hx, string_eq_ok hy⟩

theorem blockName {b b' : BlockId} (hb : t.moves .block b b') :
    Concur (n.blockName b) (m.blockName b') := by
  obtain ⟨r, r', hr, hr', htwin⟩ := h.exists_block hb
  rw [blockName_eq hr, blockName_eq hr']
  exact h.string htwin.name

theorem portName {p p' : PortId} (hp : t.moves .port p p') :
    Concur (n.portName p) (m.portName p') := by
  obtain ⟨r, r', hr, hr', htwin⟩ := h.exists_port hp
  rw [portName_eq hr, portName_eq hr']
  exact h.string htwin.name

theorem netName {e e' : NetId} (he : t.moves .net e e') :
    Concur (n.netName e) (m.netName e') := by
  obtain ⟨r, r', hr, hr', htwin⟩ := h.exists_net he
  rw [netName_eq hr, netName_eq hr']
  exact h.string htwin.name

theorem ownerName {p p' : PortId} (hp : t.moves .port p p') :
    Concur (n.ownerName p) (m.ownerName p') := by
  obtain ⟨r, r', hr, hr', htwin⟩ := h.exists_port hp
  rw [Netlist.ownerName, Netlist.ownerName, portBlock_eq_ok hr, portBlock_eq_ok hr', ok_bind,
    ok_bind]
  exact h.blockName htwin.owner

theorem site {i i' : PinId} (hi : t.moves .pin i i') : Concur (n.site i) (m.site i') := by
  obtain ⟨r, r', hr, hr', htwin⟩ := h.exists_pin hi
  rw [Netlist.site, Netlist.site, pinPort_eq_ok hr, pinPort_eq_ok hr', pinBit_eq_ok hr,
    pinBit_eq_ok hr', htwin.bit]
  exact (h.ownerName htwin.port).bind fun _ => (h.portName htwin.port).bind fun _ => .ok _

theorem pinContent {i i' : PinId} (hi : t.moves .pin i i') :
    Concur (n.pinContent i) (m.pinContent i') := by
  obtain ⟨r, r', hr, hr', htwin⟩ := h.exists_pin hi
  rw [Netlist.pinContent, Netlist.pinContent, pinRole_eq_ok hr, pinRole_eq_ok hr', pinNet_eq_ok hr,
    pinNet_eq_ok hr', htwin.role]
  refine (h.site hi).bind fun _ => ?_
  exact (Concur.option htwin.net fun e e' he => h.netName he).bind fun _ => .ok _

theorem bitContent {p p' : PortId} (hp : t.moves .port p p') {r : PortRecord}
    (hr : n.store.ports p = some r) {bit : Nat} (hbit : bit < r.width) :
    Concur (n.bitContent p bit) (m.bitContent p' bit) := by
  obtain ⟨q, r', hq, hr', htwin⟩ := h.exists_port hp
  obtain rfl : r = q := Option.some.inj (hr.symm.trans hq)
  obtain ⟨slot, hslot⟩ : ∃ slot, r.pins[bit]? = some slot :=
    ⟨_, List.getElem?_eq_getElem (h.consistent.coherent.width hr ▸ hbit)⟩
  obtain ⟨slot', hslot', hpin⟩ := rel_some_left_iff.1 (hslot ▸ Forall₂.getElem? htwin.pins bit)
  rw [Netlist.bitContent, Netlist.bitContent, portPin_eq_ok hr hbit hslot,
    portPin_eq_ok hr' (htwin.width ▸ hbit) hslot']
  exact Concur.option hpin fun i i' hi => h.pinContent hi

theorem portContent {p p' : PortId} (hp : t.moves .port p p') :
    Concur (n.portContent p) (m.portContent p') := by
  obtain ⟨r, r', hr, hr', htwin⟩ := h.exists_port hp
  have hbits : Concur ((List.range r.width).mapM (n.bitContent p))
      ((List.range r.width).mapM (m.bitContent p')) := by
    refine Concur.list (R := fun bit bit' => bit = bit' ∧ bit < r.width) ?_ ?_
    · rw [List.forall₂_same]
      exact fun bit hbit => ⟨rfl, List.mem_range.1 hbit⟩
    · rintro bit _ ⟨rfl, hbit⟩
      exact h.bitContent hp hr hbit
  rw [Netlist.portContent, Netlist.portContent, portWidth_eq_ok hr, portWidth_eq_ok hr',
    portClass_eq_ok hr, portClass_eq_ok hr', htwin.portClass, ← htwin.width]
  refine (h.ownerName hp).bind fun _ => (h.portName hp).bind fun _ => ?_
  exact hbits.bind fun _ => .ok _

theorem portNames (c : PortClass) {b b' : BlockId} (hb : t.moves .block b b') :
    Concur (n.portNames (n.survivors .port) c b) (m.portNames (m.live .port) c b') := by
  obtain ⟨r, r', hr, hr', htwin⟩ := h.exists_block hb
  have hlisted := htwin.listed c
  rw [Twin.listed_eq_filter h.twin.left.sized, Twin.listed_eq_filter h.twin.right.sized] at hlisted
  have hkept : (r.listed c).filter (· ∈ n.survivors .port) = (r.listed c).filter (t.IsLive ·) := by
    refine List.filter_congr fun p _ => decide_eq_decide.2 ?_
    rw [← h.live_eq_survivors]
    exact Slots.mem_live_iff (h.twin.left.sized.placed .port)
  have hlive : (r'.listed c).filter (· ∈ m.live .port) = (r'.listed c).filter (m.IsLive ·) :=
    List.filter_congr fun p _ =>
      decide_eq_decide.2 (Slots.mem_live_iff (h.twin.right.sized.placed .port))
  rw [Netlist.portNames, Netlist.portNames, portsOfClass_eq_ok hr, portsOfClass_eq_ok hr', ok_bind,
    ok_bind, hkept, hlive]
  exact Concur.list hlisted fun p p' hp => h.portName hp

theorem blockContent {b b' : BlockId} (hb : t.moves .block b b') :
    Concur (n.blockContent (n.survivors .port) b) (m.blockContent (m.live .port) b') := by
  obtain ⟨r, r', hr, hr', htwin⟩ := h.exists_block hb
  rw [Netlist.blockContent, Netlist.blockContent, blockModel_eq_ok hr, blockModel_eq_ok hr',
    blockTable_eq_ok hr, blockTable_eq_ok hr', htwin.model, htwin.table]
  refine (h.blockName hb).bind fun _ => (h.portNames .input hb).bind fun _ => ?_
  exact (h.portNames .output hb).bind fun _ => (h.portNames .clock hb).bind fun _ => .ok _

theorem netContent {e e' : NetId} (he : t.moves .net e e') :
    Concur (n.netContent e) (m.netContent e') := by
  obtain ⟨r, r', hr, hr', htwin⟩ := h.exists_net he
  rw [Netlist.netContent, Netlist.netContent, netDriver_eq_ok hr, netDriver_eq_ok hr',
    netSinks_eq_ok hr, netSinks_eq_ok hr']
  refine (h.netName he).bind fun _ => ?_
  refine (Concur.option htwin.driver fun i i' hi => h.site hi).bind fun _ => ?_
  exact (Concur.list htwin.sinks fun i i' hi => h.site hi).bind fun _ => .ok _

theorem contentOf : Concur (n.contentOf n.survivors) m.content := by
  rw [content, Netlist.contentOf, Netlist.contentOf]
  refine (Concur.list (h.forall₂_moves .block) fun b b' hb => h.blockContent hb).bind fun _ => ?_
  refine (Concur.list (h.forall₂_moves .port) fun p p' hp => h.portContent hp).bind fun _ => ?_
  refine (Concur.list (h.forall₂_moves .pin) fun i i' hi => h.pinContent hi).bind fun _ => ?_
  exact (Concur.list (h.forall₂_moves .net) fun e e' he => h.netContent he).bind fun _ => .ok _

end Compacts

theorem exists_compacts (hn : n.Consistent) :
    ∃ t m es, n.compact = .ok (m, es) ∧ n.Compacts t m := by
  obtain ⟨t, -, m, es, f, -, ht, hcompact, hpack, hm⟩ := exists_compact hn
  exact ⟨t, m, es, hcompact, hn, ht, hpack.slots, hpack.twin ht.consistent hm ht.swept⟩

/-- Compaction of a netlist in which verification finds nothing leaves the content of the survivors
as it was, and gives them the first handles of each kind in their old order. -/
theorem content_compact (hn : n.verify = .ok (none, [])) :
    ∃ m es c, n.compact = .ok (m, es) ∧ n.contentOf n.survivors = .ok c ∧ m.content = .ok c ∧
      ∀ k, (m.slots k).toList = (List.range (n.survivors k).length).map fun i => some ⟨i⟩ := by
  have hcons : n.Consistent :=
    violations_eq_ok_nil_iff.1 (verify_eq_ok_iff_violations.1 hn)
  obtain ⟨t, m, es, hcompact, h⟩ := exists_compacts hcons
  obtain ⟨c, hbefore, hafter⟩ := h.contentOf
  exact ⟨m, es, c, hcompact, hbefore, hafter, h.slots_eq⟩

def inverter : Model := { name := "inv", ports := [.input "in" 1, .output "out" 1] }

/-- An inverter drives another over a net. It has a port to spare, and a third inverter is not
connected at all. -/
def inverters : Netlist :=
  Edit.run (.new "top")
    [.createBlock "a" inverter [], .createPort ⟨0⟩ "in", .createPort ⟨0⟩ "out",
      .createBlock "b" inverter [], .createPort ⟨1⟩ "in", .createBlock "c" inverter [],
      .createPort ⟨2⟩ "out", .createNet "w", .createPin ⟨1⟩ 0 (some ⟨0⟩) .driver,
      .createPin ⟨2⟩ 0 (some ⟨0⟩) .sink]

theorem content_compact_inverters : inverters.verify = .ok (none, []) ∧
    ∃ m es, inverters.compact = .ok (m, es) ∧ m.content = .ok {
      blocks := [⟨"a", inverter, [], [], ["out"], []⟩, ⟨"b", inverter, [], ["in"], [], []⟩]
      ports := [⟨"a", "out", 1, .output, [some ⟨⟨"a", "out", 0⟩, .driver, some "w"⟩]⟩,
        ⟨"b", "in", 1, .input, [some ⟨⟨"b", "in", 0⟩, .sink, some "w"⟩]⟩]
      pins := [⟨⟨"a", "out", 0⟩, .driver, some "w"⟩, ⟨⟨"b", "in", 0⟩, .sink, some "w"⟩]
      nets := [⟨"w", some ⟨"a", "out", 0⟩, [⟨"b", "in", 0⟩]⟩] } := by
  obtain ⟨m, es, c, hcompact, hbefore, hafter, -⟩ := content_compact (n := inverters) rfl
  exact ⟨rfl, m, es, hcompact, hafter.trans (hbefore.symm.trans rfl)⟩

end Netlist

end MappedNetlist
