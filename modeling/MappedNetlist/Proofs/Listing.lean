import Mathlib.Data.List.Nodup
import MappedNetlist.Netlist.Damage
import MappedNetlist.Proofs.Invariance
import MappedNetlist.Proofs.Verdict

/-!
# How often verified netlists list their parts

The check of a net remembers the pins in the slots before, so no pin is twice on a verified net, and
because pins tell their net, a connected pin is once on all nets together. The check of a block asks
of each listed port alone whether it refers back, and the check of a port whether it is listed. So
the live ports of a verified block are those that refer to it, each listed only under its class, but
how often it is listed there is not looked at (`Consistent.relist`).
-/

namespace MappedNetlist

section Collect

variable {α β : Type} {find : α → Except Fault (List β)} {as : List α} {a : α} {x : β}
  {found bs : List β}

/-- What is found in a list is found for one of its entries. -/
theorem exists_of_mem_collect (h : collect find as = .ok found) (hx : x ∈ found) :
    ∃ a ∈ as, ∃ bs, find a = .ok bs ∧ x ∈ bs := by
  induction as generalizing found with
  | nil =>
    cases h
    cases hx
  | cons a as ih =>
    obtain ⟨first, later, hfirst, hlater, rfl⟩ := collect_cons_eq_ok_iff.1 h
    rcases List.mem_append.1 hx with hx | hx
    · exact ⟨a, List.mem_cons_self, first, hfirst, hx⟩
    · obtain ⟨b, hb, hfound⟩ := ih hlater hx
      exact ⟨b, List.mem_cons_of_mem a hb, hfound⟩

/-- What is found for one entry of a list only is found in the list as often as for the entry. -/
theorem count_collect [BEq β] [LawfulBEq β] (has : as.Nodup) (h : collect find as = .ok found)
    (ha : a ∈ as) (hbs : find a = .ok bs)
    (hother : ∀ b ∈ as, ∀ cs, find b = .ok cs → x ∈ cs → b = a) : found.count x = bs.count x := by
  induction as generalizing found with
  | nil => cases ha
  | cons c as ih =>
    obtain ⟨first, later, hfirst, hlater, rfl⟩ := collect_cons_eq_ok_iff.1 h
    obtain ⟨hc, has⟩ := List.nodup_cons.1 has
    rw [List.count_append]
    rcases List.mem_cons.1 ha with rfl | ha
    · cases hfirst.symm.trans hbs
      have hlater : x ∉ later := fun hx => by
        obtain ⟨b, hb, cs, hcs, hx⟩ := exists_of_mem_collect hlater hx
        exact hc (hother b (List.mem_cons_of_mem a hb) cs hcs hx ▸ hb)
      rw [List.count_eq_zero.2 hlater, Nat.add_zero]
    · have hfirst : x ∉ first := fun hx =>
        hc (hother c List.mem_cons_self first hfirst hx ▸ ha)
      rw [List.count_eq_zero.2 hfirst, Nat.zero_add,
        ih has hlater ha fun b hb => hother b (List.mem_cons_of_mem c hb)]

end Collect

theorem count_eq_one_of_getElem? {α : Type} [BEq α] [LawfulBEq α] {l : List α} {x : α} {i : Nat}
    (hx : l[i]? = some x) (hl : ∀ j, l[j]? = some x → j = i) : l.count x = 1 := by
  induction l generalizing i with
  | nil => cases hx
  | cons a l ih =>
    cases i with
    | zero =>
      obtain rfl : a = x := Option.some.inj hx
      have hmem : a ∉ l := fun h => by
        obtain ⟨j, hj⟩ := List.mem_iff_getElem?.1 h
        cases hl (j + 1) hj
      rw [List.count_cons_self, List.count_eq_zero.2 hmem]
    | succ i =>
      have hne : a ≠ x := fun h => by cases hl 0 (congrArg some h)
      rw [List.count_cons_of_ne hne]
      exact ih hx fun j hj => Nat.succ.inj (hl (j + 1) hj)

/-! ## Lists of the same ports -/

namespace Store

variable {s : Store} {issued : Nat} {b : BlockId} {c : PortClass} {l : List PortId}

/-- The block lists other ports under a class. -/
def relist (s : Store) (b : BlockId) (c : PortClass) (l : List PortId) : Store :=
  { s with blocks := modify s.blocks b fun r => { r with listed := Function.update r.listed c l } }

/-- References between live entities stay if a block lists the same ports in another way. -/
theorem Coherent.relist (h : s.Coherent issued)
    (hl : ∀ r, s.blocks b = some r → ∀ p, p ∈ l ↔ p ∈ r.listed c) :
    (s.relist b c l).Coherent issued := by
  have hmem {r : BlockRecord} (hr : s.blocks b = some r) (d : PortClass) (p : PortId) :
      p ∈ Function.update r.listed c l d ↔ p ∈ r.listed d := by
    by_cases hd : d = c
    · subst hd
      rw [Function.update_self, hl r hr]
    · rw [Function.update_of_ne hd]
  refine { h with listed := fun {g r} hr {d p} hp => ?_, owned := fun {p q} hq => ?_ }
  · obtain ⟨r, hg, rfl⟩ := modify_eq_some_iff.1 hr
    split at hp
    · next heq =>
      subst heq
      exact h.listed hg ((hmem hg d p).1 hp)
    · exact h.listed hg hp
  · obtain ⟨r, hr, hp⟩ := h.owned hq
    refine ⟨_, modify_eq_some_iff.2 ⟨r, hr, rfl⟩, ?_⟩
    split
    · next heq => exact (hmem (heq ▸ hr) _ _).2 hp
    · exact hp

/-- The name of a block does not depend on what the block lists. -/
theorem map_name_relist (s : Store) (b : BlockId) (c : PortClass) (l : List PortId) :
    (fun g => ((s.relist b c l).blocks g).map BlockRecord.name) =
      fun g => (s.blocks g).map BlockRecord.name := by
  funext g
  simp only [relist, modify_apply, Option.map_map]
  congr 1
  funext r
  by_cases hg : g = b <;> simp [hg]

end Store

namespace Netlist

variable {n : Netlist} {b : BlockId} {p : PortId} {c : PortClass}

/-- A netlist stays consistent if a block lists the same ports in another order, or some of them
more than once. -/
theorem Consistent.relist (hn : n.Consistent) {list : List PortId}
    (hl : ∀ r, n.store.blocks b = some r → ∀ p, p ∈ list ↔ p ∈ r.listed c) :
    (n.damage (.column (.blockPorts c) (.set b.index list))).Consistent := by
  have hblocks := Blocks.record?_setListed n.blocks b list c
  have hindex : n.index.Exact (n.store.relist b c list) :=
    { hn.indexed with blocks := Store.map_name_relist n.store b c list ▸ hn.indexed.blocks }
  refine .of_store (s := n.store.relist b c list) ?_
    { hn.sized with blocks := hn.sized.blocks.setListed b list c } (hn.coherent.relist hl) hindex ?_
  · exact congrArg (Store.mk · n.store.ports n.store.pins n.store.nets) hblocks
  · have hnames : (n.damage (.column (.blockPorts c) (.set b.index list))).namesInUse =
        n.namesInUse := by cases c <;> rfl
    intro name hname
    exact hn.interned name (hnames ▸ hname)

/-! ## Ports and pins of live entities -/

/-- `ports` is what all live blocks list, and `slots` are the slots of all live nets. -/
structure Enumerates (n : Netlist) (ports : List PortId) (slots : List (Option PinId)) : Prop where
  tells_ports : collect n.portsOf (n.live .block) = .ok ports
  tells_slots : collect n.netSlots (n.live .net) = .ok slots
  /-- The live ports that a block lists are those that belong to it. -/
  mem_iff {b : BlockId} {listed : List PortId} {p : PortId} : n.portsOf b = .ok listed →
    (n.IsLive p ∧ p ∈ listed ↔ n.portBlock p = .ok b)
  /-- A live port is listed only under its class, by its block, and there at least once. -/
  listed {b : BlockId} {p : PortId} {c : PortClass} : n.portBlock p = .ok b →
    n.portClass p = .ok c → ∃ list, n.portsOfClass c b = .ok list ∧ p ∈ list ∧
      ports.count p = list.count p
  /-- A connected pin is in one slot of all. -/
  once {i : PinId} {e : NetId} : n.pinNet i = .ok (some e) → slots.count (some i) = 1
  /-- A pin in a slot is live and connected. -/
  connected {i : PinId} : some i ∈ slots → ∃ e, n.pinNet i = .ok (some e)

variable {r : BlockRecord} {q : PortRecord}

/-- A block lists its live ports under their class and not under another one. -/
theorem Consistent.count_ports (hn : n.Consistent) (hr : n.store.blocks b = some r)
    (hq : n.store.ports p = some q) : r.ports.count p = (r.listed q.portClass).count p := by
  have hother (d : PortClass) (hd : d ≠ q.portClass) : (r.listed d).count p = 0 :=
    List.count_eq_zero.2 fun hp => hd ((hn.coherent.listed hr hp).2 q hq).2.symm
  rw [BlockRecord.ports, List.count_append, List.count_append]
  generalize q.portClass = c at hother
  cases c with
  | input => simp [hother .output, hother .clock]
  | output => simp [hother .input, hother .clock]
  | clock => simp [hother .input, hother .output]

/-- On all lists of ports, a live port is as often as its block lists it under its class. -/
theorem Consistent.count_of_collect_portsOf (hn : n.Consistent) {ports : List PortId}
    (hports : collect n.portsOf (n.live .block) = .ok ports) (hq : n.store.ports p = some q)
    (hr : n.store.blocks q.owner = some r) :
    ports.count p = (r.listed q.portClass).count p := by
  have hlive : q.owner ∈ n.live .block :=
    hn.sized.mem_live_iff.2 (hn.sized.isLive_block_iff.2 ⟨r, hr⟩)
  refine (count_collect (Slots.nodup_live hn.sized.blocks.placed) hports hlive (portsOf_eq_ok hr)
    fun b _ listed hlisted hp => ?_).trans (hn.count_ports hr hq)
  obtain ⟨t, ht, rfl⟩ := (portsOf_eq_ok_iff hn.sized).1 hlisted
  exact ((hn.mem_ports_iff ht hq).1 hp).symm

/-- On the slots of all nets, a connected pin is once. -/
theorem Consistent.count_of_collect_netSlots (hn : n.Consistent) {slots : List (Option PinId)}
    (hslots : collect n.netSlots (n.live .net) = .ok slots) {i : PinId} {t : PinRecord} {e : NetId}
    (ht : n.store.pins i = some t) (he : t.net = some e) : slots.count (some i) = 1 := by
  obtain ⟨u, hu, slot, hslot, -⟩ := hn.coherent.connected ht he
  have hlive : e ∈ n.live .net := hn.sized.mem_live_iff.2 (hn.sized.isLive_net_iff.2 ⟨u, hu⟩)
  have hcount : u.pins.count (some i) = 1 :=
    count_eq_one_of_getElem? hslot fun k hk => hn.coherent.once hu hk hslot
  refine (count_collect (Slots.nodup_live hn.sized.nets.placed) hslots hlive (netSlots_eq_ok hu)
    fun g _ pins hpins hi => ?_).trans hcount
  obtain ⟨v, hv, rfl⟩ := (netSlots_eq_ok_iff hn.sized).1 hpins
  obtain ⟨k, hk⟩ := List.mem_iff_getElem?.1 hi
  obtain ⟨t', ht', hg, -⟩ := hn.coherent.attached hv hk
  cases ht.symm.trans ht'
  exact Option.some.inj (hg.symm.trans he)

theorem Consistent.exists_enumerates (hn : n.Consistent) :
    ∃ ports slots, n.Enumerates ports slots := by
  obtain ⟨ports, hports⟩ : ∃ ports, collect n.portsOf (n.live .block) = .ok ports := by
    refine exists_collect fun b hb => ?_
    obtain ⟨r, hr⟩ := hn.sized.isLive_block_iff.1 (hn.sized.mem_live_iff.1 hb)
    exact ⟨_, portsOf_eq_ok hr⟩
  obtain ⟨slots, hslots⟩ : ∃ slots, collect n.netSlots (n.live .net) = .ok slots := by
    refine exists_collect fun e he => ?_
    obtain ⟨r, hr⟩ := hn.sized.isLive_net_iff.1 (hn.sized.mem_live_iff.1 he)
    exact ⟨_, netSlots_eq_ok hr⟩
  refine ⟨ports, slots, hports, hslots, fun {b listed p} hlisted => ?_, fun {b p c} hb hc => ?_,
    fun {i e} he => ?_, fun {i} hi => ?_⟩
  · obtain ⟨r, hr, rfl⟩ := (portsOf_eq_ok_iff hn.sized).1 hlisted
    rw [portBlock_eq_ok_iff hn.sized]
    constructor
    · rintro ⟨hl, hp⟩
      obtain ⟨q, hq⟩ := hn.sized.isLive_port_iff.1 hl
      exact ⟨q, hq, (hn.mem_ports_iff hr hq).1 hp⟩
    · rintro ⟨q, hq, howner⟩
      exact ⟨hn.sized.isLive_port_iff.2 ⟨q, hq⟩, (hn.mem_ports_iff hr hq).2 howner⟩
  · obtain ⟨q, hq, rfl⟩ := (portBlock_eq_ok_iff hn.sized).1 hb
    obtain rfl : q.portClass = c := Except.ok.inj ((portClass_eq_ok hq).symm.trans hc)
    obtain ⟨r, hr, hp⟩ := hn.coherent.owned hq
    exact ⟨_, portsOfClass_eq_ok hr _, hp, hn.count_of_collect_portsOf hports hq hr⟩
  · obtain ⟨t, ht, hnet⟩ := (pinNet_eq_ok_iff hn.sized).1 he
    exact hn.count_of_collect_netSlots hslots ht hnet
  · obtain ⟨e, -, pins, hpins, hi⟩ := exists_of_mem_collect hslots hi
    obtain ⟨u, hu, rfl⟩ := (netSlots_eq_ok_iff hn.sized).1 hpins
    obtain ⟨k, hk⟩ := List.mem_iff_getElem?.1 hi
    obtain ⟨t, ht, he, -⟩ := hn.coherent.attached hu hk
    exact ⟨e, (pinNet_eq_ok_iff hn.sized).2 ⟨t, ht, he⟩⟩

/-- If verification finds nothing, the live ports that a block lists are those that belong to it,
and each is listed by no other block and under no other class; each connected pin is in one slot of
the live nets. How often a block lists a port is not looked at: verification still finds nothing
after a list is replaced by any list of the same ports. -/
theorem verify_enumerates (h : n.verify = .ok (none, [])) :
    (∃ ports slots, n.Enumerates ports slots) ∧
    ∀ (b : BlockId) (c : PortClass) (old new : List PortId), n.portsOfClass c b = .ok old →
      (∀ p, p ∈ new ↔ p ∈ old) →
      (n.damage (.column (.blockPorts c) (.set b.index new))).verify = .ok (none, []) := by
  have hn := consistent_of_verify h
  refine ⟨hn.exists_enumerates, fun b c old new hold hnew => Consistent.verify_eq_ok ?_⟩
  refine hn.relist fun r hr p => ?_
  rw [hnew p, Except.ok.inj (hold.symm.trans (portsOfClass_eq_ok hr c))]

/-- A block with an input on a net and an output without pins. -/
def twoPorts : List Edit :=
  let lut : Model := { name := "lut", ports := [.input "in" 1, .output "out" 1] }
  [.createBlock "a" lut [], .createPort ⟨0⟩ "in", .createPort ⟨0⟩ "out", .createNet "x",
    .createPin ⟨0⟩ 0 (some ⟨0⟩) .sink]

/-- The block lists its input twice, and nothing is reported. -/
theorem verify_ignores_relisted :
    ((Edit.run (.new "top") twoPorts).damage
      (.column (.blockPorts .input) (.set 0 [⟨0⟩, ⟨0⟩]))).verify = .ok (none, []) ∧
    ((Edit.run (.new "top") twoPorts).damage
      (.column (.blockPorts .input) (.set 0 [⟨0⟩, ⟨0⟩]))).portsOf ⟨0⟩ = .ok [⟨0⟩, ⟨0⟩, ⟨1⟩] := by
  have hn := ((Reachable.new "top").run twoPorts).consistent
  have hlist : (Edit.run (.new "top") twoPorts).portsOfClass .input ⟨0⟩ = .ok [⟨0⟩] := rfl
  refine ⟨(hn.relist fun r hr p => ?_).verify_eq_ok, rfl⟩
  rw [← Except.ok.inj (hlist.symm.trans (portsOfClass_eq_ok hr .input))]
  simp

theorem verify_enumerates_twoPorts :
    (Edit.run (.new "top") twoPorts).verify = .ok (none, []) ∧
    (∃ ports slots, (Edit.run (.new "top") twoPorts).Enumerates ports slots) ∧
    ((Edit.run (.new "top") twoPorts).damage
      (.column (.blockPorts .output) (.set 0 [⟨1⟩, ⟨1⟩]))).verify = .ok (none, []) := by
  have h := ((Reachable.new "top").run twoPorts).consistent.verify_eq_ok
  have hlist : (Edit.run (.new "top") twoPorts).portsOfClass .output ⟨0⟩ = .ok [⟨1⟩] := rfl
  obtain ⟨henumerates, hrelist⟩ := verify_enumerates h
  exact ⟨h, henumerates, hrelist ⟨0⟩ .output [⟨1⟩] [⟨1⟩, ⟨1⟩] hlist (by simp)⟩

end Netlist

end MappedNetlist
