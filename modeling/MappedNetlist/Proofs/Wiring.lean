import MappedNetlist.Proofs.Invariance

/-!
# Wiring a net

A net can be wired in two ways. Either its pins are created without a net and the net is added with all
of them at once, or the net is created empty and every pin is put on it when it is created. The two
ways issue the same handles and leave the same netlist (`wireAtOnce_eq_wireByPin`): before every
further pin, the second way stands where the first one would be if the net were added now
(`Netlist.Awaits`), and creating the pin keeps this.
-/

namespace MappedNetlist

/-- A bit of a port, and the role of the pin that is to be created there. -/
structure PinSite where
  place : BitKey
  role : PinRole
  deriving DecidableEq, Repr

/-- The pins of a net that is to be: one that drives it, if there is one, and those that it drives. -/
structure Terminals where
  driver : Option PinId := none
  sinks : List PinId := []

namespace Terminals

/-- The terminals with one more pin. -/
def add (t : Terminals) (i : PinId) : PinRole → Terminals
  | .driver => { t with driver := some i }
  | .sink => { t with sinks := t.sinks ++ [i] }

/-- Those of the pins at `sites` that have a role, in the order of their creation. -/
def ofRole (role : PinRole) (sites : List PinSite) (pins : List PinId) : List PinId :=
  ((sites.zip pins).filter (·.1.role = role)).map Prod.snd

/-- The pins at `sites`, by their roles. -/
def ofSites (sites : List PinSite) (pins : List PinId) : Terminals where
  driver := (ofRole .driver sites pins).head?
  sinks := ofRole .sink sites pins

/-- The terminals of both, the driver being that of `t` if it has one. -/
def append (t u : Terminals) : Terminals where
  driver := t.driver.or u.driver
  sinks := t.sinks ++ u.sinks

/-- The slots that a net with these terminals has. -/
def slots (t : Terminals) : List (Option PinId) := t.driver :: t.sinks.map some

@[simp] theorem append_ofSites_nil (t : Terminals) : t.append (ofSites [] []) = t := by
  simp [append, ofSites, ofRole]

@[simp] theorem empty_append (t : Terminals) : append {} t = t := rfl

theorem append_ofSites_cons {t : Terminals} {s : PinSite} (h : s.role = .driver → t.driver = none)
    (i : PinId) (sites : List PinSite) (pins : List PinId) :
    t.append (ofSites (s :: sites) (i :: pins)) = (t.add i s.role).append (ofSites sites pins) := by
  cases hrole : s.role with
  | driver => simp [append, ofSites, ofRole, add, hrole, h hrole]
  | sink => simp [append, ofSites, ofRole, add, hrole]

theorem length_driver_add {t : Terminals} {role : PinRole} (h : role = .driver → t.driver = none)
    (i : PinId) : (t.add i role).driver.toList.length =
      t.driver.toList.length + if role = .driver then 1 else 0 := by
  cases role with
  | driver => simp [add, h rfl]
  | sink => rfl

theorem slots_add (t : Terminals) (i : PinId) (role : PinRole) :
    (t.add i role).slots = plug i role t.slots := by
  cases role with
  | driver => rfl
  | sink => simp [slots, add, plug]

theorem asked_add_perm {t : Terminals} {role : PinRole} (h : role = .driver → t.driver = none)
    (i : PinId) : (Netlist.asked (t.add i role).driver (t.add i role).sinks).Perm
      ((i, role) :: Netlist.asked t.driver t.sinks) := by
  cases role with
  | driver => simp [Netlist.asked, add, h rfl]
  | sink =>
    simp only [Netlist.asked, add, List.map_append, List.map_cons, List.map_nil,
      ← List.append_assoc]
    exact List.perm_append_singleton ..

end Terminals

/-- A net that was added takes in a pin. -/
theorem Nets.take_push {nets : Nets} (h : nets.Sized) (r : NetRecord) (i : PinId) (role : PinRole) :
    (nets.push r).take i role (some ⟨nets.slots.size⟩) = nets.push (r.plug i role) := by
  have hget : (nets.push r).pins[nets.slots.size]? = some r.pins := by
    rw [push_pins, ← h.pins]
    exact Array.getElem?_push_size
  refine Nets.ext rfl rfl ?_
  rw [take, Column.modify_of_getElem? hget, push_pins, push_pins, ← h.pins]
  exact Column.setIfInBounds_push ..

namespace Netlist

section Joins

variable {old new : Column (Option NetId)} {e : NetId} {slots : List (Option PinId)}

theorem Joins.unique {new' : Column (Option NetId)} (h : Joins old new e slots)
    (h' : Joins old new' e slots) : new = new' :=
  Array.ext_getElem? fun i => (h.get ⟨i⟩).trans (h'.get ⟨i⟩).symm

/-- A pin that is added without a net takes a free slot. -/
theorem Joins.push (h : Joins old new e slots) {role : PinRole} (hs : slots ≠ [])
    (hfree : role = .driver → slots[0]? = some none) :
    Joins (old.push none) (new.push (some e)) e (plug ⟨old.size⟩ role slots) where
  size := by rw [Array.size_push, Array.size_push, h.size]
  get i := by
    simp only [some_mem_plug_iff hs hfree, Array.getElem?_push, h.size]
    by_cases hi : i.index = old.size
    · obtain rfl : i = ⟨old.size⟩ := by rw [← hi]
      simp
    · have hne : i ≠ ⟨old.size⟩ := fun heq => hi (by rw [heq])
      simp [hi, hne, h.get i]

end Joins

variable {n m : Netlist}

/-! ## Free pins -/

theorem Free.perm {pins pins' : List (PinId × PinRole)} (h : n.Free pins) (hp : pins'.Perm pins) :
    n.Free pins' :=
  ⟨fun i role hi => h.1 i role (hp.mem_iff.1 hi), (hp.map Prod.fst).nodup_iff.2 h.2⟩

/-- A pin that is created without a net is free, besides those that are. -/
theorem Free.addPin {pins : List (PinId × PinRole)} (h : n.Free pins) {i : PinId} {r : PinRecord}
    (hi : n.store.pins i = none) (hnet : r.net = none) (hm : m.store = n.store.addPin i r) :
    m.Free ((i, r.role) :: pins) := by
  refine ⟨fun j role hj => ?_, List.nodup_cons.2 ⟨fun hmem => ?_, h.2⟩⟩
  · rw [hm]
    rcases List.mem_cons.1 hj with heq | hj
    · cases heq
      exact ⟨r, Function.update_self .., rfl, hnet⟩
    · obtain ⟨q, hq, hq'⟩ := h.1 j role hj
      exact ⟨q, update_of_eq_some hi hq, hq'⟩
  · obtain ⟨⟨j, role⟩, hj, rfl⟩ := List.mem_map.1 hmem
    obtain ⟨q, hq, -⟩ := h.1 j role hj
    simp [hi] at hq

/-! ## The two ways -/

/-- Creates a pin at every site, in order, all of them on one net if it is given. -/
def createPins (n : Netlist) (net : Option NetId) :
    List PinSite → Except Failure (List PinId × Netlist)
  | [] => return ([], n)
  | s :: sites => do
    let (pin, n) ← n.createPin s.place.port s.place.bit net s.role
    let (pins, n) ← n.createPins net sites
    return (pin :: pins, n)

theorem createPins_cons_eq_ok {net : Option NetId} {s : PinSite} {sites : List PinSite} {i : PinId}
    {pins : List PinId} {n' : Netlist}
    (h : n.createPin s.place.port s.place.bit net s.role = .ok (i, n'))
    (hrest : n'.createPins net sites = .ok (pins, m)) :
    n.createPins net (s :: sites) = .ok (i :: pins, m) := by
  simp only [createPins, h, ok_bind, hrest, pure_eq_ok]

/-- Creates pins without a net, then the net with all of them. -/
def wireAtOnce (n : Netlist) (name : String) (sites : List PinSite) :
    Except Failure (List PinId × NetId × Netlist) := do
  let (pins, n) ← n.createPins none sites
  let terminals := Terminals.ofSites sites pins
  let (net, n) ← n.addNet name terminals.driver terminals.sinks
  return (pins, net, n)

/-- Creates a net without pins, then pins on it. -/
def wireByPin (n : Netlist) (name : String) (sites : List PinSite) :
    Except Failure (List PinId × NetId × Netlist) := do
  let (net, n) := n.createNet name
  let (pins, n) ← n.createPins (some net) sites
  return (pins, net, n)

/-- The pins in `t` are free for a net whose name is not taken, and adding it gives `e` and `m`. -/
structure Awaits (n : Netlist) (name : String) (t : Terminals) (e : NetId) (m : Netlist) :
    Prop where
  consistent : n.Consistent
  unnamed : n.net? name = none
  free : n.Free (asked t.driver t.sinks)
  added : n.addNet name t.driver t.sinks = .ok (e, m)

/-- A net without pins is a new net that is asked to have none. -/
theorem awaits_createNet (hn : n.Consistent) {name : String} (h : n.net? name = none) :
    n.Awaits name {} (n.createNet name).1 (n.createNet name).2 := by
  have hfree : n.Free (asked none []) := by simp [Free, asked]
  refine ⟨hn, h, hfree, ?_⟩
  obtain ⟨pinNets, hjoins, hadd⟩ := addNet_eq_ok hn h hfree
  rw [hadd, createNet_eq_of_none hn h, hjoins.unique (.of_unplugged ..)]
  rfl

/-- A pin that is created leaves the other bits without a pin as they are. -/
theorem portPin_withPin (hn : n.Consistent) {r : PortRecord} {q : PinRecord}
    (hm : (n.withPin r q).Consistent)
    (hstore : (n.withPin r q).store = n.store.addPin ⟨n.pins.slots.size⟩ q) {place : BitKey}
    (hne : place ≠ q.key) (h : n.portPin place.port place.bit = .ok none) :
    (n.withPin r q).portPin place.port place.bit = .ok none := by
  obtain ⟨t, ht, hbit, hindex⟩ := hn.portPin_eq_ok_none_iff.1 h
  rw [hm.portPin_eq_ok_none_iff, hstore]
  refine ⟨_, modify_eq_some_iff.2 ⟨t, ht, rfl⟩, ?_, ?_⟩
  · split <;> exact hbit
  · rw [← hindex]
    exact Lookup.getElem?_insert_of_ne _ _ hne.symm

section CreatePin

variable {t : Terminals} {pinNets : Column (Option NetId)} {role : PinRole}
  (hjoins : Joins n.pins.nets pinNets ⟨n.nets.slots.size⟩ t.slots)
  (hrole : role = .driver → t.driver = none)
include hjoins hrole

/-- The net that was added takes in one more pin. -/
theorem createPin_withNet (hn : n.Consistent) {name : String} (hname : n.net? name = none)
    (hfree : n.Free (asked t.driver t.sinks)) {p : PortId} {r : PortRecord} {bit : Nat}
    (hp : n.store.ports p = some r) (hbit : bit < r.width)
    (hindex : n.index.pins[BitKey.mk p bit]? = none) :
    (n.withNet name t.slots pinNets).createPin p bit (some ⟨n.nets.slots.size⟩) role =
      .ok (⟨n.pins.slots.size⟩, (n.withNet name t.slots pinNets).withPin r
        ⟨p, bit, some ⟨n.nets.slots.size⟩, role⟩) := by
  obtain ⟨hm, hstore⟩ := grows_withNet_of_free hn hname hfree hjoins
  have hnet : (n.withNet name t.slots pinNets).store.nets ⟨n.nets.slots.size⟩ =
      some ⟨(n.strings.intern name).1, t.slots⟩ :=
    (congrFun (congrArg Store.nets hstore) _).trans (Function.update_self ..)
  refine createPin_eq_ok hm.consistent hp hbit ?_ hindex ?_
  · rintro _ ⟨rfl⟩
    exact hm.consistent.sized.isLive_net_iff.2 ⟨_, hnet⟩
  · rintro _ u ⟨rfl⟩ hu hs
    cases hnet.symm.trans hu
    simp [Terminals.slots, hrole hs]

/-- A net that is added with a pin has the same columns as a net that takes in the pin later. -/
theorem withNet_withPin (hn : n.Sized) {pinNets' : Column (Option NetId)}
    (hjoins' : Joins (n.pins.nets.push none) pinNets' ⟨n.nets.slots.size⟩
      (t.add ⟨n.pins.slots.size⟩ role).slots) (name : String) (r : PortRecord) (p : PortId)
    (bit : Nat) :
    (n.withPin r ⟨p, bit, none, role⟩).withNet name (t.add ⟨n.pins.slots.size⟩ role).slots
        pinNets' =
      (n.withNet name t.slots pinNets).withPin r ⟨p, bit, some ⟨n.nets.slots.size⟩, role⟩ := by
  have hunplugged (hs : role = .driver) : t.slots[0]? = some none := by
    simp [Terminals.slots, hrole hs]
  have hpush := hjoins.push (List.cons_ne_nil _ _) hunplugged
  rw [hn.pins.nets, ← Terminals.slots_add] at hpush
  have hnets : n.nets.push ⟨(n.strings.intern name).1, (t.add ⟨n.pins.slots.size⟩ role).slots⟩ =
      (n.nets.push ⟨(n.strings.intern name).1, t.slots⟩).take ⟨n.pins.slots.size⟩ role
        (some ⟨n.nets.slots.size⟩) := by
    rw [Terminals.slots_add, Nets.take_push hn.nets]
    rfl
  rw [hjoins'.unique hpush]
  exact Netlist.ext rfl rfl rfl rfl rfl hnets rfl rfl

end CreatePin

namespace Awaits

variable {name : String} {t : Terminals} {e : NetId}

/-- A pin is created without a net, to be on the net that is added later, or on the net that is
there. -/
theorem createPin (h : n.Awaits name t e m) {s : PinSite}
    (hplace : n.portPin s.place.port s.place.bit = .ok none)
    (hrole : s.role = .driver → t.driver = none) :
    ∃ i n' m', n.createPin s.place.port s.place.bit none s.role = .ok (i, n') ∧
      m.createPin s.place.port s.place.bit (some e) s.role = .ok (i, m') ∧
      n'.Awaits name (t.add i s.role) e m' ∧
      ∀ place, place ≠ s.place → n.portPin place.port place.bit = .ok none →
        n'.portPin place.port place.bit = .ok none := by
  obtain ⟨hn, hname, hfree, hadded⟩ := h
  obtain ⟨r, hr, hbit, hindex⟩ := hn.portPin_eq_ok_none_iff.1 hplace
  obtain ⟨pinNets, hjoins, hadd⟩ := addNet_eq_ok hn hname hfree
  cases hadded.symm.trans hadd
  -- the pin without a net, and the net that would be added after it
  have hnone : ∀ e : NetId, none = some e → n.IsLive e := nofun
  have hvacant : n.Vacant none s.role := nofun
  obtain ⟨hn', hstore⟩ := grows_withPin hn hr hbit hnone hindex hvacant
  have hfree' := (hfree.addPin n.pins.record?_size rfl hstore).perm
    (Terminals.asked_add_perm hrole _)
  obtain ⟨pinNets', hjoins', hadd'⟩ := addNet_eq_ok hn'.consistent hname hfree'
  have hsame := withNet_withPin hjoins hrole hn.sized hjoins' name r s.place.port s.place.bit
  refine ⟨_, _, _, createPin_eq_ok hn hr hbit hnone hindex hvacant,
    createPin_withNet hjoins hrole hn hname hfree hr hbit hindex,
    ⟨hn'.consistent, hname, hfree', ?_⟩,
    fun place hne hopen => portPin_withPin hn hn'.consistent hstore hne hopen⟩
  rw [← Terminals.slots, hsame] at hadd'
  exact hadd'

/-- Creating pins at free places, at most one of which is to drive the net, keeps the two ways
together. -/
theorem createPins {sites : List PinSite} (h : n.Awaits name t e m)
    (hopen : ∀ s ∈ sites, n.portPin s.place.port s.place.bit = .ok none)
    (hdistinct : (sites.map PinSite.place).Nodup)
    (hdriver : t.driver.toList.length + sites.countP (·.role = .driver) ≤ 1) :
    ∃ pins n' m', n.createPins none sites = .ok (pins, n') ∧
      m.createPins (some e) sites = .ok (pins, m') ∧
      n'.Awaits name (t.append (.ofSites sites pins)) e m' := by
  -- the terminals so far are part of the induction, since the driver may come at any place
  induction sites generalizing n m t with
  | nil => exact ⟨[], n, m, rfl, rfl, t.append_ofSites_nil.symm ▸ h⟩
  | cons s sites ih =>
    obtain ⟨hplace, hdistinct⟩ := List.nodup_cons.1 hdistinct
    obtain ⟨hs, hopen⟩ := List.forall_mem_cons.1 hopen
    simp only [List.countP_cons, decide_eq_true_eq] at hdriver
    have hrole (hs : s.role = .driver) : t.driver = none := by
      rw [if_pos hs] at hdriver
      exact Option.toList_eq_nil_iff.1 (List.length_eq_zero_iff.1 (by omega))
    obtain ⟨i, n', m', hn', hm', hnext, hstill⟩ := h.createPin hs hrole
    have hopen' : ∀ s' ∈ sites, n'.portPin s'.place.port s'.place.bit = .ok none := by
      intro s' hs'
      refine hstill _ (fun heq => hplace ?_) (hopen s' hs')
      exact List.mem_map.2 ⟨s', hs', heq⟩
    have hdriver' : (t.add i s.role).driver.toList.length +
        sites.countP (·.role = .driver) ≤ 1 := by
      rw [Terminals.length_driver_add hrole]
      omega
    obtain ⟨pins, n'', m'', hn'', hm'', hlast⟩ := ih hnext hopen' hdistinct hdriver'
    exact ⟨i :: pins, n'', m'', createPins_cons_eq_ok hn' hn'', createPins_cons_eq_ok hm' hm'',
      Terminals.append_ofSites_cons hrole .. ▸ hlast⟩

end Awaits

/-- Under a name that no net has, the two ways to wire a net with pins at different bits that have none,
at most one of which is to drive it, succeed with the same handles and leave the same netlist. -/
theorem wireAtOnce_eq_wireByPin (hn : n.Reachable) {name : String}
    (hname : ∀ net, n.netName net ≠ .ok name) {sites : List PinSite}
    (hopen : ∀ s ∈ sites, n.portPin s.place.port s.place.bit = .ok none)
    (hdistinct : (sites.map PinSite.place).Nodup)
    (hdriver : sites.countP (·.role = .driver) ≤ 1) :
    ∃ pins net m, n.wireAtOnce name sites = .ok (pins, net, m) ∧
      n.wireByPin name sites = .ok (pins, net, m) := by
  have hunnamed := hn.consistent.net?_eq_none_iff.2 hname
  obtain ⟨pins, n', m, hpins, hm, hlast⟩ := (awaits_createNet hn.consistent hunnamed).createPins
    hopen hdistinct (by simpa using hdriver)
  refine ⟨pins, (n.createNet name).1, m, ?_, ?_⟩
  · have hadd := hlast.added
    rw [Terminals.empty_append] at hadd
    simp only [wireAtOnce, hpins, ok_bind, hadd, pure_eq_ok]
  · simp only [wireByPin, hm, ok_bind, pure_eq_ok]

/-- A block with a port of width two that reads and a port of width one that drives. -/
def threeBits : List Edit :=
  [.createBlock "a" { name := "loop", ports := [.input "in" 2, .output "out" 1] } [],
    .createPort ⟨0⟩ "in", .createPort ⟨0⟩ "out"]

/-- The driver is created between two sinks. -/
def feedback : List PinSite := [⟨⟨⟨0⟩, 1⟩, .sink⟩, ⟨⟨⟨1⟩, 0⟩, .driver⟩, ⟨⟨⟨0⟩, 0⟩, .sink⟩]

theorem wireAtOnce_eq_wireByPin_feedback : ∃ m,
    (Edit.run (.new "top") threeBits).wireAtOnce "w" feedback = .ok ([⟨0⟩, ⟨1⟩, ⟨2⟩], ⟨0⟩, m) ∧
    (Edit.run (.new "top") threeBits).wireByPin "w" feedback = .ok ([⟨0⟩, ⟨1⟩, ⟨2⟩], ⟨0⟩, m) ∧
    m.netSlots ⟨0⟩ = .ok [some ⟨1⟩, some ⟨0⟩, some ⟨2⟩] := by
  have hn : (Edit.run (.new "top") threeBits).Reachable := (Reachable.new "top").run threeBits
  have hnets := hn.consistent.net?_eq_none_iff.1
    (show (Edit.run (.new "top") threeBits).net? "w" = none by decide +kernel)
  have hopen : ∀ s ∈ feedback, (Edit.run (.new "top") threeBits).portPin s.place.port s.place.bit =
      .ok none := by decide +kernel
  obtain ⟨pins, net, m, hbulk, hstep⟩ :=
    wireAtOnce_eq_wireByPin hn hnets hopen (by decide) (by decide)
  have hrun : ((Edit.run (.new "top") threeBits).wireByPin "w" feedback).map
      (fun r => (r.1, r.2.1, r.2.2.netSlots ⟨0⟩)) =
        .ok ([⟨0⟩, ⟨1⟩, ⟨2⟩], ⟨0⟩, .ok [some ⟨1⟩, some ⟨0⟩, some ⟨2⟩]) := by decide +kernel
  rw [hstep] at hrun
  simp only [Except.map, Except.ok.injEq, Prod.mk.injEq] at hrun
  obtain ⟨rfl, rfl, hslots⟩ := hrun
  exact ⟨m, hbulk, hstep, hslots⟩

end Netlist

end MappedNetlist
