import MappedNetlist.Proofs.Frame
import MappedNetlist.Proofs.Invariance
import MappedNetlist.Proofs.Twin.Basic

/-!
# What detaching a net or a pin changes

A removed net leaves its pins where they are, a pin is taken off its net or removed, and that is all
that happens: each of these says which handle is gone, which pins are on no net any more and which
single slot of which list is empty. What they free can be taken again at once. A pin is created at
the bit of a removed one, another pin drives the net that lost its driver, and the name and the pins
of a removed net make a new one.
-/

namespace MappedNetlist.Netlist

variable {n m : Netlist} {d : Loss} {p : PortId} {i : PinId} {e : NetId} {net : Option NetId}
  {role : PinRole} {bit : Nat} {name : String} {driver : Option PinId} {sinks : List PinId}

theorem slotRole_eq_driver_iff {slot : Nat} : slotRole slot = .driver ↔ slot = 0 := by
  simp [slotRole]

/-! ## Taking up what is free -/

/-- A pin of a role can be created at a bit and on a net, and verification finds nothing then. -/
def Accepts (n : Netlist) (p : PortId) (bit : Nat) (net : Option NetId) (role : PinRole) : Prop :=
  ∃ i m, n.createPin p bit net role = .ok (i, m) ∧ ¬n.IsLive i ∧ m.portPin p bit = .ok (some i) ∧
    m.pinNet i = .ok net ∧ m.pinRole i = .ok role ∧
    (role = .driver → ∀ e, net = some e → m.netDriver e = .ok (some i)) ∧
    m.verify = .ok (none, [])

/-- A new net of a name can be made of pins, and verification finds nothing then. -/
def Connects (n : Netlist) (name : String) (driver : Option PinId) (sinks : List PinId) : Prop :=
  ∃ e m, n.addNet name driver sinks = .ok (e, m) ∧ ¬n.IsLive e ∧ m.net? name = some e ∧
    m.netDriver e = .ok driver ∧ m.netSinks e = .ok sinks ∧ m.verify = .ok (none, [])

namespace Consistent

variable (hn : n.Consistent)
include hn

/-- A driver stands in the first slot of its net. -/
theorem netDriver_of_role {r : PinRecord} (hi : n.store.pins i = some r) (hnet : r.net = some e)
    (hrole : r.role = .driver) : n.netDriver e = .ok (some i) := by
  obtain ⟨t, ht, slot, hslot, hslotRole⟩ := hn.coherent.connected hi hnet
  obtain rfl := slotRole_eq_driver_iff.1 (hslotRole.trans hrole)
  exact hn.netDriver_eq_ok_some_iff.2 ⟨t, ht, hslot⟩

theorem vacant_of_netDriver
    (h : role = .driver → ∀ e, net = some e → n.netDriver e = .ok none) : n.Vacant net role := by
  intro e t he ht hrole
  have hnone := h hrole e he
  rw [netDriver_eq_ok ht, Except.ok.injEq] at hnone
  exact (NetRecord.driver_eq_none_iff (hn.coherent.slotted ht)).1 hnone

/-- An empty bit accepts a pin, on any net that has room for it. -/
theorem accepts (hempty : n.portPin p bit = .ok none) (hnet : ∀ e, net = some e → n.IsLive e)
    (hvacant : role = .driver → ∀ e, net = some e → n.netDriver e = .ok none) :
    n.Accepts p bit net role := by
  obtain ⟨r, hr, hbit, hindex⟩ := hn.portPin_eq_ok_none_iff.1 hempty
  obtain ⟨m, hcreate, hm, hstore, -⟩ :=
    createPin_of_none hn hr hbit hnet hindex (hn.vacant_of_netDriver hvacant)
  have hpin : m.store.pins ⟨n.pins.slots.size⟩ = some ⟨p, bit, net, role⟩ := by
    rw [hstore]
    exact Function.update_self ..
  obtain ⟨t, ht, hwidth, hslot⟩ := hm.consistent.coherent.placed hpin
  exact ⟨_, m, hcreate, Slots.not_isLive_size _, portPin_eq_ok ht hwidth hslot, pinNet_eq_ok hpin,
    pinRole_eq_ok hpin, fun hrole e he => hm.consistent.netDriver_of_role hpin he hrole,
    hm.consistent.verify_eq_ok⟩

/-- Pins that are on no net make a new one. -/
theorem connects (hname : n.net? name = none)
    (hdriver : ∀ i, driver = some i → n.pinNet i = .ok none ∧ n.pinRole i = .ok .driver)
    (hsinks : ∀ i ∈ sinks, n.pinNet i = .ok none ∧ n.pinRole i = .ok .sink)
    (hnodup : sinks.Nodup) : n.Connects name driver sinks := by
  have hfree : n.Free (asked driver sinks) := by
    constructor
    · intro i role hi
      obtain ⟨hnet, hrole⟩ : n.pinNet i = .ok none ∧ n.pinRole i = .ok role := by
        rcases List.mem_append.1 hi with hi | hi
        · obtain ⟨j, hj, heq⟩ := List.mem_map.1 hi
          cases heq
          exact hdriver i (Option.mem_toList.1 hj)
        · obtain ⟨j, hj, heq⟩ := List.mem_map.1 hi
          cases heq
          exact hsinks i hj
      obtain ⟨r, hr, hnet⟩ := (pinNet_eq_ok_iff hn.sized).1 hnet
      rw [pinRole_eq_ok hr, Except.ok.injEq] at hrole
      exact ⟨r, hr, hrole, hnet⟩
    · rw [map_fst_asked]
      refine List.nodup_append.2 ⟨by cases driver <;> simp, hnodup, ?_⟩
      -- a driver is no sink
      rintro i hi _ hmem rfl
      have hroles := (hdriver i (Option.mem_toList.1 hi)).2.symm.trans (hsinks i hmem).2
      cases hroles
  obtain ⟨m, x, hadd, hm, hstore, htext⟩ := addNet_of_none hn hname hfree
  have hnet : m.store.nets ⟨n.nets.slots.size⟩ = some ⟨x, driver :: sinks.map some⟩ := by
    rw [hstore]
    exact Function.update_self ..
  refine ⟨_, m, hadd, Slots.not_isLive_size _, hm.consistent.net?_eq_some_iff.2 ⟨_, hnet, htext⟩,
    netDriver_eq_ok hnet, ?_, hm.consistent.verify_eq_ok⟩
  rw [netSinks_eq_ok hnet]
  simp

end Consistent

/-! ## A net -/

/-- `m` is `n` without the net `e`, whose pins stay. -/
structure DropsNet (n m : Netlist) (e : NetId) : Prop where
  retires : n.Retires m e.Is
  /-- The pins of the net are on no net. Nothing else is changed of them, and nothing of others. -/
  pin {i : PinId} {r : PinRecord} : n.store.pins i = some r →
    m.store.pins i = some { r with net := if r.net = some e then none else r.net }
  record {k : Kind} {a : Handle k} : k ≠ .pin → m.IsLive a → m.store.record? a = n.store.record? a
  dirty : m.dirty = true
  /-- The name is free, and the pins make a new net of that name. -/
  net? {name : String} : n.netName e = .ok name → m.net? name = none
  connects {name : String} {driver : Option PinId} {sinks : List PinId} :
    n.netName e = .ok name → n.netDriver e = .ok driver → n.netSinks e = .ok sinks →
      m.Connects name driver sinks ∧ m.Connects name none []

/-- The pins of a removed net are on no net. -/
theorem Shrinks.pins_of_ofNet (h : n.Shrinks m (.ofNet e)) {r : PinRecord}
    (hi : n.store.pins i = some r) :
    m.store.pins i = some { r with net := if r.net = some e then none else r.net } := by
  rw [h.store]
  refine Store.without_pins_eq_some_iff.2 ⟨rfl, r, hi, PinRecord.ext rfl rfl ?_ rfl⟩
  rw [PinRecord.release_net]
  cases hnet : r.net with
  | none => rfl
  | some x => by_cases hx : x = e <;> simp [Loss.ofNet, Option.filter, hx]

section DropsNet

variable (hn : n.Consistent)
include hn

/-- The sinks of a net are not repeated. -/
theorem Consistent.nodup_netSinks {t : NetRecord} (he : n.store.nets e = some t) :
    (t.pins.tail.filterMap id).Nodup := by
  rw [List.Nodup, List.pairwise_filterMap, List.pairwise_iff_getElem]
  rintro j k hj hk hlt i hi _ hk' rfl
  have hj' : t.pins[j + 1]? = some (some i) := by
    rw [← List.getElem?_tail]
    exact List.getElem?_eq_some_iff.2 ⟨hj, hi⟩
  have hk' : t.pins[k + 1]? = some (some i) := by
    rw [← List.getElem?_tail]
    exact List.getElem?_eq_some_iff.2 ⟨hk, hk'⟩
  exact absurd (Nat.succ.inj (hn.coherent.once he hj' hk')) (Nat.ne_of_lt hlt)

variable (h : n.Shrinks m (.ofNet e))
include h

theorem Shrinks.record?_of_ofNet {k : Kind} {a : Handle k} (hk : k ≠ .pin) (ha : m.IsLive a) :
    m.store.record? a = n.store.record? a := by
  have hkept := ((h.isLive_iff hn.sized).1 ha).2
  rw [h.store]
  cases k with
  | block => exact Store.without_blocks_of_kept hkept
  | port => exact hn.coherent.without_ports_of_kept hkept fun _ _ => rfl
  | pin => exact absurd rfl hk
  | net => exact hn.coherent.without_nets_of_kept hkept fun _ _ => ⟨rfl, rfl⟩

/-- No other net has the name of the one that was removed. -/
theorem Shrinks.net?_of_ofNet (hname : n.netName e = .ok name) : m.net? name = none := by
  obtain ⟨t, ht, htext⟩ := (netName_eq_ok_iff hn.sized).1 hname
  have hfound := hn.net?_eq_some_iff.2 ⟨t, ht, htext⟩
  rw [Option.eq_none_iff_forall_ne_some]
  intro x hx
  obtain ⟨r, hr, hother⟩ := h.consistent.net?_eq_some_iff.1 hx
  rw [h.store] at hr
  obtain ⟨hkept, q, hq, rfl⟩ := Store.without_nets_eq_some_iff.1 hr
  rw [h.strings] at hother
  have hsame := hn.net?_eq_some_iff.2 ⟨q, hq, hother⟩
  rw [hfound, Option.some_inj] at hsame
  simp [Loss.ofNet, hsame] at hkept

/-- The pins of the removed net make a new net. -/
theorem Shrinks.connects_of_ofNet (hname : n.netName e = .ok name)
    (hdriver : n.netDriver e = .ok driver) (hsinks : n.netSinks e = .ok sinks) :
    m.Connects name driver sinks := by
  obtain ⟨t, ht, rfl⟩ := (netDriver_eq_ok_iff hn.sized).1 hdriver
  rw [netSinks_eq_ok ht, Except.ok.injEq] at hsinks
  have hfree {i : PinId} {slot : Nat} (hslot : t.pins[slot]? = some (some i)) :
      m.pinNet i = .ok none ∧ m.pinRole i = .ok (slotRole slot) := by
    obtain ⟨q, hq, hnet, hrole⟩ := hn.coherent.attached ht hslot
    have hq' := h.pins_of_ofNet hq
    rw [pinNet_eq_ok hq', pinRole_eq_ok hq', ← hrole, if_pos hnet]
    exact ⟨rfl, rfl⟩
  refine h.consistent.connects (h.net?_of_ofNet hn hname) ?_ ?_ (hsinks ▸ hn.nodup_netSinks ht)
  · intro i hi
    rw [Option.join_eq_some_iff, List.head?_eq_getElem?] at hi
    exact hfree hi
  · intro i hi
    rw [← hsinks, List.mem_filterMap] at hi
    obtain ⟨_, hmem, rfl⟩ := hi
    obtain ⟨slot, hslot⟩ := List.mem_iff_getElem?.1 hmem
    rw [List.getElem?_tail] at hslot
    exact hfree hslot

theorem Shrinks.dropsNet (he : n.IsLive e) : n.DropsNet m e where
  retires := h.retires hn fun {k a} _ => by
    cases k with
    | net => simp [Loss.takes, Loss.ofNet]
    | _ => simpa [Loss.takes, Loss.ofNet] using Handle.not_is (by simp)
  pin := h.pins_of_ofNet
  record := h.record?_of_ofNet hn
  dirty := by
    refine h.dirty_of_ne fun heq => ?_
    have hkept := ((h.isLive_iff hn.sized (x := e)).1 (heq ▸ he)).2
    simp [Loss.takes, Loss.ofNet] at hkept
  net? := h.net?_of_ofNet hn
  connects hname hdriver hsinks :=
    ⟨h.connects_of_ofNet hn hname hdriver hsinks,
      h.consistent.connects (h.net?_of_ofNet hn hname) (by simp) (by simp) List.nodup_nil⟩

end DropsNet

/-! ## A pin -/

/-- On the nets of `m` the pin `i` is missing: its slot is empty, if it had one, and everything else
is as it is on the nets of `n`. -/
structure Unplugs (n m : Netlist) (i : PinId) : Prop where
  net {e : NetId} {t : NetRecord} : n.pinNet i = .ok (some e) → n.store.nets e = some t →
    ∃ slot, t.pins[slot]? = some (some i) ∧ (slot = 0 ↔ n.pinRole i = .ok .driver) ∧
      m.store.nets e = some { t with pins := t.pins.set slot none }
  other {e : NetId} : n.pinNet i ≠ .ok (some e) → m.store.nets e = n.store.nets e
  /-- A net that lost its driver accepts another one, at any bit that is empty. -/
  accepts {e : NetId} {p : PortId} {bit : Nat} : n.pinNet i = .ok (some e) →
    n.pinRole i = .ok .driver → m.portPin p bit = .ok none → m.Accepts p bit (some e) .driver

/-- `m` is `n` with the pin `i` on no net. -/
structure TakesOff (n m : Netlist) (i : PinId) : Prop where
  retires : n.Retires m fun _ => False
  unplugs : n.Unplugs m i
  pin {r : PinRecord} : n.store.pins i = some r → m.store.pins i = some { r with net := none }
  record {k : Kind} {a : Handle k} : k ≠ .net → ¬i.Is a → m.store.record? a = n.store.record? a
  dirty : m.dirty = true
  /-- The pin makes a new net of any name that is free. -/
  connects_driver {name : String} : n.pinRole i = .ok .driver → m.net? name = none →
    m.Connects name (some i) []
  connects_sink {name : String} : n.pinRole i = .ok .sink → m.net? name = none →
    m.Connects name none [i]

/-- `m` is `n` without the pin `i`. -/
structure DropsPin (n m : Netlist) (i : PinId) : Prop where
  retires : n.Retires m i.Is
  unplugs : n.Unplugs m i
  port {p : PortId} {r : PortRecord} {bit : Nat} : n.pinPort i = .ok p → n.pinBit i = .ok bit →
    n.store.ports p = some r → m.store.ports p = some { r with pins := r.pins.set bit none }
  record {k : Kind} {a : Handle k} : k ≠ .net → ¬i.Is a →
    (∀ p : PortId, n.pinPort i = .ok p → ¬p.Is a) → m.store.record? a = n.store.record? a
  dirty : m.dirty = true
  /-- The bit is empty, and no pin is found there. -/
  empty {p : PortId} {bit : Nat} : n.pinPort i = .ok p → n.pinBit i = .ok bit →
    m.portPin p bit = .ok none ∧ m.pin? p bit = .ok none
  /-- The bit accepts another pin. -/
  accepts {p : PortId} {bit : Nat} {net : Option NetId} {role : PinRole} : n.pinPort i = .ok p →
    n.pinBit i = .ok bit → (∀ e, net = some e → m.IsLive e) →
    (role = .driver → ∀ e, net = some e → m.netDriver e = .ok none) → m.Accepts p bit net role

/-- A pin that was taken off its net is on no net. -/
theorem Shrinks.pins_of_ofLink (h : n.Shrinks m (.ofLink i)) {r : PinRecord}
    (hi : n.store.pins i = some r) :
    m.store.pins i = some { r with net := none } := by
  rw [h.store]
  refine Store.without_pins_eq_some_iff.2 ⟨rfl, r, hi, PinRecord.ext rfl rfl ?_ rfl⟩
  simp [Loss.ofLink]

section Pin

variable (hn : n.Consistent) {r : PinRecord} (hi : n.store.pins i = some r)
include hn hi

theorem Shrinks.unplugs (h : n.Shrinks m d) (hnets : ∀ e, d.nets e = false)
    (hpins : ∀ j, (d.pins j || d.links j) = (j == i)) : n.Unplugs m i := by
  have hcleared {e : NetId} {t : NetRecord} (he : n.store.nets e = some t) :
      m.store.nets e = some (t.clear (· == i)) := by
    rw [h.store]
    exact Store.without_nets_eq_some_iff.2 ⟨hnets e, t, he, by rw [funext hpins]⟩
  have hslot {e : NetId} {t : NetRecord} (hnet : r.net = some e) (he : n.store.nets e = some t) :
      ∃ slot, t.pins[slot]? = some (some i) ∧ (slot = 0 ↔ r.role = .driver) ∧
        m.store.nets e = some { t with pins := t.pins.set slot none } := by
    obtain ⟨t', ht', slot, hslot, hrole⟩ := hn.coherent.connected hi hnet
    obtain rfl : t = t' := Option.some.inj (he.symm.trans ht')
    refine ⟨slot, hslot, by rw [← hrole, slotRole_eq_driver_iff], ?_⟩
    rw [hcleared he, set_none_eq_clear (fun hj => hn.coherent.once he hj hslot) hslot]
    rfl
  constructor
  · intro e t hnet he
    rw [pinNet_eq_ok hi, Except.ok.injEq] at hnet
    rw [pinRole_eq_ok hi, Except.ok.injEq]
    exact hslot hnet he
  · intro e hother
    cases he : n.store.nets e with
    | none => simp [h.store, he]
    | some t =>
      rw [pinNet_eq_ok hi, ne_eq, Except.ok.injEq] at hother
      rw [hcleared he, hn.clear_net_eq_self hi he hother]
  · intro e p bit hnet hrole hempty
    rw [pinNet_eq_ok hi, Except.ok.injEq] at hnet
    rw [pinRole_eq_ok hi, Except.ok.injEq] at hrole
    obtain ⟨t, ht, -⟩ := hn.coherent.connected hi hnet
    obtain ⟨slot, hget, hfirst, hm⟩ := hslot hnet ht
    obtain rfl := hfirst.2 hrole
    refine h.consistent.accepts hempty ?_ ?_
    · rintro _ ⟨⟩
      exact Nets.isLive_of_record? hm
    · rintro - _ ⟨⟩
      rw [netDriver_eq_ok hm, List.head?_eq_getElem?,
        List.getElem?_set_self (List.getElem?_eq_some_iff.1 hget).1]
      rfl

theorem Shrinks.takesOff (h : n.Shrinks m (.ofLink i)) (hnet : r.net ≠ none) : n.TakesOff m i := by
  have hpin := h.pins_of_ofLink hi
  have hfree {role : PinRole} (hrole : n.pinRole i = .ok role) :
      m.pinNet i = .ok none ∧ m.pinRole i = .ok role := by
    rw [pinRole_eq_ok hi] at hrole
    exact ⟨pinNet_eq_ok hpin, (pinRole_eq_ok hpin).trans hrole⟩
  exact {
    retires := h.retires hn fun {k a} _ => by cases k <;> simp [Loss.takes, Loss.ofLink]
    unplugs := h.unplugs hn hi (fun _ => rfl) fun _ => rfl
    pin := fun hi' => by rwa [← Option.some.inj (hi.symm.trans hi')]
    record := fun {k a} hk ha => by
      rw [h.store]
      cases k with
      | block => exact Store.without_blocks_of_kept rfl
      | port => exact hn.coherent.without_ports_of_kept rfl fun _ _ => rfl
      | pin =>
        refine Store.without_pins_of_kept rfl fun _ _ => ⟨beq_eq_false_iff_ne.2 ?_, rfl⟩
        exact fun h => ha (h ▸ .refl)
      | net => exact absurd rfl hk
    dirty := by
      refine h.dirty_of_ne fun heq => hnet ?_
      have hsame := Option.some.inj (hpin.symm.trans (heq ▸ hi))
      rw [← hsame]
    connects_driver := fun hrole hname => by
      refine h.consistent.connects hname ?_ (by simp) List.nodup_nil
      rintro _ ⟨⟩
      exact hfree hrole
    connects_sink := fun hrole hname => by
      refine h.consistent.connects hname (by simp) ?_ (by simp)
      simpa using hfree hrole }

/-- The port of a removed pin has an empty bit. -/
theorem Shrinks.ports_of_ofPin (h : n.Shrinks m (.ofPin i)) {q : PortRecord}
    (hq : n.store.ports r.port = some q) :
    m.store.ports r.port = some { q with pins := q.pins.set r.bit none } := by
  obtain ⟨q', hq', -, hget⟩ := hn.coherent.placed hi
  obtain rfl : q = q' := Option.some.inj (hq.symm.trans hq')
  rw [h.store]
  refine Store.without_ports_eq_some_iff.2 ⟨rfl, q, hq, PortRecord.ext rfl rfl rfl rfl ?_⟩
  exact (set_none_eq_clear (fun hj => (hn.eq_of_filled hi hq hj).2.symm) hget).symm

theorem Shrinks.portPin_of_ofPin (h : n.Shrinks m (.ofPin i)) :
    m.portPin r.port r.bit = .ok none := by
  obtain ⟨q, hq, hbit, hget⟩ := hn.coherent.placed hi
  refine portPin_eq_ok (h.ports_of_ofPin hn hi hq) hbit ?_
  rw [List.getElem?_set_self (List.getElem?_eq_some_iff.1 hget).1]

theorem Shrinks.record?_of_ofPin (h : n.Shrinks m (.ofPin i)) {k : Kind} {a : Handle k}
    (hk : k ≠ .net) (ha : ¬i.Is a) (hport : ¬r.port.Is a) :
    m.store.record? a = n.store.record? a := by
  rw [h.store]
  cases k with
  | block => exact Store.without_blocks_of_kept rfl
  | port =>
    refine hn.coherent.without_ports_of_kept rfl fun {j t} hj ht => beq_eq_false_iff_ne.2 ?_
    rintro rfl
    obtain rfl : r = t := Option.some.inj (hi.symm.trans hj)
    exact hport (ht ▸ .refl)
  | pin =>
    refine Store.without_pins_of_kept (beq_eq_false_iff_ne.2 ?_) fun _ _ => ⟨rfl, rfl⟩
    exact fun h => ha (h ▸ .refl)
  | net => exact absurd rfl hk

theorem Shrinks.dropsPin (h : n.Shrinks m (.ofPin i)) : n.DropsPin m i := by
  have hempty := h.portPin_of_ofPin hn hi
  have hsite {p : PortId} {bit : Nat} (hp : n.pinPort i = .ok p) (hb : n.pinBit i = .ok bit) :
      r.port = p ∧ r.bit = bit := by
    rw [pinPort_eq_ok hi, Except.ok.injEq] at hp
    rw [pinBit_eq_ok hi, Except.ok.injEq] at hb
    exact ⟨hp, hb⟩
  exact {
    retires := h.retires hn fun {k a} _ => by
      cases k with
      | pin => simp [Loss.takes, Loss.ofPin]
      | _ => simpa [Loss.takes, Loss.ofPin] using Handle.not_is (by simp)
    unplugs := h.unplugs hn hi (fun _ => rfl) fun _ => Bool.or_false _
    port := fun hp hb ht => by
      obtain ⟨rfl, rfl⟩ := hsite hp hb
      exact h.ports_of_ofPin hn hi ht
    record := fun hk ha hport => h.record?_of_ofPin hn hi hk ha (hport _ (pinPort_eq_ok hi))
    dirty := by
      refine h.dirty_of_ne fun heq => ?_
      have hgone := ((h.isLive_iff hn.sized (x := i)).1 (heq ▸ Pins.isLive_of_record? hi)).2
      simp [Loss.takes, Loss.ofPin] at hgone
    empty := fun hp hb => by
      obtain ⟨rfl, rfl⟩ := hsite hp hb
      obtain ⟨t, ht, hwidth, hindex⟩ := h.consistent.portPin_eq_ok_none_iff.1 hempty
      refine ⟨hempty, ?_⟩
      simp only [pin?, hasBit_eq_ok ht, ok_bind, decide_eq_true hwidth, if_true, hindex, pure_eq_ok]
    accepts := fun hp hb => by
      obtain ⟨rfl, rfl⟩ := hsite hp hb
      exact h.consistent.accepts hempty }

end Pin

/-- A pin is taken off no net but the one that it is on. -/
theorem Consistent.removeNetPin_ne_ok (hn : n.Consistent) (h : n.pinNet i ≠ .ok (some e))
    (m : Netlist) : n.removeNetPin e i ≠ .ok m := by
  by_cases he : n.IsLive e
  · by_cases hi : n.IsLive i
    · obtain ⟨r, hr⟩ := hn.sized.isLive_pin_iff.1 hi
      rw [pinNet_eq_ok hr, ne_eq, Except.ok.injEq] at h
      simp [removeNetPin_of_apart he hr h]
    · simp [removeNetPin_of_deadPin he hi]
  · simp [removeNetPin_of_deadNet he]

/-- Removing a net, taking a pin off its net and removing a pin change what they name and nothing
else, and what they free can be taken again at once. -/
theorem detachments_exact {n : Netlist} (hn : n.Reachable) :
    (∀ e : NetId, (n.IsLive e ↔ ∃ r, n.removeNet e = .ok r) ∧
      ∀ m es, n.removeNet e = .ok (m, es) → n.DropsNet m e) ∧
    (∀ (e : NetId) (i : PinId), (n.pinNet i = .ok (some e) ↔ ∃ m, n.removeNetPin e i = .ok m) ∧
      ∀ m, n.removeNetPin e i = .ok m → n.TakesOff m i) ∧
    ∀ i : PinId, (n.IsLive i ↔ ∃ r, n.removePin i = .ok r) ∧
      ∀ m es, n.removePin i = .ok (m, es) → n.DropsPin m i := by
  have hn := hn.consistent
  refine ⟨fun e => ?_, fun e i => ?_, fun i => ?_⟩
  · by_cases he : n.IsLive e
    · obtain ⟨m, es, hremove, hm⟩ := exists_removeNet hn he
      refine ⟨⟨fun _ => ⟨_, hremove⟩, fun _ => he⟩, fun m' es' h => ?_⟩
      obtain ⟨rfl, rfl⟩ := Prod.mk.inj (Except.ok.inj (hremove.symm.trans h))
      exact hm.dropsNet hn he
    · simp [removeNet_of_dead he, he]
  · by_cases hnet : n.pinNet i = .ok (some e)
    · obtain ⟨r, hr, hre⟩ := (pinNet_eq_ok_iff hn.sized).1 hnet
      obtain ⟨m, hremove, hm⟩ := exists_removeNetPin hn hr hre
      refine ⟨⟨fun _ => ⟨_, hremove⟩, fun _ => hnet⟩, fun m' h => ?_⟩
      obtain rfl := Except.ok.inj (hremove.symm.trans h)
      exact hm.takesOff hn hr (by simp [hre])
    · have hfails := hn.removeNetPin_ne_ok hnet
      exact ⟨⟨fun h => absurd h hnet, fun ⟨m, h⟩ => absurd h (hfails m)⟩,
        fun m h => absurd h (hfails m)⟩
  · by_cases hi : n.IsLive i
    · obtain ⟨m, es, hremove, hm⟩ := exists_removePin hn hi
      obtain ⟨r, hr⟩ := hn.sized.isLive_pin_iff.1 hi
      refine ⟨⟨fun _ => ⟨_, hremove⟩, fun _ => hi⟩, fun m' es' h => ?_⟩
      obtain ⟨rfl, rfl⟩ := Prod.mk.inj (Except.ok.inj (hremove.symm.trans h))
      exact hm.dropsPin hn hr
    · simp [removePin_of_dead hi, hi]

/-- A net with a driver and two sinks. -/
def fanOut : List Edit :=
  let cell : Model := { name := "cell", ports := [.output "o" 1, .input "i" 2] }
  [.createBlock "a" cell [], .createPort ⟨0⟩ "o", .createPort ⟨0⟩ "i",
    .createPin ⟨0⟩ 0 none .driver, .createPin ⟨1⟩ 0 none .sink, .createPin ⟨1⟩ 1 none .sink,
    .addNet "x" (some ⟨0⟩) [⟨1⟩, ⟨2⟩]]

theorem detachments_exact_fanOut : ∃ m l k es fs,
    (Edit.run (.new "top") fanOut).removeNet ⟨0⟩ = .ok (m, es) ∧
      (Edit.run (.new "top") fanOut).DropsNet m ⟨0⟩ ∧
      (Edit.run (.new "top") fanOut).removeNetPin ⟨0⟩ ⟨2⟩ = .ok l ∧
      (Edit.run (.new "top") fanOut).TakesOff l ⟨2⟩ ∧
      (Edit.run (.new "top") fanOut).removePin ⟨0⟩ = .ok (k, fs) ∧
      (Edit.run (.new "top") fanOut).DropsPin k ⟨0⟩ := by
  obtain ⟨hnet, hlink, hpin⟩ := detachments_exact ((Reachable.new "top").run fanOut)
  obtain ⟨⟨m, es⟩, hm⟩ := (hnet ⟨0⟩).1.1 (by decide +kernel)
  obtain ⟨l, hl⟩ := (hlink ⟨0⟩ ⟨2⟩).1.1 rfl
  obtain ⟨⟨k, fs⟩, hk⟩ := (hpin ⟨0⟩).1.1 (by decide +kernel)
  exact ⟨m, l, k, es, fs, hm, (hnet ⟨0⟩).2 m es hm, hl, (hlink ⟨0⟩ ⟨2⟩).2 l hl, hk,
    (hpin ⟨0⟩).2 k fs hk⟩

end MappedNetlist.Netlist
