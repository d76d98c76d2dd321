import MappedNetlist.Proofs.Lockstep

/-!
# Twins answer alike

A query of twin netlists about paired handles fails on both sides, because the handles are dead, or
is answered from twin records. So the answers match, up to what removed entities have left in lists.
-/

namespace MappedNetlist

variable {ρ : Pairing} {n m : Netlist} {M : Answer → Answer → Prop}

theorem Corresponds.dead {k : Kind} {h h' : Handle k} {x y : Except Fault Answer} (hh : ρ k h h')
    (hx : x = .error (.deadHandle k h)) (hy : y = .error (.deadHandle k h')) :
    Corresponds ρ M (liftM x) (liftM y) := by
  subst hx hy
  exact .error (.fault (.deadHandle hh))

theorem Corresponds.answer {a a' : Answer} {x y : Except Fault Answer} (ha : M a a')
    (hx : x = .ok a) (hy : y = .ok a') : Corresponds ρ M (liftM x) (liftM y) := by
  subst hx hy
  exact .ok ha

namespace Netlist.Twin

/-! ## Looking up keys -/

/-- Two lookups give paired handles, or nothing on both sides, if what the one finds the other finds
under a paired handle. -/
theorem rel_of_iff {k : Kind} {o o' : Option (Handle k)}
    (h : ∀ x, o = some x → ∃ x', ρ k x x' ∧ o' = some x')
    (h' : ∀ x', o' = some x' → ∃ x, ρ k x x' ∧ o = some x) : Option.Rel (ρ k) o o' := by
  cases o with
  | some x =>
    obtain ⟨x', hx, rfl⟩ := h x rfl
    exact .some hx
  | none =>
    cases o' with
    | none => exact .none
    | some x' =>
      obtain ⟨x, -, hx⟩ := h' x' rfl
      exact absurd hx (by simp)

theorem block?_left (h : Twin ρ n m) {name : String} {b : BlockId} (hb : n.block? name = some b) :
    ∃ b', ρ .block b b' ∧ m.block? name = some b' := by
  obtain ⟨r, hr, hname⟩ := h.left.block?_eq_some_iff.1 hb
  obtain ⟨b', hbb⟩ := h.total (h.left.sized.isLive_block_iff.2 ⟨r, hr⟩)
  obtain ⟨r', hr', ht⟩ := rel_some_left_iff.1 (hr ▸ h.block hbb)
  exact ⟨b', hbb, h.right.block?_eq_some_iff.2 ⟨r', hr', ht.name.text_iff.1 hname⟩⟩

theorem block? (h : Twin ρ n m) (name : String) :
    Option.Rel (ρ .block) (n.block? name) (m.block? name) :=
  rel_of_iff (fun _ => h.block?_left) fun _ => h.symm.block?_left

theorem net?_left (h : Twin ρ n m) {name : String} {e : NetId} (he : n.net? name = some e) :
    ∃ e', ρ .net e e' ∧ m.net? name = some e' := by
  obtain ⟨r, hr, hname⟩ := h.left.net?_eq_some_iff.1 he
  obtain ⟨e', hee⟩ := h.total (h.left.sized.isLive_net_iff.2 ⟨r, hr⟩)
  obtain ⟨r', hr', ht⟩ := rel_some_left_iff.1 (hr ▸ h.net hee)
  exact ⟨e', hee, h.right.net?_eq_some_iff.2 ⟨r', hr', ht.name.text_iff.1 hname⟩⟩

theorem net? (h : Twin ρ n m) (name : String) :
    Option.Rel (ρ .net) (n.net? name) (m.net? name) :=
  rel_of_iff (fun _ => h.net?_left) fun _ => h.symm.net?_left

theorem indexedPort?_left (h : Twin ρ n m) {b b' : BlockId} (hb : ρ .block b b') {name : String}
    {p : PortId} (hp : n.indexedPort? b name = some p) :
    ∃ p', ρ .port p p' ∧ m.indexedPort? b' name = some p' := by
  obtain ⟨r, hr, rfl, hname⟩ := h.left.indexedPort?_eq_some_iff.1 hp
  obtain ⟨p', hpp⟩ := h.total (h.left.sized.isLive_port_iff.2 ⟨r, hr⟩)
  obtain ⟨r', hr', ht⟩ := rel_some_left_iff.1 (hr ▸ h.port hpp)
  exact ⟨p', hpp, h.right.indexedPort?_eq_some_iff.2
    ⟨r', hr', h.functional ht.owner hb, ht.name.text_iff.1 hname⟩⟩

theorem indexedPort? (h : Twin ρ n m) {b b' : BlockId} (hb : ρ .block b b') (name : String) :
    Option.Rel (ρ .port) (n.indexedPort? b name) (m.indexedPort? b' name) :=
  rel_of_iff (fun _ => h.indexedPort?_left hb) fun _ => h.symm.indexedPort?_left hb

theorem index_pins_left (h : Twin ρ n m) {p p' : PortId} (hp : ρ .port p p') {bit : Nat}
    {i : PinId} (hi : n.index.pins[BitKey.mk p bit]? = some i) :
    ∃ i', ρ .pin i i' ∧ m.index.pins[BitKey.mk p' bit]? = some i' := by
  obtain ⟨r, hr, rfl, rfl⟩ := h.left.index_pins_eq_some_iff.1 hi
  obtain ⟨i', hii⟩ := h.total (h.left.sized.isLive_pin_iff.2 ⟨r, hr⟩)
  obtain ⟨r', hr', ht⟩ := rel_some_left_iff.1 (hr ▸ h.pin hii)
  exact ⟨i', hii, h.right.index_pins_eq_some_iff.2
    ⟨r', hr', h.functional ht.port hp, ht.bit.symm⟩⟩

theorem index_pins (h : Twin ρ n m) {p p' : PortId} (hp : ρ .port p p') (bit : Nat) :
    Option.Rel (ρ .pin) (n.index.pins[BitKey.mk p bit]?) (m.index.pins[BitKey.mk p' bit]?) :=
  rel_of_iff (fun _ => h.index_pins_left hp) fun _ => h.symm.index_pins_left hp

/-! ## Queries -/

/-- A query about a dead entity is a fault. -/
theorem ask_of_dead {q : Query} {k : Kind} {x : Handle k} (hq : q.subject? = some ⟨k, x⟩)
    (hx : ¬n.IsLive x) : q.ask n = .error (.deadHandle k x) := by
  cases q <;> cases hq <;>
    simp [Query.ask, port?, Netlist.blockName, blockModel, blockCategory, blockTable, portsOfClass,
      portsOf, Netlist.portName, portWidth, portBlock, portClass, portPins, portPin, portNet, pinNet,
      pinRole, pinPort, pinBit, pinBlock, Netlist.netName, netSlots, netDriver, netSinks,
      netDriverBlock, require_of_dead hx]

section Subject

variable {q q' : Query}

/-- A query about a block has corresponding outcomes if it has for twin records. -/
theorem ask_block (h : Twin ρ n m) {b b' : BlockId} (hb : ρ .block b b')
    (hq : q.subject? = some ⟨.block, b⟩) (hq' : q'.subject? = some ⟨.block, b'⟩)
    (hlive : ∀ r r', n.store.blocks b = some r → m.store.blocks b' = some r' → r.Twin ρ n m r' →
      Corresponds ρ M (liftM (q.ask n)) (liftM (q'.ask m))) :
    Corresponds ρ M (liftM (q.ask n)) (liftM (q'.ask m)) := by
  rcases h.block_cases hb with ⟨hd, hd'⟩ | ⟨r, r', hr, hr', ht⟩
  · exact .dead hb (ask_of_dead hq hd) (ask_of_dead hq' hd')
  · exact hlive r r' hr hr' ht

theorem ask_port (h : Twin ρ n m) {p p' : PortId} (hp : ρ .port p p')
    (hq : q.subject? = some ⟨.port, p⟩) (hq' : q'.subject? = some ⟨.port, p'⟩)
    (hlive : ∀ r r', n.store.ports p = some r → m.store.ports p' = some r' → r.Twin ρ n m r' →
      Corresponds ρ M (liftM (q.ask n)) (liftM (q'.ask m))) :
    Corresponds ρ M (liftM (q.ask n)) (liftM (q'.ask m)) := by
  rcases h.port_cases hp with ⟨hd, hd'⟩ | ⟨r, r', hr, hr', ht⟩
  · exact .dead hp (ask_of_dead hq hd) (ask_of_dead hq' hd')
  · exact hlive r r' hr hr' ht

theorem ask_pin (h : Twin ρ n m) {i i' : PinId} (hi : ρ .pin i i')
    (hq : q.subject? = some ⟨.pin, i⟩) (hq' : q'.subject? = some ⟨.pin, i'⟩)
    (hlive : ∀ r r', n.store.pins i = some r → m.store.pins i' = some r' → r.Twin ρ r' →
      Corresponds ρ M (liftM (q.ask n)) (liftM (q'.ask m))) :
    Corresponds ρ M (liftM (q.ask n)) (liftM (q'.ask m)) := by
  rcases h.pin_cases hi with ⟨hd, hd'⟩ | ⟨r, r', hr, hr', ht⟩
  · exact .dead hi (ask_of_dead hq hd) (ask_of_dead hq' hd')
  · exact hlive r r' hr hr' ht

theorem ask_net (h : Twin ρ n m) {e e' : NetId} (he : ρ .net e e')
    (hq : q.subject? = some ⟨.net, e⟩) (hq' : q'.subject? = some ⟨.net, e'⟩)
    (hlive : ∀ r r', n.store.nets e = some r → m.store.nets e' = some r' → r.Twin ρ n m r' →
      Corresponds ρ M (liftM (q.ask n)) (liftM (q'.ask m))) :
    Corresponds ρ M (liftM (q.ask n)) (liftM (q'.ask m)) := by
  rcases h.net_cases he with ⟨hd, hd'⟩ | ⟨r, r', hr, hr', ht⟩
  · exact .dead he (ask_of_dead hq hd) (ask_of_dead hq' hd')
  · exact hlive r r' hr hr' ht

end Subject

/-- The slots at a bit that both ports have hold paired pins or nothing. -/
theorem exists_slot (h : Twin ρ n m) {p : PortId} {r r' : PortRecord}
    (hr : n.store.ports p = some r) (ht : r.Twin ρ n m r') {bit : Nat} (hbit : bit < r.width) :
    ∃ slot slot', r.pins[bit]? = some slot ∧ r'.pins[bit]? = some slot' ∧
      Option.Rel (ρ .pin) slot slot' := by
  rw [← h.left.coherent.width hr] at hbit
  have hslot := Forall₂.getElem? ht.pins bit
  rw [List.getElem?_eq_getElem hbit] at hslot
  obtain ⟨slot', hslot', hrel⟩ := rel_some_left_iff.1 hslot
  exact ⟨_, slot', List.getElem?_eq_getElem hbit, hslot', hrel⟩

/-- The blocks of paired live pins are paired. -/
theorem pinBlock (h : Twin ρ n m) {i i' : PinId} {r r' : PinRecord}
    (hr : n.store.pins i = some r) (hr' : m.store.pins i' = some r') (ht : r.Twin ρ r') :
    ∃ b b', n.pinBlock i = .ok b ∧ m.pinBlock i' = .ok b' ∧ ρ .block b b' := by
  obtain ⟨q, hq, -⟩ := h.left.coherent.placed hr
  obtain ⟨q', hq', hqt⟩ := rel_some_left_iff.1 (hq ▸ h.port ht.port)
  exact ⟨_, _, pinBlock_eq_ok hr hq, pinBlock_eq_ok hr' hq', hqt.owner⟩

theorem ask_findPin (h : Twin ρ n m) {p p' : PortId} (hp : ρ .port p p') (bit : Nat) :
    Corresponds ρ (Answer.Alike ρ n m) (liftM ((Query.findPin p bit).ask n))
      (liftM ((Query.findPin p' bit).ask m)) := by
  have hfault {l : Netlist} {x : PortId} (hx : l.hasBit x bit = .ok false) :
      (Query.findPin x bit).ask l = .error (.invalidPortBit x bit) := by
    rw [Query.ask, Netlist.pin?, hx]
    rfl
  have hfound {l : Netlist} {x : PortId} (hx : l.hasBit x bit = .ok true) :
      (Query.findPin x bit).ask l = .ok (.handle .pin l.index.pins[BitKey.mk x bit]?) := by
    rw [Query.ask, Netlist.pin?, hx]
    rfl
  have hrefused (hx : n.hasBit p bit = .ok false) (hx' : m.hasBit p' bit = .ok false) :
      Corresponds ρ (Answer.Alike ρ n m) (liftM ((Query.findPin p bit).ask n))
        (liftM ((Query.findPin p' bit).ask m)) := by
    rw [hfault hx, hfault hx']
    exact .error (.fault (.invalidPortBit hp bit))
  rcases h.port_cases hp with ⟨hd, hd'⟩ | ⟨r, r', hr, hr', ht⟩
  · exact hrefused (if_neg hd) (if_neg hd')
  · by_cases hbit : bit < r.width
    · exact .answer (.handle (h.index_pins hp bit)) (hfound (by simp [hasBit_eq_ok hr, hbit]))
        (hfound (by simp [hasBit_eq_ok hr', ← ht.width, hbit]))
    · exact hrefused (by simp [hasBit_eq_ok hr, hbit]) (by simp [hasBit_eq_ok hr', ← ht.width, hbit])

theorem ask_portPin (h : Twin ρ n m) {p p' : PortId} (hp : ρ .port p p') (bit : Nat) :
    Corresponds ρ (Answer.Alike ρ n m) (liftM ((Query.portPin p bit).ask n))
      (liftM ((Query.portPin p' bit).ask m)) := by
  refine h.ask_port hp rfl rfl fun r r' hr hr' ht => ?_
  by_cases hbit : bit < r.width
  · obtain ⟨slot, slot', hslot, hslot', hrel⟩ := h.exists_slot hr ht hbit
    exact .answer (.handle hrel) (by simp [Query.ask, portPin_eq_ok hr hbit hslot])
      (by simp [Query.ask, portPin_eq_ok hr' (ht.width ▸ hbit) hslot'])
  · have hle : r.width ≤ bit := Nat.not_lt.1 hbit
    have hbad := Fault.Paired.bitOutOfRange hp bit r.width
    rw [Query.ask, portPin_of_width_le hr hle, Query.ask, portPin_of_width_le hr' (ht.width ▸ hle),
      ← ht.width]
    exact .error (.fault hbad)

theorem ask_portNet (h : Twin ρ n m) {p p' : PortId} (hp : ρ .port p p') (bit : Nat) :
    Corresponds ρ (Answer.Alike ρ n m) (liftM ((Query.portNet p bit).ask n))
      (liftM ((Query.portNet p' bit).ask m)) := by
  refine h.ask_port hp rfl rfl fun r r' hr hr' ht => ?_
  by_cases hbit : bit < r.width
  · have hbit' : bit < r'.width := ht.width ▸ hbit
    obtain ⟨slot, slot', hslot, hslot', hrel⟩ := h.exists_slot hr ht hbit
    rcases hrel with hi | _
    · obtain ⟨q, hq, -⟩ := h.left.coherent.filled hr hslot
      obtain ⟨q', hq', hqt⟩ := rel_some_left_iff.1 (hq ▸ h.pin hi)
      exact .answer (.handle hqt.net) (by simp [Query.ask, portNet_of_slot hr hbit hslot hq])
        (by simp [Query.ask, portNet_of_slot hr' hbit' hslot' hq'])
    · exact .answer (.handle (k := .net) .none) (by simp [Query.ask, portNet_of_empty hr hbit hslot])
        (by simp [Query.ask, portNet_of_empty hr' hbit' hslot'])
  · have hle : r.width ≤ bit := Nat.not_lt.1 hbit
    have hbad := Fault.Paired.bitOutOfRange hp bit r.width
    rw [Query.ask, portNet, portPin_of_width_le hr hle, Query.ask, portNet,
      portPin_of_width_le hr' (ht.width ▸ hle), ← ht.width]
    exact .error (.fault hbad)

theorem ask_netDriverBlock (h : Twin ρ n m) {e e' : NetId} (he : ρ .net e e') :
    Corresponds ρ (Answer.Alike ρ n m) (liftM ((Query.netDriverBlock e).ask n))
      (liftM ((Query.netDriverBlock e').ask m)) := by
  refine h.ask_net he rfl rfl fun r r' hr hr' ht => ?_
  have hdriver := ht.driver
  cases hi : r.driver with
  | none =>
    rw [hi, rel_none_left_iff] at hdriver
    exact .answer (.handle (k := .block) .none) (by simp [Query.ask, netDriverBlock_of_undriven hr hi])
      (by simp [Query.ask, netDriverBlock_of_undriven hr' hdriver])
  | some i =>
    rw [hi, rel_some_left_iff] at hdriver
    obtain ⟨i', hi', hpair⟩ := hdriver
    obtain ⟨q, hq, -⟩ := h.left.coherent.attached hr (NetRecord.driver_eq_some_iff.1 hi)
    obtain ⟨q', hq', hqt⟩ := rel_some_left_iff.1 (hq ▸ h.pin hpair)
    obtain ⟨b, b', hb, hb', hbb⟩ := h.pinBlock hq hq' hqt
    exact .answer (.handle (.some hbb)) (by simp [Query.ask, netDriverBlock_of_driver hr hi hb])
      (by simp [Query.ask, netDriverBlock_of_driver hr' hi' hb'])

/-- A query of twins about paired handles has corresponding outcomes. -/
theorem ask (h : Twin ρ n m) {q q' : Query} (hq : q.Paired ρ q') :
    Corresponds ρ (Answer.Alike ρ n m) (liftM (q.ask n)) (liftM (q'.ask m)) := by
  cases hq with
  | findBlock name => exact .answer (.handle (h.block? name)) rfl rfl
  | findNet name => exact .answer (.handle (h.net? name)) rfl rfl
  | findPin hp bit => exact h.ask_findPin hp bit
  | findPort hb name =>
    refine h.ask_block hb rfl rfl fun r r' hr hr' ht => ?_
    refine .answer (.handle (h.indexedPort? hb name)) ?_ ?_
    · rw [Query.ask, port?, require_eq_ok (Blocks.isLive_of_record? hr)]
      rfl
    · rw [Query.ask, port?, require_eq_ok (Blocks.isLive_of_record? hr')]
      rfl
  | blockName hb =>
    refine h.ask_block hb rfl rfl fun r r' hr hr' ht => ?_
    obtain ⟨s, hs, hs'⟩ := ht.name
    exact .answer (.plain (.text s)) (by simp [Query.ask, blockName_eq hr, string_eq_ok hs])
      (by simp [Query.ask, blockName_eq hr', string_eq_ok hs'])
  | blockModel hb =>
    refine h.ask_block hb rfl rfl fun r r' hr hr' ht => ?_
    exact .answer (.plain (.model r.model)) (by simp [Query.ask, blockModel_eq_ok hr])
      (by simp [Query.ask, blockModel_eq_ok hr', ht.model])
  | blockCategory hb =>
    refine h.ask_block hb rfl rfl fun r r' hr hr' ht => ?_
    exact .answer (.plain (.category r.model.category))
      (by simp [Query.ask, blockCategory, blockModel_eq_ok hr])
      (by simp [Query.ask, blockCategory, blockModel_eq_ok hr', ht.model])
  | blockTable hb =>
    refine h.ask_block hb rfl rfl fun r r' hr hr' ht => ?_
    exact .answer (.plain (.table r.table)) (by simp [Query.ask, blockTable_eq_ok hr])
      (by simp [Query.ask, blockTable_eq_ok hr', ht.table])
  | blockPortsOfClass c hb =>
    refine h.ask_block hb rfl rfl fun r r' hr hr' ht => ?_
    have hlisted := ht.listed c
    rw [listed_eq_filter h.left.sized, listed_eq_filter h.right.sized] at hlisted
    exact .answer (.ports hlisted) (by simp [Query.ask, portsOfClass_eq_ok hr])
      (by simp [Query.ask, portsOfClass_eq_ok hr'])
  | blockPorts hb =>
    refine h.ask_block hb rfl rfl fun r r' hr hr' ht => ?_
    exact .answer (.ports (h.ports ht)) (by simp [Query.ask, portsOf_eq_ok hr])
      (by simp [Query.ask, portsOf_eq_ok hr'])
  | portName hp =>
    refine h.ask_port hp rfl rfl fun r r' hr hr' ht => ?_
    obtain ⟨s, hs, hs'⟩ := ht.name
    exact .answer (.plain (.text s)) (by simp [Query.ask, portName_eq hr, string_eq_ok hs])
      (by simp [Query.ask, portName_eq hr', string_eq_ok hs'])
  | portWidth hp =>
    refine h.ask_port hp rfl rfl fun r r' hr hr' ht => ?_
    exact .answer (.plain (.number r.width)) (by simp [Query.ask, portWidth_eq_ok hr])
      (by simp [Query.ask, portWidth_eq_ok hr', ht.width])
  | portBlock hp =>
    refine h.ask_port hp rfl rfl fun r r' hr hr' ht => ?_
    exact .answer (.handle (.some ht.owner)) (by simp [Query.ask, portBlock_eq_ok hr])
      (by simp [Query.ask, portBlock_eq_ok hr'])
  | portClass hp =>
    refine h.ask_port hp rfl rfl fun r r' hr hr' ht => ?_
    exact .answer (.plain (.portClass r.portClass)) (by simp [Query.ask, portClass_eq_ok hr])
      (by simp [Query.ask, portClass_eq_ok hr', ht.portClass])
  | portPins hp =>
    refine h.ask_port hp rfl rfl fun r r' hr hr' ht => ?_
    exact .answer (.pins (List.rel_filterMap (fun _ _ => id) ht.pins))
      (by simp [Query.ask, portPins_eq_ok hr]) (by simp [Query.ask, portPins_eq_ok hr'])
  | portPin hp bit => exact h.ask_portPin hp bit
  | portNet hp bit => exact h.ask_portNet hp bit
  | pinNet hi =>
    refine h.ask_pin hi rfl rfl fun r r' hr hr' ht => ?_
    exact .answer (.handle ht.net) (by simp [Query.ask, pinNet_eq_ok hr])
      (by simp [Query.ask, pinNet_eq_ok hr'])
  | pinRole hi =>
    refine h.ask_pin hi rfl rfl fun r r' hr hr' ht => ?_
    exact .answer (.plain (.role r.role)) (by simp [Query.ask, pinRole_eq_ok hr])
      (by simp [Query.ask, pinRole_eq_ok hr', ht.role])
  | pinPort hi =>
    refine h.ask_pin hi rfl rfl fun r r' hr hr' ht => ?_
    exact .answer (.handle (.some ht.port)) (by simp [Query.ask, pinPort_eq_ok hr])
      (by simp [Query.ask, pinPort_eq_ok hr'])
  | pinBit hi =>
    refine h.ask_pin hi rfl rfl fun r r' hr hr' ht => ?_
    exact .answer (.plain (.number r.bit)) (by simp [Query.ask, pinBit_eq_ok hr])
      (by simp [Query.ask, pinBit_eq_ok hr', ht.bit])
  | pinBlock hi =>
    refine h.ask_pin hi rfl rfl fun r r' hr hr' ht => ?_
    obtain ⟨b, b', hb, hb', hbb⟩ := h.pinBlock hr hr' ht
    exact .answer (.handle (.some hbb)) (by simp [Query.ask, hb]) (by simp [Query.ask, hb'])
  | netName he =>
    refine h.ask_net he rfl rfl fun r r' hr hr' ht => ?_
    obtain ⟨s, hs, hs'⟩ := ht.name
    exact .answer (.plain (.text s)) (by simp [Query.ask, netName_eq hr, string_eq_ok hs])
      (by simp [Query.ask, netName_eq hr', string_eq_ok hs'])
  | netSlots he =>
    refine h.ask_net he rfl rfl fun r r' hr hr' ht => ?_
    exact .answer (.slots ⟨ht.driver, ht.sinks⟩) (by simp [Query.ask, netSlots_eq_ok hr])
      (by simp [Query.ask, netSlots_eq_ok hr'])
  | netDriver he =>
    refine h.ask_net he rfl rfl fun r r' hr hr' ht => ?_
    exact .answer (.handle ht.driver) (by rw [Query.ask, netDriver_eq_ok hr]; rfl)
      (by rw [Query.ask, netDriver_eq_ok hr']; rfl)
  | netSinks he =>
    refine h.ask_net he rfl rfl fun r r' hr hr' ht => ?_
    exact .answer (.pins ht.sinks) (by rw [Query.ask, netSinks_eq_ok hr]; rfl)
      (by rw [Query.ask, netSinks_eq_ok hr']; rfl)
  | netDriverBlock he => exact h.ask_netDriverBlock he

end Netlist.Twin

end MappedNetlist
