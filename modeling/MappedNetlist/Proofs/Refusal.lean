import MappedNetlist.Proofs.Step

/-!
# What is refused

`Edit.Refused` says which edits of a netlist are refused and with which error, in terms of what the
netlist tells about its entities: of every edit its tests in their order, and of a new net the first
pin that does not fit. An edit of a consistent netlist fails exactly if it is refused in this sense,
and otherwise it succeeds with a step.
-/

namespace MappedNetlist

/-- A pin cannot take a slot of a new net that asks for a role. Earlier slots ask for the pins in
`earlier`. -/
inductive Netlist.Unfit (n : Netlist) (earlier : List PinId) (pin : PinId) (role : PinRole) :
    EditError → Prop
  | dead (h : ¬n.IsLive pin) : n.Unfit earlier pin role (.invalidHandle .pin pin)
  | role {other : PinRole} (h : n.pinRole pin = .ok other) (hrole : other ≠ role) :
    n.Unfit earlier pin role (.roleMismatch pin)
  | connected {net : NetId} (h : n.pinRole pin = .ok role) (hnet : n.pinNet pin = .ok (some net)) :
    n.Unfit earlier pin role (.pinAlreadyConnected pin net)
  | repeated (h : n.pinRole pin = .ok role) (hnet : n.pinNet pin = .ok none)
    (hmem : pin ∈ earlier) : n.Unfit earlier pin role (.duplicatePin pin)

/-- Of the pins that a new net is asked to have, with the roles that their slots ask for, the first one
that does not fit decides. -/
inductive Netlist.FirstUnfit (n : Netlist) :
    List PinId → List (PinId × PinRole) → EditError → Prop
  | here {earlier : List PinId} {pin : PinId} {role : PinRole} {rest : List (PinId × PinRole)}
    {err : EditError} (h : n.Unfit earlier pin role err) :
    n.FirstUnfit earlier ((pin, role) :: rest) err
  | later {earlier : List PinId} {pin : PinId} {role : PinRole} {rest : List (PinId × PinRole)}
    {err : EditError} (hfit : ∀ err, ¬n.Unfit earlier pin role err)
    (h : n.FirstUnfit (pin :: earlier) rest err) :
    n.FirstUnfit earlier ((pin, role) :: rest) err

namespace Edit

/-- The edit is refused with an error. -/
inductive Refused (n : Netlist) : Edit → EditError → Prop
  | portOfDeadBlock {block : BlockId} {name : String} (h : ¬n.IsLive block) :
    Refused n (createPort block name) (.invalidHandle .block block)
  | undeclaredPort {block : BlockId} {name : String} {model : Model}
    (hmodel : n.blockModel block = .ok model)
    (hnew : ∀ port, n.portBlock port = .ok block → n.portName port ≠ .ok name)
    (hdecl : ∀ decl ∈ model.ports, decl.name ≠ name) :
    Refused n (createPort block name) (.unknownModelPort model.name name)
  | pinOfDeadPort {port : PortId} {bit : Nat} {net : Option NetId} {role : PinRole}
    (h : ¬n.IsLive port) :
    Refused n (createPin port bit net role) (.invalidHandle .port port)
  | pinOutOfRange {port : PortId} {bit width : Nat} {net : Option NetId} {role : PinRole}
    (hwidth : n.portWidth port = .ok width) (hbit : width ≤ bit) :
    Refused n (createPin port bit net role) (.bitOutOfRange port bit width)
  | pinOnDeadNet {port : PortId} {bit width : Nat} {net : NetId} {role : PinRole}
    (hwidth : n.portWidth port = .ok width) (hbit : bit < width) (h : ¬n.IsLive net) :
    Refused n (createPin port bit (some net) role) (.invalidHandle .net net)
  | secondDriver {port : PortId} {bit : Nat} {net : NetId} {existing : PinId}
    (hpin : n.portPin port bit = .ok none) (hdriver : n.netDriver net = .ok (some existing)) :
    Refused n (createPin port bit (some net) .driver) (.driverConflict net existing)
  | knownNet {name : String} {driver : Option PinId} {sinks : List PinId} {net : NetId}
    (h : n.netName net = .ok name) :
    Refused n (addNet name driver sinks) (.duplicateNet name)
  | unfitPin {name : String} {driver : Option PinId} {sinks : List PinId} {err : EditError}
    (hnew : ∀ net, n.netName net ≠ .ok name) (h : n.FirstUnfit [] (Netlist.asked driver sinks) err) :
    Refused n (addNet name driver sinks) err
  | deadBlock {block : BlockId} (h : ¬n.IsLive block) :
    Refused n (removeBlock block) (.invalidHandle .block block)
  | deadPin {pin : PinId} (h : ¬n.IsLive pin) :
    Refused n (removePin pin) (.invalidHandle .pin pin)
  | deadNet {net : NetId} (h : ¬n.IsLive net) :
    Refused n (removeNet net) (.invalidHandle .net net)
  | pinOffDeadNet {net : NetId} {pin : PinId} (h : ¬n.IsLive net) :
    Refused n (removeNetPin net pin) (.invalidHandle .net net)
  | deadPinOffNet {net : NetId} {pin : PinId} (hnet : n.IsLive net) (h : ¬n.IsLive pin) :
    Refused n (removeNetPin net pin) (.invalidHandle .pin pin)
  | pinElsewhere {net : NetId} {pin : PinId} {other : Option NetId} (hnet : n.IsLive net)
    (h : n.pinNet pin = .ok other) (hother : other ≠ some net) :
    Refused n (removeNetPin net pin) (.pinNotOnNet pin net)

end Edit

namespace Netlist

variable {n : Netlist}

/-! ## Pins of a new net -/

theorem demandFree_of_unfit (hn : n.Consistent) {earlier : List PinId} {pin : PinId}
    {role : PinRole} {err : EditError} (h : n.Unfit earlier pin role err)
    (pins : List (PinId × PinRole)) :
    n.demandFree earlier ((pin, role) :: pins) = .error (.refused err) := by
  cases h with
  | dead h => exact demandFree_cons_of_dead h
  | role h hrole =>
    obtain ⟨r, hr, rfl⟩ := (pinRole_eq_ok_iff hn.sized).1 h
    exact demandFree_cons_of_role hr hrole
  | connected h hnet =>
    obtain ⟨r, hr, hrole⟩ := (pinRole_eq_ok_iff hn.sized).1 h
    rw [pinNet_eq_ok hr, Except.ok.injEq] at hnet
    exact demandFree_cons_of_connected hr hrole hnet
  | repeated h hnet hmem =>
    obtain ⟨r, hr, hrole⟩ := (pinRole_eq_ok_iff hn.sized).1 h
    rw [pinNet_eq_ok hr, Except.ok.injEq] at hnet
    exact demandFree_cons_of_mem hr hrole hnet hmem

/-- After a pin that fits the others are tested. -/
theorem demandFree_of_fit (hn : n.Consistent) {earlier : List PinId} {pin : PinId} {role : PinRole}
    (h : ∀ err, ¬n.Unfit earlier pin role err) (pins : List (PinId × PinRole)) :
    n.demandFree earlier ((pin, role) :: pins) = n.demandFree (pin :: earlier) pins := by
  have hl : n.IsLive pin := by
    by_contra hl
    exact h _ (.dead hl)
  obtain ⟨r, hr⟩ := hn.sized.isLive_pin_iff.1 hl
  have hrole : r.role = role := by
    by_contra hrole
    exact h _ (.role (pinRole_eq_ok hr) hrole)
  subst hrole
  have hnet : r.net = none := by
    rw [Option.eq_none_iff_forall_ne_some]
    intro net hnet
    exact h _ (.connected (pinRole_eq_ok hr) (by rw [pinNet_eq_ok hr, hnet]))
  have hmem : pin ∉ earlier := fun hmem =>
    h _ (.repeated (pinRole_eq_ok hr) (by rw [pinNet_eq_ok hr, hnet]) hmem)
  exact demandFree_cons_of_free hr rfl hnet hmem

theorem demandFree_of_firstUnfit (hn : n.Consistent) {earlier : List PinId}
    {pins : List (PinId × PinRole)} {err : EditError} (h : n.FirstUnfit earlier pins err) :
    n.demandFree earlier pins = .error (.refused err) := by
  induction h with
  | here h => exact demandFree_of_unfit hn h _
  | later hfit _ ih => rw [demandFree_of_fit hn hfit, ih]

theorem exists_firstUnfit (hn : n.Consistent) (earlier : List PinId)
    (pins : List (PinId × PinRole)) :
    (∃ err, n.FirstUnfit earlier pins err) ∨ n.demandFree earlier pins = .ok () := by
  induction pins generalizing earlier with
  | nil => exact .inr rfl
  | cons entry pins ih =>
    obtain ⟨pin, role⟩ := entry
    by_cases hunfit : ∃ err, n.Unfit earlier pin role err
    · obtain ⟨err, h⟩ := hunfit
      exact .inl ⟨err, .here h⟩
    · have hfit := not_exists.1 hunfit
      rw [demandFree_of_fit hn hfit]
      exact (ih _).imp_left fun ⟨err, h⟩ => ⟨err, .later hfit h⟩

/-! ## Keys -/

/-- A record has not both of two properties. -/
theorem not_exists_record_iff {α : Type} {record : Option α} {P Q : α → Prop} :
    (¬∃ r, record = some r ∧ P r ∧ Q r) ↔
      ((∃ r, record = some r ∧ P r) → ¬∃ r, record = some r ∧ Q r) := by
  cases record <;> simp

theorem Consistent.block?_eq_none_iff (hn : n.Consistent) {name : String} :
    n.block? name = none ↔ ∀ block, n.blockName block ≠ .ok name := by
  rw [Option.eq_none_iff_forall_ne_some]
  refine forall_congr' fun block => ?_
  rw [ne_eq, ne_eq, hn.block?_eq_some_iff, blockName_eq_ok_iff hn.sized]

/-- No port of a live block has the name. -/
theorem Consistent.indexedPort?_eq_none_iff (hn : n.Consistent) {block : BlockId} {name : String} :
    n.indexedPort? block name = none ↔
      ∀ port, n.portBlock port = .ok block → n.portName port ≠ .ok name := by
  rw [Option.eq_none_iff_forall_ne_some]
  refine forall_congr' fun port => ?_
  rw [ne_eq, hn.indexedPort?_eq_some_iff, portBlock_eq_ok_iff hn.sized, ne_eq,
    portName_eq_ok_iff hn.sized]
  exact not_exists_record_iff

/-- No live pin stands at the bit. -/
theorem Consistent.index_pins_eq_none_iff (hn : n.Consistent) {port : PortId} {bit : Nat} :
    n.index.pins[BitKey.mk port bit]? = none ↔
      ∀ pin, n.pinPort pin = .ok port → n.pinBit pin ≠ .ok bit := by
  rw [Option.eq_none_iff_forall_ne_some]
  refine forall_congr' fun pin => ?_
  rw [ne_eq, hn.index_pins_eq_some_iff, pinPort_eq_ok_iff hn.sized, ne_eq,
    pinBit_eq_ok_iff hn.sized]
  exact not_exists_record_iff

theorem Consistent.net?_eq_none_iff (hn : n.Consistent) {name : String} :
    n.net? name = none ↔ ∀ net, n.netName net ≠ .ok name := by
  rw [Option.eq_none_iff_forall_ne_some]
  refine forall_congr' fun net => ?_
  rw [ne_eq, ne_eq, hn.net?_eq_some_iff, netName_eq_ok_iff hn.sized]

theorem Consistent.portPin_eq_ok_none_iff (hn : n.Consistent) {port : PortId} {bit : Nat} :
    n.portPin port bit = .ok none ↔ ∃ r, n.store.ports port = some r ∧ bit < r.width ∧
      n.index.pins[BitKey.mk port bit]? = none := by
  constructor
  · intro h
    by_cases hl : n.IsLive port
    · obtain ⟨r, hr⟩ := hn.sized.isLive_port_iff.1 hl
      by_cases hbit : bit < r.width
      · refine ⟨r, hr, hbit, ?_⟩
        rw [Option.eq_none_iff_forall_ne_some]
        intro pin hpin
        obtain ⟨q, hq, rfl, rfl⟩ := hn.index_pins_eq_some_iff.1 hpin
        obtain ⟨t, ht, -, hslot⟩ := hn.coherent.placed hq
        obtain rfl : r = t := Option.some.inj (hr.symm.trans ht)
        rw [portPin_eq_ok hr hbit hslot] at h
        cases h
      · rw [portPin_of_width_le hr (Nat.not_lt.1 hbit)] at h
        cases h
    · rw [portPin, portWidth, require_of_dead hl] at h
      cases h
  · rintro ⟨r, hr, hbit, hindex⟩
    exact portPin_eq_ok hr hbit (hn.getElem?_of_index_pins hr hbit hindex)

theorem Consistent.netDriver_eq_ok_some_iff (hn : n.Consistent) {net : NetId} {pin : PinId} :
    n.netDriver net = .ok (some pin) ↔
      ∃ t, n.store.nets net = some t ∧ t.pins[0]? = some (some pin) := by
  constructor
  · intro h
    by_cases hl : n.IsLive net
    · obtain ⟨t, ht⟩ := hn.sized.isLive_net_iff.1 hl
      rw [netDriver_eq_ok ht, Except.ok.injEq, Option.join_eq_some_iff, List.head?_eq_getElem?] at h
      exact ⟨t, ht, h⟩
    · rw [netDriver, netSlots, require_of_dead hl] at h
      cases h
  · rintro ⟨t, ht, hdriver⟩
    rw [netDriver_eq_ok ht, List.head?_eq_getElem?, hdriver]
    rfl

/-! ## Single edits -/

theorem apply_of_refused (hn : n.Consistent) {e : Edit} {err : EditError} (h : e.Refused n err) :
    e.apply n = .error (.refused err) := by
  cases h with
  | portOfDeadBlock h => rw [Edit.apply, createPort_of_dead h, error_bind]
  | undeclaredPort hmodel hnew hdecl =>
    obtain ⟨r, hr, rfl⟩ := (blockModel_eq_ok_iff hn.sized).1 hmodel
    have hnone := hn.indexedPort?_eq_none_iff.2 hnew
    rw [Edit.apply, createPort_of_undeclared hr hnone (Model.port?_eq_none_iff.2 hdecl), error_bind]
  | pinOfDeadPort h => rw [Edit.apply, createPin_of_dead h, error_bind]
  | pinOutOfRange hwidth hbit =>
    obtain ⟨r, hr, rfl⟩ := (portWidth_eq_ok_iff hn.sized).1 hwidth
    rw [Edit.apply, createPin_of_width_le hr hbit, error_bind]
  | pinOnDeadNet hwidth hbit h =>
    obtain ⟨r, hr, rfl⟩ := (portWidth_eq_ok_iff hn.sized).1 hwidth
    rw [Edit.apply, createPin_of_deadNet hr hbit h, error_bind]
  | secondDriver hpin hdriver =>
    obtain ⟨r, hr, hbit, hnone⟩ := hn.portPin_eq_ok_none_iff.1 hpin
    obtain ⟨t, ht, hslot⟩ := hn.netDriver_eq_ok_some_iff.1 hdriver
    rw [Edit.apply, createPin_of_driven hr hbit hnone ht hslot, error_bind]
  | knownNet h =>
    have hsome := hn.net?_eq_some_iff.2 ((netName_eq_ok_iff hn.sized).1 h)
    rw [Edit.apply, addNet_of_some hsome, error_bind]
  | unfitPin hnew h =>
    have hnone := hn.net?_eq_none_iff.2 hnew
    rw [Edit.apply, addNet_of_refused hnone (demandFree_of_firstUnfit hn h), error_bind]
  | deadBlock h =>
    rw [Edit.apply, removeBlock_of_dead h, error_bind]
  | deadPin h => rw [Edit.apply, removePin_of_dead h, error_bind]
  | deadNet h => rw [Edit.apply, removeNet_of_dead h, error_bind]
  | pinOffDeadNet h => rw [Edit.apply, removeNetPin_of_deadNet h, error_bind]
  | deadPinOffNet hnet h => rw [Edit.apply, removeNetPin_of_deadPin hnet h, error_bind]
  | pinElsewhere hnet h hother =>
    obtain ⟨r, hr, rfl⟩ := (pinNet_eq_ok_iff hn.sized).1 h
    rw [Edit.apply, removeNetPin_of_apart hnet hr hother, error_bind]

/-- The edit is refused, or it succeeds with a step. -/
def Settles (n : Netlist) (e : Edit) : Prop :=
  (∃ err, e.Refused n err) ∨ ∃ r, e.apply n = .ok r ∧ n.Step e r.found r.netlist

theorem settles_createBlock (hn : n.Consistent) (name : String) (model : Model)
    (table : TruthTable) : n.Settles (.createBlock name model table) := by
  refine .inr ⟨_, rfl, ?_⟩
  cases h : n.block? name with
  | some block =>
    rw [createBlock_of_some h]
    obtain ⟨r, hr, -⟩ := hn.block?_eq_some_iff.1 h
    exact .found (hn.sized.isLive_block_iff.2 ⟨r, hr⟩)
  | none =>
    obtain ⟨m, x, hcreate, hm, hstore, -⟩ := createBlock_of_none hn h model table
    rw [hcreate]
    exact .block hm (fun _ => rfl) hstore

theorem settles_createPort (hn : n.Consistent) (block : BlockId) (name : String) :
    n.Settles (.createPort block name) := by
  by_cases hl : n.IsLive block
  · obtain ⟨r, hr⟩ := hn.sized.isLive_block_iff.1 hl
    cases hport : n.indexedPort? block name with
    | some port =>
      obtain ⟨q, hq, -⟩ := hn.indexedPort?_eq_some_iff.1 hport
      exact .inr ⟨_, by rw [Edit.apply, createPort_of_some hl hport, ok_bind]; rfl,
        .found (hn.sized.isLive_port_iff.2 ⟨q, hq⟩)⟩
    | none =>
      cases hdecl : r.model.port? name with
      | none =>
        exact .inl ⟨_, .undeclaredPort (blockModel_eq_ok hr) (hn.indexedPort?_eq_none_iff.1 hport)
          (Model.port?_eq_none_iff.1 hdecl)⟩
      | some decl =>
        obtain ⟨m, x, hcreate, hm, hstore, hname⟩ := createPort_of_none hn hr hport hdecl
        exact .inr ⟨_, by rw [Edit.apply, hcreate, ok_bind]; rfl,
          .port hm hr hname hdecl rfl rfl hstore⟩
  · exact .inl ⟨_, .portOfDeadBlock hl⟩

theorem settles_createPin (hn : n.Consistent) (port : PortId) (bit : Nat)
    (net : Option NetId) (role : PinRole) : n.Settles (.createPin port bit net role) := by
  by_cases hl : n.IsLive port
  · obtain ⟨r, hr⟩ := hn.sized.isLive_port_iff.1 hl
    have hwidth := portWidth_eq_ok hr
    by_cases hbit : bit < r.width
    · by_cases hnet : ∀ e, net = some e → n.IsLive e
      · cases hpin : n.index.pins[BitKey.mk port bit]? with
        | some pin =>
          obtain ⟨q, hq, -⟩ := hn.index_pins_eq_some_iff.1 hpin
          exact .inr ⟨_, by rw [Edit.apply, createPin_of_some hr hbit hnet hpin, ok_bind]; rfl,
            .found (hn.sized.isLive_pin_iff.2 ⟨q, hq⟩)⟩
        | none =>
          by_cases hfree : n.Vacant net role
          · obtain ⟨m, hcreate, hm, hstore, -⟩ := createPin_of_none hn hr hbit hnet hpin hfree
            exact .inr ⟨_, by rw [Edit.apply, hcreate, ok_bind]; rfl, .pin hm hstore⟩
          · obtain ⟨rfl, e, t, existing, rfl, ht, hslot⟩ := hn.exists_driver hfree
            exact .inl ⟨_, .secondDriver (hn.portPin_eq_ok_none_iff.2 ⟨r, hr, hbit, hpin⟩)
              (hn.netDriver_eq_ok_some_iff.2 ⟨t, ht, hslot⟩)⟩
      · simp only [not_forall] at hnet
        obtain ⟨e, rfl, he⟩ := hnet
        exact .inl ⟨_, .pinOnDeadNet hwidth hbit he⟩
    · exact .inl ⟨_, .pinOutOfRange hwidth (Nat.not_lt.1 hbit)⟩
  · exact .inl ⟨_, .pinOfDeadPort hl⟩

theorem settles_createNet (hn : n.Consistent) (name : String) : n.Settles (.createNet name) := by
  refine .inr ⟨_, rfl, ?_⟩
  cases h : n.net? name with
  | some net =>
    rw [createNet_of_some h]
    obtain ⟨r, hr, -⟩ := hn.net?_eq_some_iff.1 h
    exact .found (hn.sized.isLive_net_iff.2 ⟨r, hr⟩)
  | none =>
    obtain ⟨m, x, hcreate, hm, hstore, -⟩ := createNet_of_none hn h
    rw [hcreate]
    exact .net hm hstore (by simp)

theorem settles_addNet (hn : n.Consistent) (name : String) (driver : Option PinId)
    (sinks : List PinId) : n.Settles (.addNet name driver sinks) := by
  cases hnet : n.net? name with
  | some net =>
    exact .inl ⟨_, .knownNet ((netName_eq_ok_iff hn.sized).2 (hn.net?_eq_some_iff.1 hnet))⟩
  | none =>
    rcases exists_firstUnfit hn [] (asked driver sinks) with ⟨err, h⟩ | hdemand
    · exact .inl ⟨err, .unfitPin (hn.net?_eq_none_iff.1 hnet) h⟩
    · obtain ⟨m, x, hadd, hm, hstore, -⟩ :=
        addNet_of_none hn hnet (free_of_demandFree hn hdemand)
      exact .inr ⟨_, by rw [Edit.apply, hadd, ok_bind]; rfl, .net hm hstore (by simp)⟩

theorem settles_removeNetPin (hn : n.Consistent) (net : NetId) (pin : PinId) :
    n.Settles (.removeNetPin net pin) := by
  by_cases hnet : n.IsLive net
  · by_cases hpin : n.IsLive pin
    · obtain ⟨r, hr⟩ := hn.sized.isLive_pin_iff.1 hpin
      by_cases hon : r.net = some net
      · obtain ⟨m, hremove, hm⟩ := exists_removeNetPin hn hr hon
        exact .inr ⟨_, by rw [Edit.apply, hremove, ok_bind]; rfl, .loss hm⟩
      · exact .inl ⟨_, .pinElsewhere hnet (pinNet_eq_ok hr) hon⟩
    · exact .inl ⟨_, .deadPinOffNet hnet hpin⟩
  · exact .inl ⟨_, .pinOffDeadNet hnet⟩

theorem settles (hn : n.Consistent) (e : Edit) : n.Settles e := by
  cases e with
  | createBlock name model table => exact settles_createBlock hn name model table
  | createPort block name => exact settles_createPort hn block name
  | createPin port bit net role => exact settles_createPin hn port bit net role
  | createNet name => exact settles_createNet hn name
  | addNet name driver sinks => exact settles_addNet hn name driver sinks
  | removeBlock block =>
    by_cases h : n.IsLive block
    · obtain ⟨m, es, hremove, hm⟩ := exists_removeBlock hn h
      exact .inr ⟨_, by rw [Edit.apply, hremove, ok_bind]; rfl, .loss hm⟩
    · exact .inl ⟨_, .deadBlock h⟩
  | removePin pin =>
    by_cases h : n.IsLive pin
    · obtain ⟨m, es, hremove, hm⟩ := exists_removePin hn h
      exact .inr ⟨_, by rw [Edit.apply, hremove, ok_bind]; rfl, .loss hm⟩
    · exact .inl ⟨_, .deadPin h⟩
  | removeNet net =>
    by_cases h : n.IsLive net
    · obtain ⟨m, es, hremove, hm⟩ := exists_removeNet hn h
      exact .inr ⟨_, by rw [Edit.apply, hremove, ok_bind]; rfl, .loss hm⟩
    · exact .inl ⟨_, .deadNet h⟩
  | removeNetPin net pin => exact settles_removeNetPin hn net pin
  | sweep =>
    obtain ⟨m, es, hsweep, hm⟩ := exists_sweep hn
    exact .inr ⟨_, by rw [Edit.apply, hsweep]; rfl, .loss hm⟩
  | compact =>
    obtain ⟨t, -, m, es, f, -, ht, hcompact, hpacks, hm⟩ := exists_compact hn
    exact .inr ⟨_, by rw [Edit.apply, hcompact]; rfl,
      .packed rfl ht hpacks hm (namesUsed_of_compact hcompact)⟩

theorem Consistent.apply_eq_error_iff (hn : n.Consistent) {e : Edit} {err : Failure} :
    e.apply n = .error err ↔ ∃ r, err = .refused r ∧ e.Refused n r := by
  constructor
  · intro h
    rcases settles hn e with ⟨r, hr⟩ | ⟨r, hr, -⟩
    · exact ⟨r, Except.error.inj (h.symm.trans (apply_of_refused hn hr)), hr⟩
    · rw [hr] at h
      cases h
  · rintro ⟨r, rfl, hr⟩
    exact apply_of_refused hn hr

theorem Consistent.step (hn : n.Consistent) {e : Edit} {r : Edited} (h : e.apply n = .ok r) :
    n.Step e r.found r.netlist := by
  rcases settles hn e with ⟨err, herr⟩ | ⟨q, hq, hstep⟩
  · rw [apply_of_refused hn herr] at h
    cases h
  · obtain rfl : q = r := Except.ok.inj (hq.symm.trans h)
    exact hstep

end Netlist

end MappedNetlist
