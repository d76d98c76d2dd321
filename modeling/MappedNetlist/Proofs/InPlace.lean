import MappedNetlist.Netlist.InPlace

/-!
# Edits in place and edits as functions

In any netlist, consistent or not, the procedure of an edit does what the edit gives
(`Edit.perform_does`): the same reply and the same netlist, or the same failure. And where the edit is
refused, its procedure has written nothing, so that there is nothing to take back.
-/

namespace MappedNetlist

theorem lift_bind {α β : Type} (x : Except Fault α) (f : α → Except Fault β) :
    (liftM (x >>= f) : Except Failure β) = liftM x >>= fun a => liftM (f a) := by
  cases x <;> rfl

namespace Procedure

variable {α β : Type} {n m : Netlist}

/-- The procedure does in place what an operation gives, and writes nothing where that is refused. -/
def Does (x : Procedure α) (n : Netlist) : Except Failure (α × Netlist) → Prop
  | .ok (a, m) => x n = .ok a m
  | .error (.refused err) => x n = .error (.refused err) n
  | .error (.fault f) => ∃ m, x n = .error (.fault f) m

/-- The procedure ends as a computation says that refuses nothing. -/
def Ends (x : Procedure α) (n : Netlist) : Except Fault (α × Netlist) → Prop
  | .ok (a, m) => x n = .ok a m
  | .error f => ∃ m, x n = .error (.fault f) m

/-! ## Steps of a procedure -/

theorem bind_of_ok {x : Procedure α} {k : α → Procedure β} {a : α} (h : x n = .ok a m) :
    (x >>= k) n = k a m := by
  simp only [bind, EStateM.bind, h]

theorem bind_of_error {x : Procedure α} {k : α → Procedure β} {err : Failure}
    (h : x n = .error err m) : (x >>= k) n = .error err m := by
  simp only [bind, EStateM.bind, h]

theorem test_of_ok {f : Netlist → Except Failure α} {a : α} (h : f n = .ok a) :
    test f n = .ok a n := by
  simp only [test, h]

theorem test_of_error {f : Netlist → Except Failure α} {err : Failure} (h : f n = .error err) :
    test f n = .error err n := by
  simp only [test, h]

theorem write_of_ok {f : Netlist → Except Fault Netlist} (h : f n = .ok m) :
    write f n = .ok () m := by
  simp only [write, h]

theorem write_of_error {f : Netlist → Except Fault Netlist} {err : Fault} (h : f n = .error err) :
    write f n = .error (.fault err) n := by
  simp only [write, h]

theorem get_bind {k : Netlist → Procedure α} : ((get : Procedure Netlist) >>= k) n = k n n := rfl

theorem modify_bind {f : Netlist → Netlist} {k : PUnit → Procedure α} :
    ((modify f : Procedure PUnit) >>= k) n = k ⟨⟩ (f n) := rfl

namespace Ends

theorem bind_of_ok {x : Procedure α} {k : α → Procedure β} {a : α}
    {y : Except Fault (β × Netlist)} (hx : x n = .ok a m) (h : (k a).Ends m y) :
    (x >>= k).Ends n y := by
  unfold Ends at h ⊢
  rwa [Procedure.bind_of_ok hx]

theorem get_bind {k : Netlist → Procedure α} {y : Except Fault (α × Netlist)}
    (h : (k n).Ends n y) : (get >>= k).Ends n y := h

theorem modify_bind {f : Netlist → Netlist} {k : PUnit → Procedure α}
    {y : Except Fault (α × Netlist)} (h : (k ⟨⟩).Ends (f n) y) : (modify f >>= k).Ends n y := h

theorem write_bind {f : Netlist → Except Fault Netlist} {k : Unit → Procedure α}
    {y : Netlist → Except Fault (α × Netlist)} (h : ∀ m, (k ()).Ends m (y m)) :
    (write f >>= k).Ends n (f n >>= y) := by
  cases hf : f n with
  | ok m => exact bind_of_ok (write_of_ok hf) (h m)
  | error err => exact ⟨n, bind_of_error (write_of_error hf)⟩

theorem does {x : Procedure α} {y : Except Fault (α × Netlist)} (h : x.Ends n y) :
    x.Does n (liftM y) := by
  cases y <;> exact h

end Ends

namespace Does

variable {x : Procedure α} {y : Except Failure (α × Netlist)}

theorem congr {x' : Procedure α} (h : x'.Does n y) (hx : x n = x' n) : x.Does n y := by
  unfold Does at h ⊢
  rwa [hx]

/-- A test comes before all writes, so its failure leaves the netlist alone. -/
theorem test_bind {f : Netlist → Except Failure β} {k : β → Procedure α}
    {y : β → Except Failure (α × Netlist)} (h : ∀ b, f n = .ok b → (k b).Does n (y b)) :
    (test f >>= k).Does n (f n >>= y) := by
  cases hf : f n with
  | ok b => exact (h b hf).congr (bind_of_ok (test_of_ok hf))
  | error err =>
    have herr : (test f >>= k) n = .error err n := bind_of_error (test_of_error hf)
    cases err with
    | refused err => exact herr
    | fault err => exact ⟨n, herr⟩

theorem map (h : x.Does n y) (f : α → β) :
    (f <$> x).Does n (y >>= fun r => pure (f r.1, r.2)) := by
  have hmap : (f <$> x) n = match x n with
    | .ok a m => .ok (f a) m
    | .error err m => .error err m := by
    simp only [Functor.map, EStateM.map]
    cases x n <;> rfl
  rcases y with err | ⟨a, m⟩
  · cases err with
    | refused err => exact hmap.trans (by rw [show x n = _ from h])
    | fault err =>
      obtain ⟨m, h⟩ := h
      exact ⟨m, hmap.trans (by rw [h])⟩
  · exact hmap.trans (by rw [show x n = _ from h])

end Does

/-! ## Creation -/

theorem createBlock_eq (n : Netlist) (name : String) (model : Model) (table : TruthTable) :
    createBlock name model table n =
      .ok (n.createBlock name model table).1 (n.createBlock name model table).2 := by
  have hintern : intern name n =
    .ok (n.strings.intern name).1 { n with strings := (n.strings.intern name).2 } := rfl
  rw [createBlock, bind_of_ok hintern, get_bind]
  cases h : n.index.blocks[(n.strings.intern name).1]? with
  | some existing =>
    simp only [Netlist.createBlock, h]
    rfl
  | none =>
    simp only [Netlist.createBlock, h]
    rfl

theorem createNet_eq (n : Netlist) (name : String) :
    createNet name n = .ok (n.createNet name).1 (n.createNet name).2 := by
  have hintern : intern name n =
    .ok (n.strings.intern name).1 { n with strings := (n.strings.intern name).2 } := rfl
  rw [createNet, bind_of_ok hintern, get_bind]
  cases h : n.index.nets[(n.strings.intern name).1]? with
  | some existing =>
    simp only [Netlist.createNet, h]
    rfl
  | none =>
    simp only [Netlist.createNet, h]
    rfl

theorem addPort_ends (n : Netlist) (block : BlockId) (decl : PortDecl) :
    (addPort block decl).Ends n (n.addPort block decl) := by
  have hintern : intern decl.name n =
    .ok (n.strings.intern decl.name).1 { n with strings := (n.strings.intern decl.name).2 } := rfl
  refine Ends.bind_of_ok hintern ?_
  let id : PortId := ⟨n.ports.slots.size⟩
  have hadd : n.addPort block decl =
      (do
        let lists ← (n.blocks.listed decl.portClass).alter block.index (· ++ [id])
        return { n with
          ports := {
            slots := n.ports.slots.push (some id)
            names := n.ports.names.push (n.strings.intern decl.name).1
            owners := n.ports.owners.push block
            widths := n.ports.widths.push decl.width.toNat
            classes := n.ports.classes.push decl.portClass
            pins := n.ports.pins.push (List.replicate decl.width.toNat none) }
          strings := (n.strings.intern decl.name).2
          blocks := n.blocks.setListed lists decl.portClass }) >>= fun m : Netlist =>
      return (id, { m with
        index := { m.index with
          ports := m.index.ports.insert ⟨block, (n.strings.intern decl.name).1⟩ id } }) := by
    simp only [Netlist.addPort, bind_assoc, pure_bind]
    rfl
  rw [hadd]
  exact Ends.get_bind (Ends.modify_bind (Ends.write_bind fun m => rfl))

theorem createPort_does (n : Netlist) (block : BlockId) (name : String) :
    (createPort block name).Does n (n.createPort block name) := by
  refine Does.test_bind fun _ _ => Does.congr ?_ get_bind
  cases n.indexedPort? block name with
  | some existing => exact rfl
  | none =>
    refine Does.test_bind (f := fun n => liftM (n.blocks.models.read block.index)) fun model _ => ?_
    cases model.port? name with
    | none => exact rfl
    | some decl => exact (addPort_ends n block decl).does

theorem addPin_ends (n : Netlist) (port : PortId) (bit : Nat) (net : Option NetId)
    (role : PinRole) : (addPin port bit net role).Ends n (n.addPin port bit net role) := by
  let id : PinId := ⟨n.pins.slots.size⟩
  let issued : Netlist := { n with
    pins := {
      slots := n.pins.slots.push (some id)
      ports := n.pins.ports.push port
      bits := n.pins.bits.push bit
      nets := n.pins.nets.push net
      roles := n.pins.roles.push role } }
  have hadd : n.addPin port bit net role =
      (do
        let row ← writeSlot (← n.ports.pins.read port.index) bit (some id)
        let portPins ← n.ports.pins.write port.index row
        return { issued with ports := { n.ports with pins := portPins } }) >>= fun m : Netlist =>
      plugged id role net
        { m with index := { m.index with pins := m.index.pins.insert ⟨port, bit⟩ id } } >>=
      fun m : Netlist => return (id, m) := by
    cases net <;> simp only [Netlist.addPin, plugged, bind_assoc, pure_bind] <;> rfl
  rw [hadd]
  refine Ends.get_bind (Ends.modify_bind (Ends.write_bind fun m => Ends.modify_bind ?_))
  exact Ends.write_bind fun m => rfl

theorem createPin_does (n : Netlist) (port : PortId) (bit : Nat) (net : Option NetId)
    (role : PinRole) : (createPin port bit net role).Does n (n.createPin port bit net role) := by
  refine Does.test_bind fun _ _ => ?_
  refine Does.test_bind (f := fun n => liftM (n.ports.widths.read port.index)) fun width _ => ?_
  refine Does.test_bind (f := fun _ => demand (bit < width) _) fun _ _ => ?_
  refine Does.test_bind fun _ _ => Does.congr ?_ get_bind
  cases n.index.pins[BitKey.mk port bit]? with
  | some existing => exact rfl
  | none =>
    refine Does.test_bind fun _ _ => ?_
    exact (addPin_ends n port bit net role).does

/-- The pins of a net are written one after the other. -/
theorem Ends.putOn_bind {net : NetId} {pins : List PinId} {k : Unit → Procedure α}
    {y : Netlist → Except Fault (α × Netlist)} (h : ∀ m, (k ()).Ends m (y m)) (n : Netlist) :
    (pins.forM (putOn net) >>= k).Ends n
      ((do
        let pinNets ← Netlist.assignNet (some net) n.pins.nets pins
        return { n with pins := { n.pins with nets := pinNets } }) >>= y) := by
  induction pins generalizing n with
  | nil => exact h n
  | cons pin pins ih =>
    have hassign : Netlist.assignNet (some net) n.pins.nets (pin :: pins) =
        n.pins.nets.write pin.index (some net) >>= fun column =>
          Netlist.assignNet (some net) column pins :=
      List.foldlM_cons
    have hwrite : ((putOn net pin) >>= fun _ => pins.forM (putOn net) >>= k).Ends n _ :=
      write_bind ih
    have hforM : (pin :: pins).forM (putOn net) >>= k =
        putOn net pin >>= fun _ => pins.forM (putOn net) >>= k :=
      bind_assoc ..
    simp only [bind_assoc, pure_bind] at hwrite
    simp only [hforM, hassign, bind_assoc, pure_bind]
    exact hwrite

theorem fillNet_ends (n : Netlist) (net : NetId) (driver : Option PinId) (sinks : List PinId) :
    (fillNet net driver sinks >>= fun _ => pure net).Ends n (do
      let slots ← writeSlot (← n.nets.pins.read net.index) 0 driver
      let netPins ← n.nets.pins.write net.index (slots ++ sinks.map some)
      let pinNets ← Netlist.assignNet (some net) n.pins.nets (driver.toList ++ sinks)
      return (net, { n with
        pins := { n.pins with nets := pinNets }
        nets := { n.nets with pins := netPins } })) := by
  have hfill := Ends.write_bind (n := n) (f := fun n => do
      let slots ← writeSlot (← n.nets.pins.read net.index) 0 driver
      let netPins ← n.nets.pins.write net.index (slots ++ sinks.map some)
      return { n with nets := { n.nets with pins := netPins } })
    (k := fun _ => (driver.toList ++ sinks).forM (putOn net) >>= fun _ => pure net)
    (Ends.putOn_bind (y := fun m => pure (net, m)) fun m => rfl)
  simp only [bind_assoc, pure_bind] at hfill
  rw [fillNet, bind_assoc]
  exact hfill

theorem addNet_does (n : Netlist) (name : String) (driver : Option PinId) (sinks : List PinId) :
    (addNet name driver sinks).Does n (n.addNet name driver sinks) := by
  refine Does.test_bind fun _ _ => Does.test_bind fun _ _ => ?_
  have hcreate := createNet_eq n name
  have hends := (Ends.bind_of_ok (k := fun net => fillNet net driver sinks >>= fun _ => pure net)
    hcreate (fillNet_ends ..)).does
  simp only [lift_bind, pure_eq_ok, liftM_ok] at hends
  exact hends

/-! ## Removal -/

theorem drop_does {n : Netlist} {f : Netlist → Except Fault (Netlist × List Event)} :
    (drop f).Does n ((liftM (f n) : Except Failure _) >>= fun r => pure ((none, r.2), r.1)) := by
  unfold Does drop
  cases f n with
  | ok r => rfl
  | error err => exact ⟨n, rfl⟩

theorem drop_live_does {n : Netlist} {k : Kind} {x : Handle k}
    {f : Netlist → Except Fault (Netlist × List Event)} :
    (test (fun n => demand (n.IsLive x) (.invalidHandle k x)) >>= fun _ => drop f).Does n
      ((demand (n.IsLive x) (.invalidHandle k x) >>= fun _ => liftM (f n)) >>= fun r =>
        pure ((none, r.2), r.1)) := by
  rw [bind_assoc]
  exact Does.test_bind fun _ _ => drop_does

end Procedure

/-- An edit in place tells and leaves what the edit gives, or fails as it does. If the edit is refused,
its procedure has left the netlist as it was. -/
theorem Edit.perform_does (n : Netlist) (e : Edit) :
    e.perform.Does n (e.apply n >>= fun r => pure ((r.found, r.events), r.netlist)) := by
  cases e with
  | createBlock name model table =>
    have h : (Procedure.createBlock name model table).Does n (.ok (n.createBlock name model table)) :=
      Procedure.createBlock_eq n name model table
    exact h.map Procedure.found
  | createPort block name =>
    have h := (Procedure.createPort_does n block name).map Procedure.found
    simp only [apply, bind_assoc, pure_bind]
    exact h
  | createPin port bit net role =>
    have h := (Procedure.createPin_does n port bit net role).map Procedure.found
    simp only [apply, bind_assoc, pure_bind]
    exact h
  | createNet name =>
    have h : (Procedure.createNet name).Does n (.ok (n.createNet name)) :=
      Procedure.createNet_eq n name
    exact h.map Procedure.found
  | addNet name driver sinks =>
    have h := (Procedure.addNet_does n name driver sinks).map Procedure.found
    simp only [apply, bind_assoc, pure_bind]
    exact h
  | removeBlock block =>
    simp only [apply, bind_assoc, pure_bind]
    exact Procedure.drop_live_does (f := (·.dropBlock block))
  | removePin pin =>
    simp only [apply, bind_assoc, pure_bind]
    exact Procedure.drop_live_does (f := (·.dropPin pin))
  | removeNet net =>
    simp only [apply, bind_assoc, pure_bind]
    exact Procedure.drop_live_does (f := (·.dropNet net))
  | removeNetPin net pin =>
    simp only [apply, Netlist.removeNetPin, bind_assoc, pure_bind]
    refine Procedure.Does.test_bind fun _ _ => Procedure.Does.test_bind fun _ _ => ?_
    have htest := Procedure.Does.test_bind (n := n) (f := fun n => do
      demand ((← n.pins.nets.read pin.index) = some net) (.pinNotOnNet pin net)) fun _ _ =>
        Procedure.drop_does (n := n) (f := fun n => do
          let netPins ← n.nets.pins.alter net.index (vacate pin)
          let pinNets ← n.pins.nets.write pin.index none
          return ({ n with
            dirty := true
            pins := { n.pins with nets := pinNets }
            nets := { n.nets with pins := netPins } }, []))
    simp only [bind_assoc, lift_bind, pure_eq_ok, liftM_ok, ok_bind] at htest
    exact htest
  | sweep =>
    simp only [apply, bind_assoc, pure_bind]
    exact Procedure.drop_does
  | compact =>
    simp only [apply, bind_assoc, pure_bind]
    exact Procedure.drop_does

end MappedNetlist
