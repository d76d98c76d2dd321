import MappedNetlist.Proofs.Invariance

/-!
# Compaction does not read the index

The removals that make up a sweep take entries out of the index, but none of them looks anything up.
So two netlists that differ in their indices alone are swept alike: the same entities go, the same
events are reported, and the results differ in their indices alone. Squeezing and the renaming of
names leave the index aside, and then it is built anew. In the end nothing is left of the difference,
and an index that was lost or damaged is repaired.
-/

namespace MappedNetlist

/-- Two runs fail in the same way, or end with related results. -/
inductive Alike {ε α β : Type} (R : α → β → Prop) : Except ε α → Except ε β → Prop
  | error (e : ε) : Alike R (.error e) (.error e)
  | ok {a : α} {b : β} (h : R a b) : Alike R (.ok a) (.ok b)

namespace Alike

variable {ε α β γ δ : Type} {R : α → β → Prop} {S : γ → δ → Prop}

theorem bind {x : Except ε α} {y : Except ε β} {f : α → Except ε γ} {g : β → Except ε δ}
    (h : Alike R x y) (hfg : ∀ {a b}, R a b → Alike S (f a) (g b)) :
    Alike S (x >>= f) (y >>= g) := by
  cases h with
  | error e => exact .error e
  | ok h => exact hfg h

/-- What both runs do first, they need not be compared in. -/
theorem after (x : Except ε α) {f : α → Except ε γ} {g : α → Except ε δ}
    (hfg : ∀ a, Alike S (f a) (g a)) : Alike S (x >>= f) (x >>= g) := by
  cases x with
  | error e => exact .error e
  | ok a => exact hfg a

theorem ite {p : Prop} [Decidable p] {x x' : Except ε α} {y y' : Except ε β} (h : p → Alike R x y)
    (h' : ¬p → Alike R x' y') : Alike R (if p then x else x') (if p then y else y') := by
  by_cases hp : p
  · rw [if_pos hp, if_pos hp]
    exact h hp
  · rw [if_neg hp, if_neg hp]
    exact h' hp

theorem eq {x y : Except ε α} (h : Alike Eq x y) : x = y := by
  cases h with
  | error => rfl
  | ok h => rw [h]

end Alike

namespace Netlist

/-- The second netlist is the first one with an index of its own. -/
def Reindexed (n m : Netlist) : Prop := ∃ x, m = { n with index := x }

/-- The netlists differ in their indices at most, and the events are the same. -/
def SameRest (r s : Netlist × List Event) : Prop := r.1.Reindexed s.1 ∧ r.2 = s.2

/-- A step does the same whatever the index is, to everything but the index. -/
def Blind {α : Type} (step : Netlist → α → Except Fault (Netlist × List Event)) : Prop :=
  ∀ {n m : Netlist}, n.Reindexed m → ∀ a, Alike SameRest (step n a) (step m a)

variable {n m : Netlist}

/-! ## Removals -/

theorem Blind.inTurn {α : Type} {step : Netlist → α → Except Fault (Netlist × List Event)}
    (hstep : Blind step) : Blind (inTurn step) := by
  intro n m h as
  induction as generalizing n m with
  | nil => exact .ok ⟨h, rfl⟩
  | cons a as ih =>
    rw [inTurn_cons, inTurn_cons]
    refine (hstep h a).bind fun {r s} ⟨hrs, hnow⟩ => ?_
    refine (ih hrs).bind fun {r' s'} ⟨hrs', hlater⟩ => ?_
    exact .ok ⟨hrs', congrArg₂ (· ++ ·) hnow hlater⟩

theorem blind_dropPin : Blind dropPin := by
  rintro n _ ⟨x, rfl⟩ pin
  refine .after (n.pins.nets.read pin.index) fun net => ?_
  -- The rest is the same for a pin on a net as for one on none.
  cases net <;>
    exact .after _ fun _ => .after _ fun _ => .after _ fun _ => .after _ fun _ => .after _ fun _ =>
      .after _ fun _ => .after _ fun _ => .after _ fun _ => .ok ⟨⟨_, rfl⟩, rfl⟩

theorem blind_dropPort : Blind dropPort := by
  rintro n _ ⟨x, rfl⟩ port
  refine .after (n.ports.pins.read port.index) fun row => ?_
  refine (blind_dropPin.inTurn ⟨x, rfl⟩ _).bind ?_
  rintro ⟨n, es⟩ ⟨_, _⟩ ⟨⟨y, rfl⟩, rfl⟩
  exact .after _ fun _ => .after _ fun _ => .after _ fun _ => .ok ⟨⟨_, rfl⟩, rfl⟩

theorem blind_dropLivePort : Blind dropLivePort := by
  rintro n _ ⟨x, rfl⟩ port
  exact .ite (p := n.IsLive port) (fun _ => blind_dropPort ⟨x, rfl⟩ port)
    fun _ => .ok ⟨⟨x, rfl⟩, rfl⟩

theorem blind_dropBlock : Blind dropBlock := by
  rintro n _ ⟨x, rfl⟩ block
  refine .after (n.portsOf block) fun ports => ?_
  refine (blind_dropLivePort.inTurn ⟨x, rfl⟩ _).bind ?_
  rintro ⟨n, es⟩ ⟨_, _⟩ ⟨⟨y, rfl⟩, rfl⟩
  exact .after _ fun _ => .after _ fun _ => .ok ⟨⟨_, rfl⟩, rfl⟩

/-! ## The sweep -/

/-- A step of the sweep does the same whatever the index is, and leaves out the same positions. -/
def BlindTry (step : Netlist → Nat → Except Fault (Option (Netlist × List Event))) : Prop :=
  ∀ {n m : Netlist}, n.Reindexed m → ∀ i, Alike (Option.Rel SameRest) (step n i) (step m i)

theorem blind_sweepPort : BlindTry sweepPort := by
  rintro n _ ⟨x, rfl⟩ i
  refine .after (n.ports.slots.read i) fun slot => ?_
  cases slot with
  | none => exact .ok .none
  | some port =>
    refine .after (n.ports.pins.read i) fun row => ?_
    refine .ite (fun _ => ?_) fun _ => .ok .none
    exact (blind_dropPort ⟨x, rfl⟩ port).bind fun h => .ok (.some h)

theorem blind_sweepBlock : BlindTry sweepBlock := by
  rintro n _ ⟨x, rfl⟩ i
  refine .after (n.blocks.slots.read i) fun slot => ?_
  cases slot with
  | none => exact .ok .none
  | some block =>
    refine .after (n.portsOf block) fun ports => ?_
    refine .ite (p := ports ≠ [] ∧ ∀ port ∈ ports, ¬n.IsLive port) (fun _ => ?_) fun _ => .ok .none
    exact (blind_dropBlock ⟨x, rfl⟩ block).bind fun h => .ok (.some h)

theorem BlindTry.tryEach {step : Netlist → Nat → Except Fault (Option (Netlist × List Event))}
    (hstep : BlindTry step) (h : n.Reindexed m) (a : Arithmetic) (count : Int32) (is : List Nat) :
    Alike (fun r s => r.1.Reindexed s.1 ∧ r.2 = s.2) (tryEach a step n count is)
      (tryEach a step m count is) := by
  induction is generalizing n m count with
  | nil => exact .ok ⟨h, rfl⟩
  | cons i is ih =>
    refine (hstep h i).bind fun hrs => ?_
    cases hrs with
    | none => exact ih h count
    | some hrs =>
      obtain ⟨hrs, hnow⟩ := hrs
      refine .after (a.add count 1) fun count => (ih hrs count).bind ?_
      rintro ⟨n, es, count⟩ ⟨m, _, _⟩ ⟨hnm, heq⟩
      cases heq
      exact .ok ⟨hnm, by rw [hnow]⟩

theorem sweepWith_alike (a : Arithmetic) (h : n.Reindexed m) :
    Alike SameRest (n.sweepWith a) (m.sweepWith a) := by
  obtain ⟨x, rfl⟩ := h
  refine (blind_sweepPort.tryEach ⟨x, rfl⟩ a 0 _).bind ?_
  rintro ⟨n, es, ports⟩ ⟨_, _⟩ ⟨⟨y, rfl⟩, rfl⟩
  refine (blind_sweepBlock.tryEach ⟨y, rfl⟩ a 0 _).bind ?_
  rintro ⟨n, fs, blocks⟩ ⟨_, _⟩ ⟨⟨z, rfl⟩, rfl⟩
  exact .after (sweepReport a ports blocks) fun _ => .ok ⟨⟨z, rfl⟩, rfl⟩

/-! ## Compaction -/

theorem squeeze_alike (h : n.Reindexed m) : Alike Reindexed n.squeeze m.squeeze := by
  obtain ⟨x, rfl⟩ := h
  exact .after (n.pins.squeeze n.renumberings.pins) fun _ => .after _ fun _ => .after _ fun _ =>
    .after _ fun _ => .ok ⟨x, rfl⟩

theorem compactStrings_alike (h : n.Reindexed m) :
    Alike Reindexed n.compactStrings m.compactStrings := by
  obtain ⟨x, rfl⟩ := h
  have hnames : Netlist.namesInUse { n with index := x } = n.namesInUse := rfl
  rw [compactStrings, compactStrings, hnames]
  cases n.namesInUse.find? fun name => !n.strings.contains name with
  | some name => exact .error _
  | none => exact .ok ⟨x, rfl⟩

/-- The index has no bearing on compaction. -/
theorem compactWith_eq (a : Arithmetic) (h : n.Reindexed m) : m.compactWith a = n.compactWith a := by
  obtain ⟨x, rfl⟩ := h
  refine (Alike.eq ?_).symm
  refine (sweepWith_alike a ⟨x, rfl⟩).bind ?_
  rintro ⟨n, es⟩ ⟨_, _⟩ ⟨⟨y, rfl⟩, rfl⟩
  refine (squeeze_alike ⟨y, rfl⟩).bind ?_
  rintro q _ ⟨z, rfl⟩
  refine (compactStrings_alike ⟨z, rfl⟩).bind ?_
  rintro l _ ⟨z, rfl⟩
  exact .ok rfl

/-- Where verification finds nothing, compaction comes to the same result with any index in the place
of the right one, and verification finds nothing in that. -/
theorem compact_repairs {n : Netlist} (hn : n.verify = .ok (none, [])) (x : Index) :
    ∃ m es, n.compact = .ok (m, es) ∧ Netlist.compact { n with index := x } = .ok (m, es) ∧
      m.verify = .ok (none, []) := by
  obtain ⟨_, _, m, es, _, -, -, hcompact, -, hm⟩ := exists_compact (consistent_of_verify hn)
  have hsame : Netlist.compact { n with index := x } = n.compact := compactWith_eq .wrapping ⟨x, rfl⟩
  exact ⟨m, es, hcompact, hsame.trans hcompact, hm.verify_eq_ok⟩

/-- Two blocks on a net; the second one has lost its pin. -/
def looseEnd : List Edit :=
  let buffer : Model := { name := "buf", ports := [.input "i" 1, .output "o" 1] }
  [.createBlock "a" buffer [], .createBlock "b" buffer [], .createPort ⟨0⟩ "o", .createPort ⟨1⟩ "i",
    .createNet "x", .createPin ⟨0⟩ 0 (some ⟨0⟩) .driver, .createPin ⟨1⟩ 0 (some ⟨0⟩) .sink,
    .removePin ⟨1⟩]

/-- The name of one block leads to the other, no port is found, the pin found at a bit was never issued,
and the net is filed under a name that is none. -/
def misfiled : Index where
  blocks := (∅ : Lookup StringId .block).insert ⟨0⟩ ⟨1⟩
  pins := (∅ : Lookup BitKey .pin).insert ⟨⟨0⟩, 0⟩ ⟨7⟩
  nets := (∅ : Lookup StringId .net).insert ⟨40⟩ ⟨0⟩

theorem compact_repairs_misfiled : (Edit.run (.new "top") looseEnd).verify = .ok (none, []) ∧
    ∃ m es, (Edit.run (.new "top") looseEnd).compact = .ok (m, es) ∧
      Netlist.compact { Edit.run (.new "top") looseEnd with index := misfiled } = .ok (m, es) ∧
      m.verify = .ok (none, []) ∧ m.net? "x" = some ⟨0⟩ := by
  have hn := ((Reachable.new "top").run looseEnd).consistent.verify_eq_ok
  obtain ⟨m, es, hcompact, hsame, hm⟩ := compact_repairs hn misfiled
  refine ⟨hn, m, es, hcompact, hsame, hm, ?_⟩
  have hnet : (Netlist.compact { Edit.run (.new "top") looseEnd with index := misfiled }).toOption.bind
      (fun r => r.1.net? "x") = some ⟨0⟩ := by decide +kernel
  rw [hsame] at hnet
  exact hnet

end Netlist

end MappedNetlist
