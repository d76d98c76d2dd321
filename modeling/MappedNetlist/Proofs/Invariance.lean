import MappedNetlist.Proofs.Refusal

/-!
# Edits keep a netlist consistent

No edit of a consistent netlist faults, whatever its arguments are: it is refused, and the netlist
stays as it was, or it succeeds with a step and leaves a consistent netlist. So consistency, which is
what verification decides, is an invariant of every history that begins with a new netlist or with any
other consistent one, and so is whatever else the steps keep (`Consistent.run_induction`).
-/

namespace MappedNetlist

variable {n m : Netlist}

/-- An operation is refused, or it succeeds and leaves a consistent netlist. -/
def Keeps {α : Type} (left : α → Netlist) (x : Except Failure α) : Prop :=
  (∃ err, x = .error (.refused err)) ∨ ∃ a, x = .ok a ∧ (left a).Consistent

namespace Keeps

variable {α : Type} {left : α → Netlist} {x : Except Failure α}

theorem refused {err : EditError} (h : x = .error (.refused err)) : Keeps left x := .inl ⟨err, h⟩

theorem done {a : α} (h : x = .ok a) (ha : (left a).Consistent) : Keeps left x := .inr ⟨a, h, ha⟩

theorem ne_fault (h : Keeps left x) (f : Fault) : x ≠ .error (.fault f) := by
  rcases h with ⟨err, rfl⟩ | ⟨a, rfl, -⟩ <;> simp

end Keeps

namespace Netlist

/-! ## A new netlist -/

theorem store_new (name : String) :
    (Netlist.new name).store = ⟨fun _ => none, fun _ => none, fun _ => none, fun _ => none⟩ :=
  rfl

theorem consistent_new (name : String) : (Netlist.new name).Consistent where
  sized := by
    have hplaced {k : Kind} : Slots.Placed (#[] : Slots k) := fun i h hi => by simp at hi
    exact ⟨⟨hplaced, rfl, rfl, rfl, fun c => by cases c <;> rfl⟩, ⟨hplaced, rfl, rfl, rfl, rfl, rfl⟩,
      ⟨hplaced, rfl, rfl, rfl, rfl⟩, ⟨hplaced, rfl, rfl⟩⟩
  coherent := by
    rw [store_new]
    constructor <;> simp
  indexed := by
    rw [store_new]
    constructor <;> simp [Netlist.new, Lookup.Exact]
  interned := by simp [NamesInterned, namesInUse, Netlist.new]

namespace Consistent

theorem keeps_apply (hn : n.Consistent) (e : Edit) : Keeps Edited.netlist (e.apply n) := by
  rcases settles hn e with ⟨err, herr⟩ | ⟨r, hr, hstep⟩
  · exact .refused (apply_of_refused hn herr)
  · exact .done hr (hstep.consistent hn)

theorem after (hn : n.Consistent) (e : Edit) : (e.after n).Consistent := by
  rcases hn.keeps_apply e with ⟨err, herr⟩ | ⟨r, hr, hm⟩
  · rw [Edit.after, herr]
    exact hn
  · rw [Edit.after, hr]
    exact hm

/-- What holds of a consistent netlist and is kept by every step that an edit of a run can make holds at
the end of the run. -/
theorem run_induction {P : Netlist → Prop} (hn : n.Consistent) (h : P n) {es : List Edit}
    (hstep : ∀ {m l : Netlist} {e : Edit} {found : Option ((k : Kind) × Handle k)}, e ∈ es →
      m.Consistent → P m → m.Step e found l → P l) : P (Edit.run n es) := by
  induction es generalizing n with
  | nil => exact h
  | cons e es ih =>
    refine ih (hn.after e) ?_ fun he => hstep (List.mem_cons_of_mem e he)
    cases hr : e.apply n with
    | error err => rwa [Edit.after_of_error hr]
    | ok r =>
      rw [Edit.after_of_ok hr]
      exact hstep List.mem_cons_self hn h (hn.step hr)

theorem run (hn : n.Consistent) (es : List Edit) : (Edit.run n es).Consistent :=
  hn.run_induction hn fun _ _ hm hstep => hstep.consistent hm

end Consistent

theorem Reachable.consistent (hn : n.Reachable) : n.Consistent := by
  obtain ⟨name, es, rfl⟩ := hn
  exact (consistent_new name).run es

end Netlist

end MappedNetlist
