import MappedNetlist.Netlist.Error
import MappedNetlist.Netlist.Violation

/-!
# Collecting violations

A check goes through a list and puts together what it finds for each entry; a check of a single
fact finds one violation or none. The lemmas say when nothing is found.
-/

namespace MappedNetlist

/-- What is found for each entry of a list, in order. -/
def collect {α β : Type} (find : α → Except Fault (List β)) : List α → Except Fault (List β)
  | [] => .ok []
  | a :: as => do return (← find a) ++ (← collect find as)

@[simp] theorem collect_nil {α β : Type} (find : α → Except Fault (List β)) :
    collect find [] = .ok [] := rfl

/-- Two searches in turn find nothing if neither does. -/
theorem append_eq_ok_nil_iff {β : Type} {x y : Except Fault (List β)} :
    (do return (← x) ++ (← y)) = Except.ok [] ↔ x = .ok [] ∧ y = .ok [] := by
  cases x <;> cases y <;> simp [bind, Except.bind, pure, Except.pure]

/-- Nothing is found in a list if nothing is found for any of its entries. -/
theorem collect_eq_ok_nil_iff {α β : Type} {find : α → Except Fault (List β)} {as : List α} :
    collect find as = .ok [] ↔ ∀ a ∈ as, find a = .ok [] := by
  induction as with
  | nil => simp
  | cons a as ih => rw [collect, append_eq_ok_nil_iff, ih, List.forall_mem_cons]

/-- Reports a violation unless `p` holds. -/
def expect (p : Prop) [Decidable p] (v : Violation) : List Violation := if p then [] else [v]

@[simp] theorem expect_eq_nil_iff {p : Prop} [Decidable p] {v : Violation} :
    expect p v = [] ↔ p := by
  by_cases h : p <;> simp [expect, h]

end MappedNetlist
