import MappedNetlist.Handle

/-!
# Renumbering

Compaction drops some positions of a table and moves the others together. A `Renumbering` records
for each old position its new handle, or that it is gone. The kept positions are numbered
`0, 1, 2, …` in their old order (`numbering`); every column of the table is squeezed by the same
renumbering (`select`), and every reference is replaced through it (`target?`).
-/

namespace MappedNetlist

/-- For each old position its new handle, if it was kept. -/
abbrev Renumbering (ι : Type) := List (Option ι)

namespace Renumbering

variable {α β ι : Type}

/-- Gives the entries that `keep` accepts the handles `handle n`, `handle (n + 1)`, … in order. -/
def numberFrom (handle : Nat → ι) (keep : α → Bool) : Nat → List α → Renumbering ι
  | _, [] => []
  | n, a :: as =>
    if keep a then some (handle n) :: numberFrom handle keep (n + 1) as
    else none :: numberFrom handle keep n as

/-- Gives the entries that `keep` accepts the handles `handle 0`, `handle 1`, … in order. -/
def numbering (handle : Nat → ι) (keep : α → Bool) (as : List α) : Renumbering ι :=
  numberFrom handle keep 0 as

@[simp] theorem numberFrom_nil (handle : Nat → ι) (keep : α → Bool) (n : Nat) :
    numberFrom handle keep n [] = [] := rfl

theorem numberFrom_cons_of_pos (handle : Nat → ι) {keep : α → Bool} (n : Nat) {a : α} (as : List α)
    (h : keep a = true) :
    numberFrom handle keep n (a :: as) = some (handle n) :: numberFrom handle keep (n + 1) as := by
  simp [numberFrom, h]

theorem numberFrom_cons_of_neg (handle : Nat → ι) {keep : α → Bool} (n : Nat) {a : α} (as : List α)
    (h : ¬keep a = true) :
    numberFrom handle keep n (a :: as) = none :: numberFrom handle keep n as := by
  simp [numberFrom, h]

@[simp] theorem length_numberFrom (handle : Nat → ι) (keep : α → Bool) (n : Nat) (as : List α) :
    (numberFrom handle keep n as).length = as.length := by
  induction as generalizing n with
  | nil => rfl
  | cons a as ih => by_cases h : keep a <;> simp [numberFrom, h, ih]

/-- The new handle of the entry at an old position: none where it was dropped, and none past the
end. -/
def target? (m : Renumbering ι) (i : Nat) : Option ι := (m[i]?).join

@[simp] theorem target?_nil (i : Nat) : target? ([] : Renumbering ι) i = none := rfl

@[simp] theorem target?_cons_zero (t : Option ι) (m : Renumbering ι) :
    target? (t :: m) 0 = t := by
  simp [target?]

@[simp] theorem target?_cons_succ (t : Option ι) (m : Renumbering ι) (i : Nat) :
    target? (t :: m) (i + 1) = target? m i := by
  simp [target?]

/-- The entries at kept positions. Entries past the end of the renumbering are left out. -/
def select : Renumbering ι → List β → List β
  | [], _ => []
  | _, [] => []
  | some _ :: m, b :: bs => b :: select m bs
  | none :: m, _ :: bs => select m bs

@[simp] theorem select_nil_left (bs : List β) : select ([] : Renumbering ι) bs = [] := rfl

@[simp] theorem select_nil_right (m : Renumbering ι) : select m ([] : List β) = [] := by
  cases m with
  | nil => rfl
  | cons t m => cases t <;> rfl

/-- The handles given, in order. -/
def handles (m : Renumbering ι) : List ι := m.filterMap id

end Renumbering

end MappedNetlist
