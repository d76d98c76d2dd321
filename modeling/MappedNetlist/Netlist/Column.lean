import MappedNetlist.Netlist.Error
import MappedNetlist.Renumbering

/-!
# Columns

The entities of one kind are kept in columns of equal length, one column for each attribute, and
the position of an entity is the same in all of them. Reading or writing past the end of a column
is a fault, which a netlist whose columns agree never meets; `read_eq_ok_iff` and
`write_eq_ok_iff` say exactly when it happens. The column of slots tells for each position whether
the entity that was issued there is still live.
-/

namespace MappedNetlist

/-- One attribute of all entities of a kind, by position. -/
abbrev Column (α : Type) := Array α

namespace Column

variable {α ι : Type}

/-- The entry at a position. -/
def read (col : Column α) (i : Nat) : Except Fault α :=
  match col[i]? with
  | some a => .ok a
  | none => .error (.outOfBounds col.size i)

/-- The column with another entry at a position. -/
def write (col : Column α) (i : Nat) (a : α) : Except Fault (Column α) :=
  if i < col.size then .ok (col.setIfInBounds i a) else .error (.outOfBounds col.size i)

/-- The column with the entry at a position changed by `f`. -/
def alter (col : Column α) (i : Nat) (f : α → α) : Except Fault (Column α) := do
  col.write i (f (← col.read i))

/-- The entries at the positions that a renumbering keeps. Every position must have one there. -/
def squeeze (col : Column α) (m : Renumbering ι) : Except Fault (Column α) :=
  if col.size ≤ m.length then .ok (m.select col.toList).toArray
  else .error (.outOfBounds m.length m.length)

theorem read_eq_ok_iff {col : Column α} {i : Nat} {a : α} :
    col.read i = .ok a ↔ col[i]? = some a := by
  unfold read
  split <;> simp_all

theorem read_of_getElem? {col : Column α} {i : Nat} {a : α} (h : col[i]? = some a) :
    col.read i = .ok a :=
  read_eq_ok_iff.2 h

theorem write_eq_ok_iff {col new : Column α} {i : Nat} {a : α} :
    col.write i a = .ok new ↔ i < col.size ∧ col.setIfInBounds i a = new := by
  by_cases h : i < col.size <;> simp [write, h]

theorem write_of_lt {col : Column α} {i : Nat} (a : α) (h : i < col.size) :
    col.write i a = .ok (col.setIfInBounds i a) :=
  write_eq_ok_iff.2 ⟨h, rfl⟩

theorem alter_eq_ok_iff {col new : Column α} {i : Nat} {f : α → α} :
    col.alter i f = .ok new ↔ ∃ a, col[i]? = some a ∧ col.setIfInBounds i (f a) = new := by
  rw [alter, bind_eq_ok_iff]
  constructor
  · rintro ⟨a, ha, hnew⟩
    exact ⟨a, read_eq_ok_iff.1 ha, (write_eq_ok_iff.1 hnew).2⟩
  · rintro ⟨a, ha, hnew⟩
    exact ⟨a, read_eq_ok_iff.2 ha,
      write_eq_ok_iff.2 ⟨(Array.getElem?_eq_some_iff.1 ha).1, hnew⟩⟩

theorem squeeze_eq_ok_iff {col new : Column α} {m : Renumbering ι} :
    col.squeeze m = .ok new ↔ col.size ≤ m.length ∧ (m.select col.toList).toArray = new := by
  by_cases h : col.size ≤ m.length <;> simp [squeeze, h]

end Column

/-- The list with another entry at a position. -/
def writeSlot {α : Type} (l : List α) (i : Nat) (a : α) : Except Fault (List α) :=
  if i < l.length then .ok (l.set i a) else .error (.outOfBounds l.length i)

/-- The entry of a list at a position. -/
def readSlot {α : Type} (l : List α) (i : Nat) : Except Fault α :=
  match l[i]? with
  | some a => .ok a
  | none => .error (.outOfBounds l.length i)

theorem writeSlot_eq_ok_iff {α : Type} {l r : List α} {i : Nat} {a : α} :
    writeSlot l i a = .ok r ↔ i < l.length ∧ l.set i a = r := by
  by_cases h : i < l.length <;> simp [writeSlot, h]

theorem readSlot_eq_ok_iff {α : Type} {l : List α} {i : Nat} {a : α} :
    readSlot l i = .ok a ↔ l[i]? = some a := by
  unfold readSlot
  split <;> simp_all

/-- For each position the handle that was issued there, or nothing once its entity is removed. -/
abbrev Slots (k : Kind) := Column (Option (Handle k))

namespace Slots

variable {k : Kind}

/-- A handle is live if it stands at its own position. -/
def IsLive (s : Slots k) (h : Handle k) : Prop := s[h.index]? = some (some h)

instance (s : Slots k) (h : Handle k) : Decidable (s.IsLive h) :=
  inferInstanceAs (Decidable (_ = _))

/-- The handles that are not removed, in order. -/
def live (s : Slots k) : List (Handle k) := s.toList.filterMap id

/-- The live handles numbered without gaps. -/
def renumbering (s : Slots k) : Renumbering (Handle k) :=
  Renumbering.numbering Handle.mk Option.isSome s.toList

/-- The slots of the handles that a renumbering gives out. -/
def ofRenumbering (m : Renumbering (Handle k)) : Slots k := (m.handles.map some).toArray

theorem IsLive.lt_size {s : Slots k} {h : Handle k} (hl : s.IsLive h) : h.index < s.size :=
  (Array.getElem?_eq_some_iff.1 hl).1

@[simp] theorem length_renumbering (s : Slots k) : s.renumbering.length = s.size := by
  simp [renumbering, Renumbering.numbering]

end Slots

end MappedNetlist
