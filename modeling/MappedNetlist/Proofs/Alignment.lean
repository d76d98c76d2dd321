import MappedNetlist.Proofs.Renumbering

/-!
# Squeezed columns stay aligned

The entities of a kind are compacted by loops that know nothing of each other. One goes through the
slots and counts the filled ones in a machine word (`Slots.countOff`). Each of the others goes
through a column and counts the positions, to look up for every entry whether it is kept
(`Column.retain`). The first loop gives the numbering as long as the word does not overflow
(`countOff_eq`), and the others give what `Column.squeeze` gives, faults included
(`retain_eq_squeeze`).

So all columns of a kind have the entry of a filled slot at the same new position, which is the
number of filled slots before it. Nothing is assumed of the handles that stand in the slots.
-/

namespace MappedNetlist

/-! ## The loop through the slots -/

namespace Slots

variable {k : Kind}

/-- Takes the handle of the number that is next, and counts on if the machine word has room. -/
def takeNumber : StateT UInt32 Option (Handle k) := fun next =>
  if next.toNat + 1 < UInt32.size then some (⟨next.toNat⟩, next + 1) else none

/-- Takes a number for each filled slot. -/
def takeNumbers (slots : List (Option (Handle k))) : StateT UInt32 Option (Renumbering (Handle k)) :=
  slots.mapM fun slot => slot.mapM fun _ => takeNumber

/-- The filled slots numbered from zero, counted in a machine word. -/
def countOff (s : Slots k) : Option (Renumbering (Handle k)) := (takeNumbers s.toList).run' 0

theorem run'_takeNumbers_none (slots : List (Option (Handle k))) (next : UInt32) :
    (takeNumbers (none :: slots)).run' next = ((takeNumbers slots).run' next).map (none :: ·) := by
  simp [takeNumbers, List.mapM_cons, Function.comp_def]

theorem run'_takeNumbers_some (g : Handle k) (slots : List (Option (Handle k))) (next : UInt32) :
    (takeNumbers (some g :: slots)).run' next =
      if next.toNat + 1 < UInt32.size then
        ((takeNumbers slots).run' (next + 1)).map (some ⟨next.toNat⟩ :: ·)
      else none := by
  have htake : (takeNumber (k := k)).run next =
    if next.toNat + 1 < UInt32.size then some (⟨next.toNat⟩, next + 1) else none := rfl
  by_cases hroom : next.toNat + 1 < UInt32.size
  · simp [takeNumbers, List.mapM_cons, Function.comp_def, htake, hroom]
  · simp [takeNumbers, List.mapM_cons, htake, hroom]

/-- From any number on, the loop gives the numbering, if the last number fits the word. -/
theorem run'_takeNumbers (slots : List (Option (Handle k))) (next : UInt32) :
    (takeNumbers slots).run' next =
      if next.toNat + slots.countP Option.isSome < UInt32.size then
        some (Renumbering.numberFrom Handle.mk Option.isSome next.toNat slots)
      else none := by
  induction slots generalizing next with
  | nil => simp [takeNumbers, next.toNat_lt_size]
  | cons slot slots ih =>
    cases slot with
    | none =>
      rw [run'_takeNumbers_none, ih]
      split <;> simp_all [Renumbering.numberFrom]
    | some g =>
      rw [run'_takeNumbers_some, List.countP_cons_of_pos rfl, ← Nat.add_assoc, Nat.add_right_comm]
      by_cases hroom : next.toNat + 1 < UInt32.size
      · have hnext : (next + 1).toNat = next.toNat + 1 := by
          rw [UInt32.toNat_add]
          exact Nat.mod_eq_of_lt hroom
        rw [if_pos hroom, ih, hnext, Renumbering.numberFrom_cons_of_pos _ _ _ rfl]
        split <;> rfl
      · -- Without room for this number there is none for the later ones.
        rw [if_neg hroom, if_neg fun hlt => hroom (Nat.lt_of_le_of_lt (Nat.le_add_right _ _) hlt)]

/-- The word overflows if and only if there are too many filled slots. -/
theorem countOff_eq (s : Slots k) :
    s.countOff = if s.population < UInt32.size then some s.renumbering else none := by
  rw [countOff, run'_takeNumbers, UInt32.toNat_zero, Nat.zero_add]
  rfl

end Slots

/-! ## The loop through a column -/

namespace Column

variable {α ι : Type}

/-- Looks up whether the position that is next is kept, and counts on. -/
def keepNext (m : Renumbering ι) : StateT Nat (Except Fault) Bool := fun i => do
  return ((← readSlot m i).isSome, i + 1)

/-- The entries of a column, in order, that the loop through it keeps. -/
def retain (col : Column α) (m : Renumbering ι) : Except Fault (Column α) := do
  let kept ← (col.toList.filterM fun _ => keepNext m).run' 0
  return kept.toArray

theorem run_keepNext (m : Renumbering ι) (i : Nat) :
    (keepNext m).run i = do
      let moved ← readSlot m i
      return (moved.isSome, i + 1) := rfl

theorem run_keepNext_append (before : Renumbering ι) (moved : Option ι) (rest : Renumbering ι) :
    (keepNext (before ++ moved :: rest)).run before.length =
      .ok (moved.isSome, before.length + 1) := by
  have hread : readSlot (before ++ moved :: rest) before.length = .ok moved :=
    readSlot_eq_ok_iff.2 (by simp)
  rw [run_keepNext, hread]
  rfl

theorem run_keepNext_length (m : Renumbering ι) :
    (keepNext m).run m.length = .error (.outOfBounds m.length m.length) := by
  simp [run_keepNext, readSlot]

/-- The rest of the loop: `before` is of the positions that it has gone through, and `kept` are the
entries that it has kept so far, the last one first. -/
theorem run'_filterAuxM_keepNext (as kept : List α) (before rest : Renumbering ι) :
    (as.filterAuxM (fun _ => keepNext (before ++ rest)) kept).run' before.length =
      if as.length ≤ rest.length then .ok ((rest.select as).reverse ++ kept)
      else .error (.outOfBounds (before ++ rest).length (before ++ rest).length) := by
  induction as generalizing before rest kept with
  | nil => simp [List.filterAuxM]
  | cons a as ih =>
    cases rest with
    | nil => simp [List.filterAuxM, run_keepNext_length]
    | cons moved rest =>
      -- The loop goes on with this position as the last one of `before`.
      have hnext (kept : List α) := ih kept (before ++ [moved]) rest
      simp only [List.append_assoc, List.singleton_append, List.length_append,
        List.length_singleton] at hnext
      have hstep : ((a :: as).filterAuxM (fun _ => keepNext (before ++ moved :: rest)) kept).run'
            before.length =
          (as.filterAuxM (fun _ => keepNext (before ++ moved :: rest))
            (bif moved.isSome then a :: kept else kept)).run' (before.length + 1) := by
        simp [List.filterAuxM, run_keepNext_append]
      rw [hstep, hnext]
      cases moved <;> simp [Renumbering.select]

/-- The loop keeps what squeezing keeps, and fails where the column is longer than the
renumbering. -/
theorem retain_eq_squeeze (col : Column α) (m : Renumbering ι) : col.retain m = col.squeeze m := by
  have hloop := run'_filterAuxM_keepNext col.toList [] [] m
  simp only [List.nil_append, List.append_nil, List.length_nil, Array.length_toList] at hloop
  have hreverse : (col.toList.filterM fun _ => keepNext m).run' 0 =
      List.reverse <$> (col.toList.filterAuxM (fun _ => keepNext m) []).run' 0 := by
    simp [List.filterM]
  rw [retain, hreverse, hloop, squeeze]
  split <;> simp

end Column

/-! ## All loops together -/

namespace Slots

variable {k : Kind} {s : Slots k}

/-- `m` gives every filled slot the number of filled slots before it as its new handle, and every
other slot nothing. The new handles are those below the number of filled slots, each given once and
in order, and the new slots hold just them. Looking up a handle gives its entry in `m`, and nothing
past the end. -/
structure Numbers (s : Slots k) (m : Renumbering (Handle k)) : Prop where
  length : m.length = s.size
  filled_iff {i : Nat} : (∃ h', m[i]? = some (some h')) ↔ s.Filled i
  counts {i : Nat} {h' : Handle k} : m[i]? = some (some h') → h'.index = s.rank i
  increasing {i j : Nat} {h' g' : Handle k} : i < j → m[i]? = some (some h') →
    m[j]? = some (some g') → h'.index < g'.index
  onto_iff {h' : Handle k} : (∃ i : Nat, m[i]? = some (some h')) ↔ h'.index < s.population
  slots : ofRenumbering m = (Array.range s.population).map fun j => some ⟨j⟩
  target?_of_lt {h : Handle k} : h.index < m.length → m[h.index]? = some (m.target? h.index)
  target?_of_le {h : Handle k} : m.length ≤ h.index → m.target? h.index = none

theorem getElem?_renumbering_iff {i : Nat} {h' : Handle k} :
    s.renumbering[i]? = some (some h') ↔ s.Filled i ∧ h' = ⟨s.rank i⟩ := by
  rw [← target?_renumbering_eq_some_iff, Renumbering.target?, Option.join_eq_some_iff]

theorem numbers (s : Slots k) : s.Numbers s.renumbering where
  length := length_renumbering s
  filled_iff {i} := by simp only [getElem?_renumbering_iff, exists_and_left, exists_eq, and_true]
  counts h := congrArg Handle.index (getElem?_renumbering_iff.1 h).2
  increasing hij hi hj := by
    obtain ⟨hfilled, rfl⟩ := getElem?_renumbering_iff.1 hi
    obtain ⟨-, rfl⟩ := getElem?_renumbering_iff.1 hj
    exact rank_lt_rank hfilled hij
  onto_iff {h'} := by
    constructor
    · rintro ⟨i, hi⟩
      obtain ⟨hfilled, rfl⟩ := getElem?_renumbering_iff.1 hi
      exact rank_lt_population hfilled
    · intro hlt
      obtain ⟨i, hfilled, hrank⟩ := exists_rank_eq hlt
      exact ⟨i, getElem?_renumbering_iff.2 ⟨hfilled, by rw [hrank]⟩⟩
  slots := by
    refine Array.ext_getElem? fun i => ?_
    rw [getElem?_ofRenumbering]
    split <;> simp_all
  target?_of_lt hlt := by
    rw [Renumbering.target?, List.getElem?_eq_getElem hlt, Option.join_some]
  target?_of_le hle := by
    rw [Renumbering.target?, List.getElem?_eq_none hle, Option.join_none]

/-- `new` has the entries of `col` at filled positions, each where its new number points, and no
other entry. -/
structure Aligns {α : Type} (s : Slots k) (m : Renumbering (Handle k)) (col new : Column α) :
    Prop where
  size : new.size = s.population
  moved {i : Nat} {h' : Handle k} : m[i]? = some (some h') → new[h'.index]? = col[i]?
  origin {j : Nat} {a : α} : new[j]? = some a →
    ∃ i : Nat, m[i]? = some (some ⟨j⟩) ∧ col[i]? = some a

theorem exists_aligns {α : Type} {col : Column α} (hcol : col.size = s.size) :
    ∃ new, col.squeeze s.renumbering = .ok new ∧ s.Aligns s.renumbering col new := by
  obtain ⟨new, hnew, hsize, hentry⟩ := Column.exists_squeeze_rank hcol
  refine ⟨new, hnew, hsize, fun {i h'} hmoved => ?_, fun {j a} ha => ?_⟩
  · obtain ⟨hi, rfl⟩ := getElem?_renumbering_iff.1 hmoved
    exact hentry hi
  · have hj : j < s.population := hsize ▸ (Array.getElem?_eq_some_iff.1 ha).1
    obtain ⟨i, hi, rfl⟩ := exists_rank_eq hj
    exact ⟨i, getElem?_renumbering_iff.2 ⟨hi, rfl⟩, (hentry hi).symm.trans ha⟩

/-- If a machine word can count the slots, the loop through them gives the numbering that compaction
uses. The loop through any column that is as long as the slots does what squeezing does: it takes
the entry of each filled slot to the slot's new number, and leaves nothing else. -/
theorem loops_aligned (s : Slots k) (hs : s.size < UInt32.size) :
    s.countOff = some s.renumbering ∧ s.Numbers s.renumbering ∧
    ∀ {α : Type} (col : Column α), col.size = s.size →
      ∃ new, col.retain s.renumbering = .ok new ∧ col.squeeze s.renumbering = .ok new ∧
        s.Aligns s.renumbering col new := by
  refine ⟨?_, s.numbers, fun col hcol => ?_⟩
  · have hle : s.population ≤ s.size := s.length_toList ▸ List.countP_le_length
    rw [countOff_eq, if_pos (Nat.lt_of_le_of_lt hle hs)]
  · obtain ⟨new, hnew, haligns⟩ := exists_aligns hcol
    exact ⟨new, (col.retain_eq_squeeze _).trans hnew, hnew, haligns⟩

/-- Slots with gaps, one of them in front. Of the three handles only the last one stands where it
was issued. -/
def gapped : Slots .pin := #[none, some ⟨7⟩, none, some ⟨1⟩, some ⟨4⟩]

theorem loops_aligned_gapped :
    gapped.size < UInt32.size ∧ #["a", "b", "c", "d", "e"].size = gapped.size ∧
    gapped.countOff = some [none, some ⟨0⟩, none, some ⟨1⟩, some ⟨2⟩] ∧
    Column.retain #["a", "b", "c", "d", "e"] gapped.renumbering = .ok #["b", "d", "e"] ∧
    gapped.Aligns gapped.renumbering #["a", "b", "c", "d", "e"] #["b", "d", "e"] := by
  have hsize : gapped.size < UInt32.size := by decide
  have hcol : #["a", "b", "c", "d", "e"].size = gapped.size := rfl
  obtain ⟨hcount, -, hcolumns⟩ := loops_aligned gapped hsize
  obtain ⟨new, hretain, hsqueeze, haligns⟩ := hcolumns _ hcol
  obtain rfl : #["b", "d", "e"] = new := Except.ok.inj hsqueeze
  exact ⟨hsize, hcol, hcount, hretain, haligns⟩

end Slots

end MappedNetlist
