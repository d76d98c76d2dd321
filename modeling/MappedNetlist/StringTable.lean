import MappedNetlist.Renumbering

/-!
# The string table

Every name of a netlist is stored once and meant by its `StringId`. A table is a list of distinct
texts, and a handle is a position in it, so texts and issued handles correspond one to one by
construction. Interning appends a text that is not there yet; compaction keeps some of the texts
in their order and numbers them anew.
-/

namespace MappedNetlist

/-- Distinct texts in the order in which they were first interned. -/
@[ext] structure StringTable where
  texts : List String
  nodup : texts.Nodup

namespace StringTable

/-- The table without texts. -/
def empty : StringTable := ⟨[], List.nodup_nil⟩

instance : Inhabited StringTable := ⟨empty⟩

def size (t : StringTable) : Nat := t.texts.length

/-- The text that a handle stands for, if it was issued. -/
def text? (t : StringTable) (id : StringId) : Option String := t.texts[id.index]?

/-- Whether a handle was issued. -/
def contains (t : StringTable) (id : StringId) : Bool := id.index < t.size

/-- The handle of a text, if it was interned. -/
def find? (t : StringTable) (s : String) : Option StringId :=
  (t.texts.idxOf? s).map StringId.mk

/-- The issued handles, each with its text, in order of issue. -/
def entries (t : StringTable) : List (StringId × String) :=
  t.texts.zipIdx.map fun (s, i) => (⟨i⟩, s)

theorem mem_entries_iff {t : StringTable} {id : StringId} {s : String} :
    (id, s) ∈ t.entries ↔ t.text? id = some s := by
  simp only [entries, text?, List.mem_map, Prod.exists, Prod.mk.injEq]
  constructor
  · rintro ⟨text, i, hentry, rfl, rfl⟩
    exact List.mem_zipIdx_iff_getElem?.1 hentry
  · intro h
    exact ⟨s, id.index, List.mem_zipIdx_iff_getElem?.2 h, rfl, rfl⟩

theorem find?_eq_none_iff {t : StringTable} {s : String} : t.find? s = none ↔ s ∉ t.texts := by
  simp [find?, List.idxOf?_eq_none_iff]

/-- The handle of a text. A text that is new is appended and takes the next handle. -/
def intern (t : StringTable) (s : String) : StringId × StringTable :=
  match h : t.find? s with
  | some id => (id, t)
  | none =>
    (⟨t.size⟩, ⟨t.texts ++ [s], by
      have hs : s ∉ t.texts := find?_eq_none_iff.1 h
      rw [List.nodup_append]
      refine ⟨t.nodup, by simp, fun a ha b hb hab => hs ?_⟩
      rwa [← List.mem_singleton.1 hb, ← hab]⟩)

/-- The texts whose handles `keep` accepts, in their order, with the new handles of the old
ones. -/
def compact (t : StringTable) (keep : StringId → Bool) : StringTable × Renumbering StringId :=
  (⟨(t.entries.filter fun e => keep e.1).map Prod.snd, by
    have h : t.entries.map Prod.snd = t.texts := by simp [entries, Function.comp_def]
    exact (h ▸ t.nodup).sublist (List.filter_sublist.map _)⟩,
   Renumbering.numbering StringId.mk (fun e => keep e.1) t.entries)

@[simp] theorem size_empty : empty.size = 0 := rfl

@[simp] theorem text?_empty (id : StringId) : empty.text? id = none := rfl

theorem contains_iff {t : StringTable} {id : StringId} :
    t.contains id = true ↔ ∃ s, t.text? id = some s := by
  rw [contains, decide_eq_true_eq]
  constructor
  · intro h
    exact ⟨_, List.getElem?_eq_getElem h⟩
  · rintro ⟨s, h⟩
    exact (List.getElem?_eq_some_iff.1 h).1

/-- Texts and issued handles correspond one to one. -/
theorem find?_eq_some_iff {t : StringTable} {s : String} {id : StringId} :
    t.find? s = some id ↔ t.text? id = some s := by
  obtain ⟨i⟩ := id
  have hinj (j : Nat) (hj : j < t.texts.length) (hi : i < t.texts.length)
      (h : t.texts[j] = t.texts[i]) : j = i := by
    exact (List.getElem?_inj hj t.nodup).1 (by simp [hj, hi, h])
  simp only [find?, text?, Option.map_eq_some_iff, StringId.mk.injEq, exists_eq_right,
    List.idxOf?_eq_some_iff, List.getElem?_eq_some_iff]
  constructor
  · rintro ⟨hi, hs, -⟩
    exact ⟨hi, hs⟩
  · rintro ⟨hi, hs⟩
    exact ⟨hi, hs, fun j hj hjs =>
      Nat.ne_of_lt hj (hinj j (Nat.lt_trans hj hi) hi (hjs.trans hs.symm))⟩

theorem intern_of_find? {t : StringTable} {s : String} {id : StringId} (h : t.find? s = some id) :
    t.intern s = (id, t) := by
  unfold intern
  split <;> simp_all

/-- Interning keeps the texts that are there and appends at most the one asked for. -/
theorem texts_intern (t : StringTable) (s : String) :
    (t.intern s).2.texts = if s ∈ t.texts then t.texts else t.texts ++ [s] := by
  unfold intern
  split
  · next id h =>
    have hs : s ∈ t.texts := List.mem_of_getElem? (find?_eq_some_iff.1 h)
    simp [hs]
  · next h => simp [find?_eq_none_iff.1 h]

/-- The handle that interning returns stands for the text in the table it returns. -/
theorem text?_intern (t : StringTable) (s : String) :
    (t.intern s).2.text? (t.intern s).1 = some s := by
  unfold intern
  split
  · next id h => exact find?_eq_some_iff.1 h
  · simp [text?, size]

end StringTable

end MappedNetlist
