import Mathlib.Data.List.Basic
import MappedNetlist.Proofs.Record
import MappedNetlist.StringTable

/-!
# Renumbering keeps the order

A kept position gets the number of kept positions before it (`target?_numberFrom`). So the new
handles are those below the number of kept positions, each given once, in the order of the old ones,
and squeezing a column puts the entry of a kept position where its new handle points.
`Slots.Moves` relates the handle of a live entity to its new one.
-/

namespace MappedNetlist

namespace Renumbering

variable {α β ι : Type} {handle : Nat → ι} {keep : α → Bool} {as : List α} {i j : Nat} {a : α}

theorem target?_numberFrom (handle : Nat → ι) (keep : α → Bool) (n : Nat) (as : List α) (i : Nat) :
    target? (numberFrom handle keep n as) i = (as[i]?).bind fun a =>
      if keep a then some (handle (n + (as.take i).countP keep)) else none := by
  induction as generalizing n i with
  | nil => simp
  | cons a as ih =>
    cases i with
    | zero => by_cases h : keep a <;> simp [numberFrom, h]
    | succ i => by_cases h : keep a <;> simp [numberFrom, h, ih, Nat.add_assoc, Nat.add_comm 1]

/-- If everything is kept, every position keeps its number. -/
theorem target?_numbering_of_all (handle : Nat → ι) (h : ∀ a ∈ as, keep a = true)
    (hi : i < as.length) : target? (numbering handle keep as) i = some (handle i) := by
  have hcount : (as.take i).countP keep = i := by
    rw [List.countP_eq_length.2 fun a ha => h a (List.mem_of_mem_take ha), List.length_take]
    exact Nat.min_eq_left (Nat.le_of_lt hi)
  rw [numbering, target?_numberFrom, List.getElem?_eq_getElem hi, Option.bind_some,
    if_pos (h _ (List.getElem_mem hi)), hcount, Nat.zero_add]

/-- The entry of a kept position is found at the number of kept positions before it. -/
theorem getElem?_select (handle : Nat → ι) (keep : α → Bool) (n : Nat) (col : List β)
    (ha : as[i]? = some a) (hk : keep a = true) :
    (select (numberFrom handle keep n as) col)[(as.take i).countP keep]? = col[i]? := by
  induction as generalizing n i col with
  | nil => simp at ha
  | cons b as ih =>
    cases col with
    | nil => simp
    | cons c col =>
      cases i with
      | zero =>
        obtain rfl : b = a := by simpa using ha
        simp [numberFrom, hk, select]
      | succ i =>
        rw [List.getElem?_cons_succ] at ha ⊢
        by_cases hb : keep b <;> simp [numberFrom, hb, select, ih _ _ ha]

theorem length_select (n : Nat) {col : List β} (h : col.length = as.length) :
    (select (numberFrom handle keep n as) col).length = as.countP keep := by
  induction as generalizing n col with
  | nil => simp
  | cons b as ih =>
    cases col with
    | nil => simp at h
    | cons c col =>
      have hlen : col.length = as.length := by simpa using h
      by_cases hb : keep b <;> simp [numberFrom, hb, select, ih _ hlen]

theorem select_map (n : Nat) (g : α → β) :
    select (numberFrom handle keep n as) (as.map g) = (as.filter keep).map g := by
  induction as generalizing n with
  | nil => simp
  | cons b as ih => by_cases hb : keep b <;> simp [numberFrom, hb, select, ih]

/-- The handles given are the first ones, in order. -/
theorem handles_numberFrom (n : Nat) :
    handles (numberFrom handle keep n as) = (List.range' n (as.countP keep)).map handle := by
  induction as generalizing n with
  | nil => simp [handles]
  | cons b as ih =>
    by_cases hb : keep b = true
    · rw [numberFrom_cons_of_pos _ _ _ hb, List.countP_cons_of_pos hb, List.range'_succ,
        List.map_cons, ← ih]
      rfl
    · rw [numberFrom_cons_of_neg _ _ _ hb, List.countP_cons_of_neg hb, ← ih]
      rfl

/-- The handles given are the new handles of all positions. -/
theorem filterMap_target?_range (m : Renumbering ι) :
    (List.range m.length).filterMap (target? m) = handles m := by
  induction m with
  | nil => rfl
  | cons t m ih =>
    have hsucc : target? (t :: m) ∘ Nat.succ = target? m := funext (target?_cons_succ t m)
    rw [List.length_cons, List.range_succ_eq_map, List.filterMap_cons, List.filterMap_map, hsucc,
      ih, target?_cons_zero]
    cases t <;> rfl

/-- Every number below that of the kept positions is given. -/
theorem exists_countP_take_eq (h : j < as.countP keep) :
    ∃ i a, as[i]? = some a ∧ keep a = true ∧ (as.take i).countP keep = j := by
  induction as generalizing j with
  | nil => simp at h
  | cons b as ih =>
    by_cases hb : keep b
    · cases j with
      | zero => exact ⟨0, b, rfl, hb, rfl⟩
      | succ j =>
        obtain ⟨i, a, ha, hk, hi⟩ := ih (j := j) (by simpa [hb] using h)
        exact ⟨i + 1, a, ha, hk, by simp [hb, hi]⟩
    · obtain ⟨i, a, ha, hk, hi⟩ := ih (j := j) (by simpa [hb] using h)
      exact ⟨i + 1, a, ha, hk, by simp [hb, hi]⟩

theorem countP_take_succ (ha : as[i]? = some a) (hk : keep a = true) :
    (as.take (i + 1)).countP keep = (as.take i).countP keep + 1 := by
  rw [List.take_add_one, ha, List.countP_append]
  simp [hk]

theorem countP_take_lt (hij : i < j) (ha : as[i]? = some a) (hk : keep a = true) :
    (as.take i).countP keep < (as.take j).countP keep := by
  have hsub : (as.take (i + 1)).Sublist (as.take j) :=
    (List.take_prefix_take_left hij).sublist
  have hle := hsub.countP_le (p := keep)
  rw [countP_take_succ ha hk] at hle
  exact hle

theorem countP_take_lt_countP (ha : as[i]? = some a) (hk : keep a = true) :
    (as.take i).countP keep < as.countP keep := by
  have hle := (List.take_sublist (i + 1) as).countP_le (p := keep)
  rw [countP_take_succ ha hk] at hle
  exact hle

end Renumbering

namespace Slots

variable {k : Kind} {s : Slots k} {h h' g g' : Handle k} {i j : Nat}

/-- Some handle stands at the position, whichever it is. -/
def Filled (s : Slots k) (i : Nat) : Prop := ∃ h, s[i]? = some (some h)

/-- The number of filled slots before a position. -/
def rank (s : Slots k) (i : Nat) : Nat := (s.toList.take i).countP Option.isSome

/-- The number of filled slots. -/
def population (s : Slots k) : Nat := s.toList.countP Option.isSome

theorem filled_iff : s.Filled i ↔ ∃ slot, s.toList[i]? = some slot ∧ slot.isSome = true := by
  simp [Filled, Option.isSome_iff_exists]

theorem IsLive.filled (hl : s.IsLive h) : s.Filled h.index := ⟨h, hl⟩

theorem Placed.isLive_of_filled (hs : s.Placed) (hf : s.Filled h.index) : s.IsLive h := by
  obtain ⟨g, hg⟩ := hf
  have hindex : g.index = h.index := hs _ g hg
  cases g
  cases h
  cases hindex
  exact hg

theorem rank_lt_rank (hi : s.Filled i) (hij : i < j) : s.rank i < s.rank j := by
  obtain ⟨slot, hslot, hsome⟩ := filled_iff.1 hi
  exact Renumbering.countP_take_lt hij hslot hsome

theorem rank_lt_population (hi : s.Filled i) : s.rank i < s.population := by
  obtain ⟨slot, hslot, hsome⟩ := filled_iff.1 hi
  exact Renumbering.countP_take_lt_countP hslot hsome

theorem exists_rank_eq (hj : j < s.population) : ∃ i, s.Filled i ∧ s.rank i = j := by
  obtain ⟨i, slot, hslot, hsome, hrank⟩ := Renumbering.exists_countP_take_eq hj
  exact ⟨i, filled_iff.2 ⟨slot, hslot, hsome⟩, hrank⟩

/-- What stands at a filled position gets the number of filled slots before it as its new handle,
and nothing else gets one. -/
theorem target?_renumbering_eq_some_iff :
    s.renumbering.target? i = some h' ↔ s.Filled i ∧ h' = ⟨s.rank i⟩ := by
  rw [renumbering, Renumbering.numbering, Renumbering.target?_numberFrom, filled_iff,
    Option.bind_eq_some_iff]
  simp only [Nat.zero_add, Option.ite_none_right_eq_some, Option.some.injEq, rank, eq_comm (a := h')]
  constructor
  · rintro ⟨slot, hslot, hsome, rfl⟩
    exact ⟨⟨slot, hslot, hsome⟩, rfl⟩
  · rintro ⟨⟨slot, hslot, hsome⟩, rfl⟩
    exact ⟨slot, hslot, hsome, rfl⟩

/-- The new handle of the entity `h` is `h'`. -/
def Moves (s : Slots k) (h h' : Handle k) : Prop := s.renumbering.target? h.index = some h'

/-- A live handle moves to the number of live handles before it, and no other handle moves. -/
theorem moves_iff (hs : s.Placed) : s.Moves h h' ↔ s.IsLive h ∧ h' = ⟨s.rank h.index⟩ := by
  rw [Moves, target?_renumbering_eq_some_iff]
  exact and_congr_left' ⟨hs.isLive_of_filled, IsLive.filled⟩

theorem Moves.isLive (hs : s.Placed) (h₁ : s.Moves h h') : s.IsLive h :=
  ((moves_iff hs).1 h₁).1

theorem exists_moves (hs : s.Placed) (hl : s.IsLive h) : ∃ h', s.Moves h h' :=
  ⟨_, (moves_iff hs).2 ⟨hl, rfl⟩⟩

theorem Moves.unique (h₁ : s.Moves h h') (h₂ : s.Moves h g') : h' = g' :=
  Option.some.inj (h₁.symm.trans h₂)

/-- New handles have the order of the old ones. -/
theorem Moves.lt (hs : s.Placed) (h₁ : s.Moves h h') (h₂ : s.Moves g g')
    (hlt : h.index < g.index) : h'.index < g'.index := by
  obtain ⟨hl, rfl⟩ := (moves_iff hs).1 h₁
  obtain ⟨-, rfl⟩ := (moves_iff hs).1 h₂
  exact rank_lt_rank hl.filled hlt

theorem Moves.injective (hs : s.Placed) (h₁ : s.Moves h h') (h₂ : s.Moves g h') : h = g := by
  rcases Nat.lt_trichotomy h.index g.index with hlt | heq | hlt
  · exact absurd (h₁.lt hs h₂ hlt) (Nat.lt_irrefl _)
  · cases h; cases g; simp_all
  · exact absurd (h₂.lt hs h₁ hlt) (Nat.lt_irrefl _)

theorem Moves.index_lt (hs : s.Placed) (h₁ : s.Moves h h') : h'.index < s.population := by
  obtain ⟨hl, rfl⟩ := (moves_iff hs).1 h₁
  exact rank_lt_population hl.filled

theorem exists_moves_of_lt (hs : s.Placed) (h' : Handle k) (hlt : h'.index < s.population) :
    ∃ h, s.Moves h h' := by
  obtain ⟨i, hi, hrank⟩ := exists_rank_eq hlt
  exact ⟨⟨i⟩, (moves_iff hs).2 ⟨hs.isLive_of_filled hi, by rw [hrank]⟩⟩

/-! ### The live handles in order -/

theorem target?_toList (hs : s.Placed) (i : Nat) :
    Renumbering.target? s.toList i = if s.IsLive ⟨i⟩ then some ⟨i⟩ else none := by
  rw [Renumbering.target?, Array.getElem?_toList]
  cases hi : s[i]? with
  | none => simp [IsLive, hi]
  | some slot =>
    cases slot with
    | none => simp [IsLive, hi]
    | some h =>
      obtain rfl : h.index = i := hs i h hi
      simp [IsLive, hi]

theorem live_eq_filter (hs : s.Placed) :
    s.live = ((List.range s.size).map Handle.mk).filter (s.IsLive ·) := by
  rw [List.filter_map, ← List.filterMap_eq_map, List.filterMap_filter]
  refine (Renumbering.filterMap_target?_range s.toList).symm.trans ?_
  rw [Array.length_toList]
  refine List.filterMap_congr fun i _ => ?_
  rw [target?_toList hs]
  simp

theorem nodup_issued (s : Slots k) : ((List.range s.size).map (Handle.mk : Nat → Handle k)).Nodup :=
  List.pairwise_map.2 (List.nodup_range.imp fun hne heq => hne (Handle.mk.inj heq))

theorem nodup_live (hs : s.Placed) : s.live.Nodup := by
  rw [live_eq_filter hs]
  exact s.nodup_issued.filter _

/-- The new handles are those of the live entities in order. -/
theorem filterMap_target?_live (hs : s.Placed) :
    s.live.filterMap (fun h => s.renumbering.target? h.index) = s.renumbering.handles := by
  rw [live_eq_filter hs, ← Renumbering.filterMap_target?_range, length_renumbering,
    List.filterMap_filter, List.filterMap_map]
  refine List.filterMap_congr fun i _ => ?_
  by_cases hl : s.IsLive ⟨i⟩
  · simp [hl]
  · rw [Function.comp_apply, if_neg (by simpa using hl)]
    symm
    rw [Option.eq_none_iff_forall_ne_some]
    exact fun h' hmove => hl (Moves.isLive hs (h := ⟨i⟩) hmove)

theorem handles_renumbering (s : Slots k) :
    s.renumbering.handles = (List.range s.live.length).map Handle.mk := by
  rw [renumbering, Renumbering.numbering, Renumbering.handles_numberFrom, List.range_eq_range',
    live, List.length_filterMap_eq_countP]
  rfl

/-! ### Slots without gaps -/

theorem getElem?_ofRenumbering (s : Slots k) (i : Nat) :
    (ofRenumbering s.renumbering)[i]? = if i < s.population then some (some ⟨i⟩) else none := by
  rw [ofRenumbering, renumbering, Renumbering.numbering, Renumbering.handles_numberFrom,
    List.getElem?_toArray, List.getElem?_map, List.getElem?_map, ← population]
  by_cases h : i < s.population
  · rw [if_pos h, List.getElem?_range' h]
    simp
  · rw [if_neg h, List.getElem?_eq_none (by simpa using h)]
    rfl

theorem size_ofRenumbering (s : Slots k) : (ofRenumbering s.renumbering).size = s.population := by
  rw [ofRenumbering, renumbering, Renumbering.numbering, Renumbering.handles_numberFrom]
  simp [population]

theorem placed_ofRenumbering (s : Slots k) : (ofRenumbering s.renumbering).Placed := by
  intro i h hi
  rw [getElem?_ofRenumbering] at hi
  split at hi
  · obtain rfl : Handle.mk i = h := by simpa using hi
    rfl
  · simp at hi

theorem live_ofRenumbering (m : Renumbering (Handle k)) : (ofRenumbering m).live = m.handles := by
  simp [ofRenumbering, live, List.filterMap_map]

theorem isLive_ofRenumbering (s : Slots k) :
    (ofRenumbering s.renumbering).IsLive h ↔ h.index < s.population := by
  rw [IsLive, getElem?_ofRenumbering]
  split
  · simp_all
  · simp_all

end Slots

namespace Column

variable {α : Type} {k : Kind} {s : Slots k} {col : Column α}

/-- A squeezed column has the entries of filled positions, each at its new number. -/
theorem exists_squeeze_rank (hcol : col.size = s.size) :
    ∃ new : Column α, col.squeeze s.renumbering = .ok new ∧ new.size = s.population ∧
      ∀ {i : Nat}, s.Filled i → new[s.rank i]? = col[i]? := by
  refine ⟨_, squeeze_eq_ok_iff.2 ⟨by simp [hcol], rfl⟩, ?_, fun {i} hi => ?_⟩
  · rw [List.size_toArray, Slots.renumbering, Renumbering.numbering, Slots.population]
    exact Renumbering.length_select 0 (by simp [hcol])
  · obtain ⟨slot, hslot, hsome⟩ := Slots.filled_iff.1 hi
    rw [List.getElem?_toArray, Slots.renumbering, Renumbering.numbering, Slots.rank,
      Renumbering.getElem?_select Handle.mk Option.isSome 0 col.toList hslot hsome,
      Array.getElem?_toList]

/-- A squeezed column has the entries of live handles at their new positions. -/
theorem exists_squeeze (hs : s.Placed) (hcol : col.size = s.size) :
    ∃ new : Column α, col.squeeze s.renumbering = .ok new ∧ new.size = s.population ∧
      ∀ {h h' : Handle k}, s.Moves h h' → new[h'.index]? = col[h.index]? := by
  obtain ⟨new, hnew, hsize, hentry⟩ := exists_squeeze_rank hcol
  refine ⟨new, hnew, hsize, fun {h h'} hmove => ?_⟩
  obtain ⟨hl, rfl⟩ := (Slots.moves_iff hs).1 hmove
  exact hentry hl.filled

end Column

/-! ## Texts -/

namespace StringTable

variable {t : StringTable} {id : StringId} {text : String}

theorem getElem?_entries (t : StringTable) (i : Nat) :
    t.entries[i]? = (t.texts[i]?).map fun text => (⟨i⟩, text) := by
  rw [entries, List.getElem?_map, List.getElem?_zipIdx]
  simp [Option.map_map, Function.comp_def]

theorem map_snd_entries (t : StringTable) : t.entries.map Prod.snd = t.texts := by
  simp [entries, Function.comp_def]

/-- What is kept of the texts stays in its order. -/
theorem sublist_compact (t : StringTable) (keep : StringId → Bool) :
    (t.compact keep).1.texts.Sublist t.texts :=
  t.map_snd_entries ▸ List.filter_sublist.map _

/-- Two names of one text are the same. -/
theorem eq_of_text? {id' : StringId} (h : t.text? id = some text) (h' : t.text? id' = some text) :
    id = id' :=
  Option.some.inj ((find?_eq_some_iff.2 h).symm.trans (find?_eq_some_iff.2 h'))

/-- A kept name gets a new handle, which stands for the same text. -/
theorem exists_target?_compact (keep : StringId → Bool) (hid : t.text? id = some text)
    (hk : keep id = true) :
    ∃ id', (t.compact keep).2.target? id.index = some id' ∧
      (t.compact keep).1.text? id' = some text := by
  have hentry : t.entries[id.index]? = some (id, text) := by
    rw [getElem?_entries, show t.texts[id.index]? = some text from hid]
    rfl
  refine ⟨⟨(t.entries.take id.index).countP fun e => keep e.1⟩, ?_, ?_⟩
  · rw [compact, Renumbering.numbering, Renumbering.target?_numberFrom, hentry]
    simp [hk]
  · have hselect := Renumbering.getElem?_select StringId.mk (fun e => keep e.1) 0
      (t.entries.map Prod.snd) hentry hk
    have htext : (t.entries.map Prod.snd)[id.index]? = some text := by
      rw [List.getElem?_map, hentry]
      rfl
    rw [Renumbering.select_map, htext] at hselect
    exact hselect

/-- Every name that is given out anew was kept. -/
theorem exists_of_text?_compact (keep : StringId → Bool)
    (h : (t.compact keep).1.text? id = some text) :
    ∃ old, keep old = true ∧ (t.compact keep).2.target? old.index = some id := by
  have hlt : id.index < t.entries.countP fun e => keep e.1 := by
    rw [List.countP_eq_length_filter, ← List.length_map (f := Prod.snd)]
    exact (List.getElem?_eq_some_iff.1 h).1
  obtain ⟨i, e, hentry, hkeep, hcount⟩ := Renumbering.exists_countP_take_eq hlt
  have hi : e.1.index = i := by
    rw [getElem?_entries, Option.map_eq_some_iff] at hentry
    obtain ⟨_, -, rfl⟩ := hentry
    rfl
  refine ⟨e.1, hkeep, ?_⟩
  rw [compact, Renumbering.numbering, Renumbering.target?_numberFrom, hi, hentry]
  simp [hkeep, hcount]

/-- If all names are kept, each keeps its handle. -/
theorem compact_of_all (keep : StringId → Bool)
    (h : ∀ {id : StringId} {text : String}, t.text? id = some text → keep id = true) :
    (t.compact keep).1 = t ∧ ∀ {id : StringId} {text : String}, t.text? id = some text →
      (t.compact keep).2.target? id.index = some id := by
  have hkeep : ∀ e ∈ t.entries, keep e.1 = true := by
    intro e he
    obtain ⟨i, hi⟩ := List.mem_iff_getElem?.1 he
    rw [getElem?_entries, Option.map_eq_some_iff] at hi
    obtain ⟨text, htext, rfl⟩ := hi
    exact @h ⟨i⟩ text htext
  constructor
  · exact StringTable.ext ((congrArg _ (List.filter_eq_self.2 hkeep)).trans t.map_snd_entries)
  · intro id text htext
    have hlen : t.entries.length = t.texts.length := by simp [entries]
    refine Renumbering.target?_numbering_of_all _ hkeep ?_
    rw [hlen]
    exact (List.getElem?_eq_some_iff.1 htext).1

end StringTable

end MappedNetlist
