import MappedNetlist.Proofs.Creation
import MappedNetlist.Proofs.Renumbering

/-!
# Interning and compaction

In every string table that interning and compaction make from the empty one, the handles in use are
the numbers below the size, each for a text of its own (`StringTable.Dense`). Interning leaves them
alone. Compaction gives a kept handle its rank among the kept ones (`rank`), from which everything
about the new handles follows: that they have the order of the old ones, and that two compactions
are one (`compact_compact`). Compaction is also what interning the kept texts into an empty table
does, if the new handles are noted down at the old ones (`reintern_eq_compact`). A handle can be
followed through any calls and stands for the same text all the way (`text?_of_follow`).
-/

namespace MappedNetlist.StringTable

variable {t : StringTable} {keep keep' : StringId → Bool} {id id' : StringId} {text : String}

/-! ## Ranks -/

/-- The number of kept handles before a position. -/
def rank (keep : StringId → Bool) (i : Nat) : Nat := (List.range i).countP fun j => keep ⟨j⟩

theorem rank_succ (keep : StringId → Bool) (i : Nat) :
    rank keep (i + 1) = rank keep i + if keep ⟨i⟩ then 1 else 0 := by
  rw [rank, rank, List.range_succ, List.countP_append, List.countP_singleton]

theorem rank_le_rank {i j : Nat} (h : i ≤ j) : rank keep i ≤ rank keep j := by
  induction h with
  | refl => exact Nat.le_refl _
  | step _ ih =>
    rw [rank_succ]
    exact Nat.le_add_right_of_le ih

theorem rank_lt_rank {i j : Nat} (hij : i < j) (hi : keep ⟨i⟩ = true) :
    rank keep i < rank keep j := by
  refine Nat.lt_of_lt_of_le ?_ (rank_le_rank hij)
  rw [rank_succ, if_pos hi]
  exact Nat.lt_succ_self _

theorem countP_take_entries (keep : StringId → Bool) {i : Nat} (hi : i ≤ t.size) :
    (t.entries.take i).countP (fun e => keep e.1) = rank keep i := by
  induction i with
  | zero => rfl
  | succ i ih =>
    have hentry : t.entries[i]? = some (⟨i⟩, t.texts[i]) := by
      rw [getElem?_entries, List.getElem?_eq_getElem hi]
      rfl
    rw [List.take_add_one, hentry, List.countP_append, ih (Nat.le_of_succ_le hi), rank_succ,
      Option.toList_some, List.countP_singleton]

/-- A kept handle moves to its rank, and no other handle moves. -/
theorem target?_compact (t : StringTable) (keep : StringId → Bool) (id : StringId) :
    (t.compact keep).2.target? id.index =
      if t.contains id = true ∧ keep id = true then some ⟨rank keep id.index⟩ else none := by
  rw [compact, Renumbering.numbering, Renumbering.target?_numberFrom, getElem?_entries]
  by_cases h : id.index < t.texts.length
  · have hcount := countP_take_entries keep (Nat.le_of_lt (show id.index < t.size from h))
    simp [h, hcount, contains, size]
  · simp [h, contains, size]

theorem target?_compact_eq_some_iff : (t.compact keep).2.target? id.index = some id' ↔
    t.contains id = true ∧ keep id = true ∧ id' = ⟨rank keep id.index⟩ := by
  rw [target?_compact]
  by_cases h : t.contains id = true ∧ keep id = true
  · simp [h, eq_comm]
  · simp only [h, if_false, reduceCtorEq, false_iff]
    exact fun h' => h ⟨h'.1, h'.2.1⟩

/-- After compaction a handle stands for the text of the kept handle that has moved to it. -/
theorem text?_compact_eq_some_iff : (t.compact keep).1.text? id = some text ↔
    ∃ old, t.text? old = some text ∧ keep old = true ∧ id = ⟨rank keep old.index⟩ := by
  constructor
  · intro h
    obtain ⟨old, hkeep, hmove⟩ := exists_of_text?_compact keep h
    obtain ⟨hold, -, rfl⟩ := target?_compact_eq_some_iff.1 hmove
    obtain ⟨text', hold⟩ := contains_iff.1 hold
    obtain ⟨id', hmove', htext'⟩ := exists_target?_compact keep hold hkeep
    obtain rfl := Option.some.inj (hmove.symm.trans hmove')
    exact ⟨old, hold.trans (htext'.symm.trans h), hkeep, rfl⟩
  · rintro ⟨old, hold, hkeep, rfl⟩
    obtain ⟨id', hmove, htext⟩ := exists_target?_compact keep hold hkeep
    obtain ⟨-, -, rfl⟩ := target?_compact_eq_some_iff.1 hmove
    exact htext

/-- Compaction makes for every handle either a new one, or a note that it is gone. -/
@[simp] theorem length_compact (t : StringTable) (keep : StringId → Bool) :
    (t.compact keep).2.length = t.size := by
  simp [compact, Renumbering.numbering, entries, size]

/-! ## Two compactions -/

/-- The handles that two compactions keep, the second one asked for the new handles. -/
def keepBoth (t : StringTable) (keep keep' : StringId → Bool) (id : StringId) : Bool :=
  keep id && ((t.compact keep).2.target? id.index).any keep'

theorem keepBoth_eq (keep keep' : StringId → Bool) (hid : t.contains id = true) :
    t.keepBoth keep keep' id = (keep id && keep' ⟨rank keep id.index⟩) := by
  by_cases hk : keep id = true
  · simp [keepBoth, target?_compact, hid, hk]
  · simp [keepBoth, hk]

/-- The rank of a rank is a rank among those that are kept both times. -/
theorem rank_rank (keep keep' : StringId → Bool) {i : Nat} (hi : i ≤ t.size) :
    rank keep' (rank keep i) = rank (t.keepBoth keep keep') i := by
  induction i with
  | zero => rfl
  | succ i ih =>
    have hid : t.contains ⟨i⟩ = true := decide_eq_true hi
    rw [rank_succ, rank_succ (t.keepBoth keep keep'), ← ih (Nat.le_of_succ_le hi),
      keepBoth_eq keep keep' hid]
    by_cases hk : keep ⟨i⟩ = true
    · rw [if_pos hk, rank_succ, hk, Bool.true_and]
    · rw [if_neg hk, Bool.eq_false_iff.2 hk]
      rfl

/-- Tables in which every handle stands for the same text are the same. -/
theorem ext_text? {t u : StringTable} (h : ∀ id, t.text? id = u.text? id) : t = u :=
  StringTable.ext (List.ext_getElem? fun i => h ⟨i⟩)

/-- The new handles of two compactions, one after the other, in terms of the handles before. -/
def compose (m m' : Renumbering StringId) : Renumbering StringId :=
  m.map fun moved => moved.bind fun id => m'.target? id.index

@[simp] theorem target?_compose (m m' : Renumbering StringId) (i : Nat) :
    (compose m m').target? i = (m.target? i).bind fun id => m'.target? id.index := by
  rw [Renumbering.target?, compose, List.getElem?_map, Renumbering.target?]
  cases m[i]? <;> rfl

theorem contains_compact_rank (hid : t.contains id = true) (hkeep : keep id = true) :
    (t.compact keep).1.contains ⟨rank keep id.index⟩ = true := by
  obtain ⟨text, htext⟩ := contains_iff.1 hid
  exact contains_iff.2 ⟨text, text?_compact_eq_some_iff.2 ⟨id, htext, hkeep, rfl⟩⟩

/-- Renumberings of one length that give the same new handles are the same. -/
theorem ext_target? {m m' : Renumbering StringId} (hlen : m.length = m'.length)
    (h : ∀ id : StringId, m.target? id.index = m'.target? id.index) : m = m' := by
  refine List.ext_getElem hlen fun i hi hi' => ?_
  have htarget := h ⟨i⟩
  rwa [Renumbering.target?, Renumbering.target?, List.getElem?_eq_getElem hi,
    List.getElem?_eq_getElem hi'] at htarget

/-- Compacting twice is compacting once, keeping what is kept both times. -/
theorem compact_compact (t : StringTable) (keep keep' : StringId → Bool) :
    t.compact (t.keepBoth keep keep') = (((t.compact keep).1.compact keep').1,
      compose (t.compact keep).2 ((t.compact keep).1.compact keep').2) := by
  have hboth {old : StringId} (hold : t.contains old = true) :
      t.keepBoth keep keep' old = (keep old && keep' ⟨rank keep old.index⟩) ∧
      rank (t.keepBoth keep keep') old.index = rank keep' (rank keep old.index) :=
    ⟨keepBoth_eq keep keep' hold,
      (rank_rank keep keep' (Nat.le_of_lt (of_decide_eq_true hold))).symm⟩
  refine Prod.ext (ext_text? fun id => Option.ext fun text => ?_) (ext_target? ?_ fun id => ?_)
  · simp only [text?_compact_eq_some_iff]
    constructor
    · rintro ⟨old, hold, hkept, rfl⟩
      obtain ⟨hk, hrank⟩ := hboth (contains_iff.2 ⟨text, hold⟩)
      rw [hk, Bool.and_eq_true] at hkept
      exact ⟨_, ⟨old, hold, hkept.1, rfl⟩, hkept.2, by rw [hrank]⟩
    · rintro ⟨_, ⟨old, hold, hkeep, rfl⟩, hkeep', rfl⟩
      obtain ⟨hk, hrank⟩ := hboth (contains_iff.2 ⟨text, hold⟩)
      exact ⟨old, hold, by rw [hk, hkeep, hkeep']; rfl, by rw [hrank]⟩
  · rw [compose, List.length_map, length_compact, length_compact]
  · rw [target?_compose, target?_compact, target?_compact t keep]
    by_cases hid : t.contains id = true
    · obtain ⟨hk, hrank⟩ := hboth hid
      rw [hk, hrank]
      by_cases hkeep : keep id = true
      · have hnew := contains_compact_rank hid hkeep
        simp [hid, hkeep, hnew, target?_compact _ keep' ⟨rank keep id.index⟩]
      · simp [hkeep]
    · simp [hid]

/-! ## Compaction by interning -/

/-- One step of a compaction: a kept text is interned, and its new handle is noted down at the old
one. -/
def reinternStep (keep : StringId → Bool) (r : StringTable × Renumbering StringId)
    (entry : StringId × String) : StringTable × Renumbering StringId :=
  if keep entry.1 then
    ((r.1.intern entry.2).2, r.2.set entry.1.index (some (r.1.intern entry.2).1))
  else r

/-- Interns the kept texts into an empty table, in their order. -/
def reintern (t : StringTable) (keep : StringId → Bool) : StringTable × Renumbering StringId :=
  t.entries.foldl (reinternStep keep) (empty, List.replicate t.size none)

theorem intern_of_notMem {t : StringTable} (h : text ∉ t.texts) :
    (t.intern text).1 = ⟨t.size⟩ ∧ (t.intern text).2.texts = t.texts ++ [text] := by
  refine ⟨?_, by rw [texts_intern, if_neg h]⟩
  unfold intern
  split
  · next id hid => exact absurd (find?_eq_none_iff.2 h) (by simp [hid])
  · rfl

/-- Texts with the handles from a number on. -/
def entriesFrom (n : Nat) (texts : List String) : List (StringId × String) :=
  (texts.zipIdx n).map fun (text, i) => (⟨i⟩, text)

theorem entriesFrom_cons (n : Nat) (text : String) (texts : List String) :
    entriesFrom n (text :: texts) = (⟨n⟩, text) :: entriesFrom (n + 1) texts := rfl

section Step

variable {r : StringTable} {m rest : Renumbering StringId}

theorem reinternStep_of_pos (hk : keep ⟨m.length⟩ = true) (htext : text ∉ r.texts) :
    reinternStep keep (r, m ++ none :: rest) (⟨m.length⟩, text) =
      ((r.intern text).2, (m ++ [some ⟨r.size⟩]) ++ rest) := by
  rw [reinternStep, if_pos hk, (intern_of_notMem htext).1]
  simp

theorem reinternStep_of_neg (hk : ¬keep ⟨m.length⟩ = true) :
    reinternStep keep (r, m ++ none :: rest) (⟨m.length⟩, text) = (r, (m ++ [none]) ++ rest) := by
  rw [reinternStep, if_neg hk, List.append_assoc]
  rfl

end Step

/-- The rest of a compaction: `r` has the kept texts so far, `m` the new handles so far, and none of
the texts that are left is in `r`. -/
theorem foldl_reinternStep (keep : StringId → Bool) {texts : List String} (hnodup : texts.Nodup)
    (r : StringTable) (hr : ∀ text ∈ texts, text ∉ r.texts) (m : Renumbering StringId)
    {r' : StringTable × Renumbering StringId}
    (h : (entriesFrom m.length texts).foldl (reinternStep keep)
      (r, m ++ List.replicate texts.length none) = r') :
    r'.1.texts = r.texts ++
      ((entriesFrom m.length texts).filter fun e => keep e.1).map Prod.snd ∧
    r'.2 = m ++ Renumbering.numberFrom StringId.mk (fun e => keep e.1) r.size
      (entriesFrom m.length texts) := by
  induction texts generalizing r m with
  | nil =>
    subst h
    simp [entriesFrom]
  | cons text texts ih =>
    obtain ⟨htext, hnodup⟩ := List.nodup_cons.1 hnodup
    obtain ⟨hnew, hr⟩ := List.forall_mem_cons.1 hr
    have hlength (moved : Option StringId) : m.length + 1 = (m ++ [moved]).length := by simp
    rw [entriesFrom_cons, List.foldl_cons, List.length_cons, List.replicate_succ] at h
    by_cases hk : keep ⟨m.length⟩ = true
    · obtain ⟨-, htexts⟩ := intern_of_notMem hnew
      have hsize : (r.intern text).2.size = r.size + 1 := by simp [size, htexts]
      have hleft : ∀ other ∈ texts, other ∉ (r.intern text).2.texts := by
        intro other hother hmem
        rw [htexts, List.mem_append, List.mem_singleton] at hmem
        rcases hmem with hmem | rfl
        · exact hr other hother hmem
        · exact htext hother
      rw [reinternStep_of_pos hk hnew, hlength (some ⟨r.size⟩)] at h
      obtain ⟨hkept, hmap⟩ := ih hnodup _ hleft _ h
      rw [hkept, hmap, hsize, htexts, ← hlength, entriesFrom_cons]
      simp [Renumbering.numberFrom, hk]
    · rw [reinternStep_of_neg hk, hlength none] at h
      obtain ⟨hkept, hmap⟩ := ih hnodup _ hr _ h
      rw [hkept, hmap, ← hlength, entriesFrom_cons]
      simp [Renumbering.numberFrom, hk]

/-- Compaction is interning the kept texts into an empty table. -/
theorem reintern_eq_compact (t : StringTable) (keep : StringId → Bool) :
    t.reintern keep = t.compact keep := by
  obtain ⟨htexts, hmap⟩ := foldl_reinternStep keep t.nodup empty (by simp [empty]) [] rfl
  exact Prod.ext (StringTable.ext htexts) hmap

/-! ## Calls in order -/

/-- What changes a string table. -/
inductive Call
  | intern (text : String)
  | compact (keep : StringId → Bool)

/-- The table after a call. -/
def Call.after (t : StringTable) : Call → StringTable
  | .intern text => (t.intern text).2
  | .compact keep => (t.compact keep).1

/-- The handle after a call for a handle before it, unless the text is dropped. -/
def Call.moved (t : StringTable) (id : StringId) : Call → Option StringId
  | .intern _ => some id
  | .compact keep => (t.compact keep).2.target? id.index

/-- The table after calls in order. -/
def run (t : StringTable) (calls : List Call) : StringTable := calls.foldl Call.after t

theorem run_append (t : StringTable) (calls more : List Call) :
    t.run (calls ++ more) = (t.run calls).run more :=
  List.foldl_append

/-- The handle after calls in order for a handle before them, unless the text is dropped. -/
def follow (t : StringTable) : List Call → StringId → Option StringId
  | [], id => some id
  | c :: calls, id => (c.moved t id).bind (follow (c.after t) calls)

/-- A call does not change what a handle stands for, if the handle is replaced by the new one. -/
theorem Call.text?_of_moved {c : Call} (h : t.text? id = some text)
    (hmove : c.moved t id = some id') : (c.after t).text? id' = some text := by
  cases c with
  | intern other =>
    obtain rfl : id = id' := Option.some.inj hmove
    exact t.extends_intern other h
  | compact keep =>
    obtain ⟨-, hkeep, rfl⟩ := target?_compact_eq_some_iff.1 hmove
    exact text?_compact_eq_some_iff.2 ⟨id, h, hkeep, rfl⟩

theorem Call.moved_lt_moved {c : Call} {j j' : StringId} (hlt : id.index < j.index)
    (hid : c.moved t id = some id') (hj : c.moved t j = some j') : id'.index < j'.index := by
  cases c with
  | intern other =>
    cases hid
    cases hj
    exact hlt
  | compact keep =>
    obtain ⟨-, hkeep, rfl⟩ := target?_compact_eq_some_iff.1 hid
    obtain ⟨-, -, rfl⟩ := target?_compact_eq_some_iff.1 hj
    exact rank_lt_rank hlt hkeep

/-- A handle stands for the same text through all calls that it can be followed through. -/
theorem text?_of_follow {calls : List Call} (h : t.text? id = some text)
    (hfollow : t.follow calls id = some id') : (t.run calls).text? id' = some text := by
  induction calls generalizing t id with
  | nil =>
    obtain rfl : id = id' := Option.some.inj hfollow
    exact h
  | cons c calls ih =>
    obtain ⟨mid, hmove, hfollow⟩ := Option.bind_eq_some_iff.1 hfollow
    exact ih (c.text?_of_moved h hmove) hfollow

/-- Handles keep their order through all calls. -/
theorem follow_lt_follow {calls : List Call} {j j' : StringId} (hlt : id.index < j.index)
    (hid : t.follow calls id = some id') (hj : t.follow calls j = some j') :
    id'.index < j'.index := by
  induction calls generalizing t id j with
  | nil =>
    cases hid
    cases hj
    exact hlt
  | cons c calls ih =>
    obtain ⟨mid, hmove, hid⟩ := Option.bind_eq_some_iff.1 hid
    obtain ⟨mid', hmove', hj⟩ := Option.bind_eq_some_iff.1 hj
    exact ih (c.moved_lt_moved hlt hmove hmove') hid hj

/-- The handles in use are the numbers below the size, each for a text of its own; all lookups agree
on that, and interning only ever adds the next handle. -/
structure Dense (t : StringTable) : Prop where
  handles : t.entries.map Prod.fst = (List.range t.size).map StringId.mk
  contains_iff {id : StringId} : t.contains id = true ↔ id.index < t.size
  resolves_iff {id : StringId} : (∃ text, t.text? id = some text) ↔ id.index < t.size
  injective {id id' : StringId} {text : String} :
    t.text? id = some text → t.text? id' = some text → id = id'
  find?_iff {id : StringId} {text : String} :
    t.find? text = some id ↔ id.index < t.size ∧ t.text? id = some text
  intern_old {id : StringId} {text : String} : t.find? text = some id → t.intern text = (id, t)
  intern_new {text : String} : t.find? text = none →
    (t.intern text).1 = ⟨t.size⟩ ∧ (t.intern text).2.texts = t.texts ++ [text]
  intern_text? {id : StringId} {text : String} : t.text? id = some text →
    ∀ other, (t.intern other).2.text? id = some text

theorem dense (t : StringTable) : t.Dense where
  handles := by
    rw [size, List.range_eq_range', ← List.zipIdx_map_snd, entries, List.map_map, List.map_map]
    rfl
  contains_iff := decide_eq_true_iff
  resolves_iff := StringTable.contains_iff.symm.trans decide_eq_true_iff
  injective := eq_of_text?
  find?_iff {id text} := by
    rw [find?_eq_some_iff]
    exact ⟨fun h => ⟨(List.getElem?_eq_some_iff.1 h).1, h⟩, And.right⟩
  intern_old := intern_of_find?
  intern_new h := intern_of_notMem (find?_eq_none_iff.1 h)
  intern_text? h other := t.extends_intern other h

/-- `new` has the texts of the kept handles in their order, and `m` tells for each handle of `t`
whether it is kept and which handle stands for its text in `new`. -/
structure Compacts (t : StringTable) (keep : StringId → Bool) (new : StringTable)
    (m : Renumbering StringId) : Prop where
  texts : new.texts = (t.entries.filter fun e => keep e.1).map Prod.snd
  length : m.length = t.size
  kept_iff {id : StringId} : (∃ id', m.target? id.index = some id') ↔
    id.index < t.size ∧ keep id = true
  text? {id id' : StringId} : m.target? id.index = some id' →
    ∃ text, t.text? id = some text ∧ new.text? id' = some text
  increasing {id id' j j' : StringId} : id.index < j.index → m.target? id.index = some id' →
    m.target? j.index = some j' → id'.index < j'.index

theorem compacts (t : StringTable) (keep : StringId → Bool) :
    t.Compacts keep (t.compact keep).1 (t.compact keep).2 where
  texts := rfl
  length := length_compact t keep
  kept_iff {id} := by
    simp only [target?_compact_eq_some_iff, exists_and_left, exists_eq, and_true, contains,
      decide_eq_true_iff]
  text? {id id'} h := by
    obtain ⟨hid, hkeep, rfl⟩ := target?_compact_eq_some_iff.1 h
    obtain ⟨text, htext⟩ := contains_iff.1 hid
    exact ⟨text, htext, text?_compact_eq_some_iff.2 ⟨id, htext, hkeep, rfl⟩⟩
  increasing := Call.moved_lt_moved (c := .compact keep)

/-- In every table that calls make from the empty one, handles and texts correspond one to one.
Compacting it is interning the kept texts anew, and compacting the result is compacting it once.
Through any further calls the handles keep their texts and their order. -/
theorem handles_correspond (calls : List Call) :
    (empty.run calls).Dense ∧
    (∀ keep, (empty.run calls).reintern keep = (empty.run calls).compact keep ∧
      (empty.run calls).Compacts keep ((empty.run calls).compact keep).1
        ((empty.run calls).compact keep).2) ∧
    (∀ keep keep', (empty.run calls).compact ((empty.run calls).keepBoth keep keep') =
      ((((empty.run calls).compact keep).1.compact keep').1,
        compose ((empty.run calls).compact keep).2
          (((empty.run calls).compact keep).1.compact keep').2)) ∧
    ∀ more id id', (empty.run calls).follow more id = some id' →
      (∀ text, (empty.run calls).text? id = some text →
        (empty.run (calls ++ more)).text? id' = some text) ∧
      ∀ j j', id.index < j.index → (empty.run calls).follow more j = some j' →
        id'.index < j'.index := by
  refine ⟨dense _, fun keep => ⟨reintern_eq_compact _ keep, compacts _ keep⟩, compact_compact _,
    fun more id id' hid => ⟨fun text htext => ?_, fun j j' hlt => follow_lt_follow hlt hid⟩⟩
  rw [run_append]
  exact text?_of_follow htext hid

/-- A text is dropped and interned again, which puts it behind the one that came after it. -/
theorem handles_correspond_reinterned :
    (empty.run [.intern "a", .intern "b", .intern "c"]).follow
      [.compact (· ≠ ⟨1⟩), .intern "b"] ⟨2⟩ = some ⟨1⟩ ∧
    (empty.run [.intern "a", .intern "b", .intern "c", .compact (· ≠ ⟨1⟩), .intern "b"]).text? ⟨1⟩ =
      some "c" := by
  have hfollow : (empty.run [.intern "a", .intern "b", .intern "c"]).follow
      [.compact (· ≠ ⟨1⟩), .intern "b"] ⟨2⟩ = some ⟨1⟩ := by decide
  obtain ⟨-, -, -, hmore⟩ := handles_correspond [.intern "a", .intern "b", .intern "c"]
  exact ⟨hfollow, (hmore _ _ _ hfollow).1 "c" (by decide)⟩

end MappedNetlist.StringTable
