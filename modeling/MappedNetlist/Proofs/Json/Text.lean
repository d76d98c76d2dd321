import Mathlib.Tactic.SplitIfs
import MappedNetlist.Json.Codec

/-!
# Reading back what was written

A text is read from the left, so what a reader makes of a written value depends on what follows it:
a number ends where the digits end. Inside an array or an object a comma or a closing bracket
follows, and after the whole value nothing (`Delimited`). Before such a rest every reader takes
exactly what the writer wrote, one lemma for each level of the grammar: characters, strings,
numbers, items between brackets, values. The values that are written and read back are the
`Value.Plain` ones, whose numbers are decimal numerals and whose strings are texts.
-/

namespace MappedNetlist

namespace Reader

variable {α β : Type} {p q : Reader α} {cs rest : List Char}

theorem orElse_of_eq_some {r : α × List Char} (h : p cs = some r) : (p <|> q) cs = some r := by
  rw [orElse_apply, h]
  rfl

theorem orElse_of_eq_none (h : p cs = none) : (p <|> q) cs = q cs := by
  rw [orElse_apply, h]
  rfl

theorem bind_of_eq_none (h : p cs = none) (f : α → Reader β) : (p >>= f) cs = none := by
  rw [bind_apply, h]
  rfl

theorem optional_of_eq_none (h : p cs = none) : optional p cs = some (none, cs) := by
  refine orElse_of_eq_none ?_
  change (p cs).bind _ = none
  rw [h]
  rfl

theorem satisfy_of_head {p : Char → Bool} (h : ∀ c ∈ cs.head?, p c = false) :
    satisfy p cs = none := by
  cases cs with
  | nil => rfl
  | cons c cs => simp [satisfy_cons, h c rfl]

theorem char_of_head {d : Char} (h : ∀ c ∈ cs.head?, c ≠ d) : char d cs = none := by
  cases cs with
  | nil => rfl
  | cons c cs => rw [char_cons, if_neg (h c rfl)]

theorem word_append (w rest : List Char) : word w (w ++ rest) = some ((), rest) := by
  induction w with
  | nil => rfl
  | cons c w ih =>
    rw [word, List.cons_append, bind_of_eq_some (char_cons_self c (w ++ rest))]
    exact ih

theorem word_cons_of_ne {c d : Char} (w cs : List Char) (h : d ≠ c) :
    word (c :: w) (d :: cs) = none := by
  rw [word]
  exact bind_of_eq_none (by rw [char_cons, if_neg h]) _

/-- A run takes the characters that satisfy the predicate if the rest does not go on with one. -/
theorem run_append {p : Char → Bool} {w : List Char} (hw : ∀ c ∈ w, p c = true)
    (hrest : ∀ c ∈ rest.head?, p c = false) : run p (w ++ rest) = some (w, rest) := by
  have hstop : rest.takeWhile p = [] ∧ rest.dropWhile p = rest := by
    cases rest with
    | nil => exact ⟨rfl, rfl⟩
    | cons c cs => simp [hrest c rfl]
  rw [run_apply, List.takeWhile_append_of_pos hw, List.dropWhile_append_of_pos hw, hstop.1, hstop.2,
    List.append_nil]

theorem exactly_append {p : Char → Bool} {w : List Char} (hw : ∀ c ∈ w, p c = true)
    (rest : List Char) : exactly p w.length (w ++ rest) = some (w, rest) := by
  induction w with
  | nil => rfl
  | cons c w ih =>
    obtain ⟨hc, hw⟩ := List.forall_mem_cons.1 hw
    have hfirst : satisfy p (c :: (w ++ rest)) = some (c, w ++ rest) := by
      rw [satisfy_cons, if_pos hc]
    rw [List.length_cons, exactly, List.cons_append, bind_of_eq_some hfirst,
      bind_of_eq_some (ih hw)]
    rfl

/-- Items written one after the other are read as long as there are any. -/
theorem upTo_flatMap {p : Reader β} {write : α → List Char} {value : α → β} {as : List α}
    {follows : List Char → Prop} (hfollow : ∀ a ∈ as, ∀ cs, follows (write a ++ cs))
    (hread : ∀ a ∈ as, ∀ cs, follows cs → p (write a ++ cs) = some (value a, cs))
    (hrest : follows rest) (hstop : p rest = none) {n : Nat} (hn : as.length ≤ n) :
    upTo p n (as.flatMap write ++ rest) = some (as.map value, rest) := by
  induction as generalizing n with
  | nil =>
    cases n with
    | zero => rfl
    | succ n => exact orElse_of_eq_none (bind_of_eq_none hstop _)
  | cons a as ih =>
    obtain ⟨n, rfl⟩ : ∃ m, n = m + 1 := Nat.exists_eq_succ_of_ne_zero (by
      rintro rfl
      simp at hn)
    obtain ⟨hfollow_a, hfollow⟩ := List.forall_mem_cons.1 hfollow
    obtain ⟨hread_a, hread⟩ := List.forall_mem_cons.1 hread
    have hlater := ih hfollow hread (n := n) (by simpa using hn)
    have hnext : follows (as.flatMap write ++ rest) := by
      cases as with
      | nil => exact hrest
      | cons b as =>
        rw [List.flatMap_cons, List.append_assoc]
        exact hfollow b List.mem_cons_self _
    rw [upTo, List.flatMap_cons, List.append_assoc]
    refine orElse_of_eq_some ?_
    rw [bind_of_eq_some (hread_a _ hnext), bind_of_eq_some hlater]
    rfl

theorem length_le_length_flatMap {write : α → List Char} {as : List α}
    (h : ∀ a ∈ as, write a ≠ []) : as.length ≤ (as.flatMap write).length := by
  induction as with
  | nil => exact Nat.zero_le _
  | cons a as ih =>
    obtain ⟨ha, has⟩ := List.forall_mem_cons.1 h
    have hpos := List.length_pos_iff.2 ha
    have hle := ih has
    rw [List.flatMap_cons, List.length_append, List.length_cons]
    omega

/-- The bound on the number of items is no bound if each of them takes a character. -/
theorem many_flatMap (p : Reader β) (write : α → List Char) (value : α → β) (as : List α)
    (follows : List Char → Prop) (hne : ∀ a ∈ as, write a ≠ [])
    (hfollow : ∀ a ∈ as, ∀ cs, follows (write a ++ cs))
    (hread : ∀ a ∈ as, ∀ cs, follows cs → p (write a ++ cs) = some (value a, cs))
    (hrest : follows rest) (hstop : p rest = none) :
    many p (as.flatMap write ++ rest) = some (as.map value, rest) := by
  refine upTo_flatMap hfollow hread hrest hstop ?_
  have hle := length_le_length_flatMap hne
  rw [List.length_append]
  omega

end Reader

namespace Json

open Reader

variable {rest : List Char}

/-- Nothing follows, or what ends an item of an array or of an object. -/
def Delimited (rest : List Char) : Prop := ∀ c ∈ rest.head?, c = ',' ∨ c = ']' ∨ c = '}'

/-- A written value starts with a character that neither separates nor closes. -/
def Opens (w : List Char) : Prop :=
  ∃ c cs, w = c :: cs ∧ isBlank c = false ∧ c ≠ ',' ∧ c ≠ ']' ∧ c ≠ '}'

theorem Delimited.nil : Delimited [] := nofun

theorem Delimited.cons {c : Char} (h : c = ',' ∨ c = ']' ∨ c = '}') (cs : List Char) :
    Delimited (c :: cs) := by
  rintro d ⟨⟩
  exact h

theorem Delimited.head_eq_false (h : Delimited rest) {p : Char → Bool} (hcomma : p ',' = false)
    (hbracket : p ']' = false) (hbrace : p '}' = false) : ∀ c ∈ rest.head?, p c = false := by
  intro c hc
  rcases h c hc with rfl | rfl | rfl <;> assumption

theorem blank_of_head {cs : List Char} (h : ∀ c ∈ cs.head?, isBlank c = false) :
    blank cs = some ((), cs) :=
  bind_of_eq_some (run_append (w := []) nofun h) _

theorem Delimited.blank (h : Delimited rest) : blank rest = some ((), rest) :=
  blank_of_head (h.head_eq_false (by decide) (by decide) (by decide))

theorem Opens.blank {w : List Char} (h : Opens w) (rest : List Char) :
    Json.blank (w ++ rest) = some ((), w ++ rest) := by
  obtain ⟨c, cs, rfl, hblank, -⟩ := h
  exact blank_of_head fun d hd => by cases hd; exact hblank

/-! ## Numbers -/

theorem exists_toDigits_eq_cons {n : Nat} (hn : n ≠ 0) :
    ∃ d ds, Nat.toDigits 10 n = d :: ds ∧ d ≠ '0' := by
  induction n using Nat.strongRecOn with
  | _ n ih =>
    by_cases hlt : n < 10
    · have hdigit : ∀ m < 10, m ≠ 0 → m.digitChar ≠ '0' := by decide
      exact ⟨n.digitChar, [], Nat.toDigits_of_lt_base hlt, hdigit n hlt hn⟩
    · obtain ⟨d, ds, hds, hd⟩ := ih (n / 10) (by omega) (by omega)
      exact ⟨d, ds ++ [(n % 10).digitChar], by
        rw [Nat.toDigits_of_base_le (by decide) (by omega), hds, List.cons_append], hd⟩

theorem wholePart_toDigits (n : Nat) (hrest : Delimited rest) :
    wholePart (Nat.toDigits 10 n ++ rest) = some (Nat.toDigits 10 n, rest) := by
  have hdigit : ∀ c ∈ Nat.toDigits 10 n, c.isDigit = true :=
    fun c hc => Nat.isDigit_of_mem_toDigits (by decide) (by decide) hc
  by_cases hn : n = 0
  · subst hn
    exact orElse_of_eq_some rfl
  · obtain ⟨d, ds, hds, hd⟩ := exists_toDigits_eq_cons hn
    rw [hds] at hdigit ⊢
    obtain ⟨hd', hds'⟩ := List.forall_mem_cons.1 hdigit
    have hfirst : satisfy (fun c => c.isDigit && c ≠ '0') (d :: (ds ++ rest)) =
        some (d, ds ++ rest) := by
      simp [satisfy_cons, hd', hd]
    have hlater : run Char.isDigit (ds ++ rest) = some (ds, rest) :=
      run_append hds' (hrest.head_eq_false (by decide) (by decide) (by decide))
    rw [wholePart, List.cons_append]
    refine (orElse_of_eq_none (bind_of_eq_none ?_ _)).trans ?_
    · rw [char_cons, if_neg hd]
    · rw [bind_of_eq_some hfirst, bind_of_eq_some hlater]
      rfl

theorem number_toDigits (n : Nat) (hrest : Delimited rest) :
    number (Nat.toDigits 10 n ++ rest) = some (Nat.toDigits 10 n, rest) := by
  have hminus : satisfy (· = '-') (Nat.toDigits 10 n ++ rest) = none := by
    obtain ⟨d, ds, hds⟩ := List.exists_cons_of_ne_nil (Nat.toDigits_ne_nil (n := n) (b := 10))
    have hd : d.isDigit = true :=
      Nat.isDigit_of_mem_toDigits (by decide) (by decide) (hds ▸ List.mem_cons_self)
    rw [hds, List.cons_append, satisfy_cons, if_neg]
    rintro h
    obtain rfl : d = '-' := by simpa using h
    exact absurd hd (by decide)
  have hfraction : fraction rest = none :=
    bind_of_eq_none (char_of_head fun c hc => by
      rcases hrest c hc with rfl | rfl | rfl <;> decide) _
  have hexponent : exponent rest = none :=
    bind_of_eq_none (satisfy_of_head
      (hrest.head_eq_false (by decide) (by decide) (by decide))) _
  rw [number, bind_of_eq_some (optional_of_eq_none hminus),
    bind_of_eq_some (wholePart_toDigits n hrest), bind_of_eq_some (optional_of_eq_none hfraction),
    bind_of_eq_some (optional_of_eq_none hexponent)]
  simp [pure_apply]

/-- A number starts with a digit or a minus sign. -/
theorem number_cons_of_not_isDigit {c : Char} (hc : c.isDigit = false) (hminus : c ≠ '-')
    (cs : List Char) : number (c :: cs) = none := by
  have hsign : satisfy (· = '-') (c :: cs) = none := by simp [satisfy_cons, hminus]
  have hzero : c ≠ '0' := by
    rintro rfl
    exact absurd hc (by decide)
  rw [number, bind_of_eq_some (optional_of_eq_none hsign)]
  refine bind_of_eq_none ?_ _
  rw [wholePart]
  refine (orElse_of_eq_none (bind_of_eq_none ?_ _)).trans (bind_of_eq_none ?_ _)
  · rw [char_cons, if_neg hzero]
  · simp [satisfy_cons, hc]

/-! ## Strings -/

/-- The escape of a control character spells its code. -/
theorem unicodeEscape_control {c : Char} (hc : c.toNat < 0x20) (cs : List Char) :
    unicodeEscape ('0' :: '0' :: (c.toNat / 16).digitChar :: (c.toNat % 16).digitChar :: cs) =
      some (some c, cs) := by
  have hhigh : c.toNat / 16 < 16 := by omega
  have hlow : c.toNat % 16 < 16 := Nat.mod_lt _ (by decide)
  have hdigits : ∀ d ∈ ['0', '0', (c.toNat / 16).digitChar, (c.toNat % 16).digitChar],
      isHexDigit d = true := by
    simp only [List.forall_mem_cons, isHexDigit_digitChar hhigh, isHexDigit_digitChar hlow]
    exact ⟨by decide, by decide, trivial, trivial, nofun⟩
  have hvalue : ofDigits 16 ['0', '0', (c.toNat / 16).digitChar, (c.toNat % 16).digitChar] =
      c.toNat := by
    simp only [ofDigits, List.foldl_cons, List.foldl_nil, digitValue_digitChar hhigh,
      digitValue_digitChar hlow]
    have hzero : digitValue '0' = 0 := by decide
    omega
  have hunit : unit16 (['0', '0', (c.toNat / 16).digitChar, (c.toNat % 16).digitChar] ++ cs) =
      some (c.toNat, cs) :=
    (bind_of_eq_some (exactly_append hdigits cs) _).trans (by rw [hvalue]; rfl)
  have hsurrogate : isHighSurrogate c.toNat = false ∧ isLowSurrogate c.toNat = false := by
    simp only [isHighSurrogate, isLowSurrogate, Bool.and_eq_false_iff, decide_eq_false_iff_not]
    omega
  refine (bind_of_eq_some hunit _).trans ?_
  rw [hsurrogate.1, hsurrogate.2, Char.ofNat_toNat]
  rfl

/-- A character is read from what it is written as. -/
theorem stringItem_escape (c : Char) (cs : List Char) :
    stringItem (escape c ++ cs) = some (some c, cs) := by
  unfold escape
  split_ifs with hquote hbackslash hb hf hn hr ht hcontrol
  · subst hquote; rfl
  · subst hbackslash; rfl
  · subst hb; rfl
  · subst hf; rfl
  · subst hn; rfl
  · subst hr; rfl
  · subst ht; rfl
  · exact unicodeEscape_control hcontrol cs
  · simp [stringItem, hquote, hbackslash, hcontrol]

theorem escape_ne_nil (c : Char) : escape c ≠ [] := by
  unfold escape
  split_ifs <;> exact List.cons_ne_nil _ _

theorem string_writeString (s : String) (rest : List Char) :
    string (writeString (some s) ++ rest) = some (some s, rest) := by
  have hitems : many stringItem (s.toList.flatMap escape ++ '"' :: rest) =
      some (s.toList.map some, '"' :: rest) :=
    many_flatMap stringItem escape some s.toList (fun _ => True) (fun c _ => escape_ne_nil c)
      (fun _ _ _ => trivial) (fun c _ cs _ => stringItem_escape c cs) trivial
      (by simp [stringItem])
  have hchars : (s.toList.map some).mapM id = some s.toList := by
    induction s.toList with
    | nil => rfl
    | cons c cs ih => simp [ih]
  rw [writeString, Option.getD_some, List.cons_append, List.cons_append, List.append_assoc,
    List.singleton_append, string, bind_of_eq_some (char_cons_self '"' _), bind_of_eq_some hitems,
    bind_of_eq_some (char_cons_self '"' rest), hchars, Option.map_some, String.ofList_toList]
  rfl

/-! ## Items between brackets -/

theorem commaSeparated_cons (a : List Char) (as : List (List Char)) :
    commaSeparated (a :: as) = a ++ as.flatMap (',' :: ·) := by
  induction as generalizing a with
  | nil => simp [commaSeparated]
  | cons b as ih => rw [commaSeparated, ih, List.flatMap_cons, List.cons_append]; simp

theorem bracketed_commaSeparated {α β : Type} (opening : Char) {closing : Char} (item : Reader β)
    {write : α → List Char} (value : α → β) {as : List α}
    (hclosing : closing = ']' ∨ closing = '}') (hopen : ∀ a ∈ as, Opens (write a))
    (hread : ∀ a ∈ as, ∀ cs, Delimited cs → item (write a ++ cs) = some (value a, cs))
    (rest : List Char) :
    bracketed opening item closing
      (opening :: (commaSeparated (as.map write) ++ closing :: rest)) =
        some (as.map value, rest) := by
  have hclose : Delimited (closing :: rest) := .cons (.inr hclosing) rest
  rw [bracketed, bind_of_eq_some (char_cons_self opening _)]
  cases as with
  | nil =>
    rw [List.map_nil, commaSeparated, List.nil_append, bind_of_eq_some hclose.blank]
    exact orElse_of_eq_some (bind_of_eq_some (char_cons_self closing rest) _)
  | cons a as =>
    obtain ⟨hopen_a, hopen⟩ := List.forall_mem_cons.1 hopen
    obtain ⟨hread_a, hread⟩ := List.forall_mem_cons.1 hread
    -- what is read for each item after the first: a comma, blanks, the item, blanks
    have hlater := many_flatMap (do char ','; blank; let a ← item; blank; return a)
      (fun a => ',' :: write a) value as Delimited (fun _ _ => List.cons_ne_nil _ _)
      (fun _ _ cs => .cons (.inl rfl) _)
      (fun b hb cs hcs => by
        rw [List.cons_append, bind_of_eq_some (char_cons_self ',' _),
          bind_of_eq_some ((hopen b hb).blank cs), bind_of_eq_some (hread b hb cs hcs),
          bind_of_eq_some hcs.blank]
        rfl)
      hclose
      (bind_of_eq_none (by
        rw [char_cons, if_neg]
        rcases hclosing with rfl | rfl <;> decide) _)
    have hnext : Delimited (as.flatMap (fun a => ',' :: write a) ++ closing :: rest) := by
      cases as with
      | nil => exact hclose
      | cons b as => exact .cons (.inl rfl) _
    have hstart : char closing (write a ++ (as.flatMap (fun a => ',' :: write a) ++
        closing :: rest)) = none := by
      obtain ⟨c, cs, hw, -, -, hbracket, hbrace⟩ := hopen_a
      rw [hw, List.cons_append, char_cons, if_neg]
      rcases hclosing with rfl | rfl <;> assumption
    rw [List.map_cons, commaSeparated_cons, List.flatMap_map, List.append_assoc,
      bind_of_eq_some (hopen_a.blank _)]
    refine (orElse_of_eq_none (bind_of_eq_none hstart _)).trans ?_
    rw [bind_of_eq_some (hread_a _ hnext), bind_of_eq_some hnext.blank, bind_of_eq_some hlater,
      bind_of_eq_some (char_cons_self closing rest)]
    rfl

/-! ## Values -/

/-- The values of which every number is a decimal numeral and every string a text. -/
inductive Value.Plain : Value → Prop
  | null : Plain .null
  | bool (b : Bool) : Plain (.bool b)
  | number (n : Nat) : Plain (.ofNat n)
  | string (s : String) : Plain (.string (some s))
  | array {items : List Value} (h : ∀ v ∈ items, v.Plain) : Plain (.array items)
  | object {fields : List (String × Value)} (h : ∀ f ∈ fields, f.2.Plain) : Plain (.ofFields fields)

theorem Opens.append {w : List Char} (h : Opens w) (rest : List Char) : Opens (w ++ rest) := by
  obtain ⟨c, cs, rfl, hc⟩ := h
  exact ⟨c, cs ++ rest, rfl, hc⟩

theorem opens_toDigits (n : Nat) : Opens (Nat.toDigits 10 n) := by
  obtain ⟨d, ds, hds⟩ := List.exists_cons_of_ne_nil (Nat.toDigits_ne_nil (n := n) (b := 10))
  have hd : d.isDigit = true :=
    Nat.isDigit_of_mem_toDigits (by decide) (by decide) (hds ▸ List.mem_cons_self)
  refine ⟨d, ds, hds, ?_, ?_, ?_, ?_⟩
  · rw [Bool.eq_false_iff]
    intro hblank
    have hd' : d = ' ' ∨ d = '\n' ∨ d = '\t' ∨ d = '\r' := by simpa [isBlank, or_assoc] using hblank
    rcases hd' with rfl | rfl | rfl | rfl <;> exact absurd hd (by decide)
  all_goals
    rintro rfl
    exact absurd hd (by decide)

theorem opens_writeString (s : Option String) : Opens (writeString s) :=
  ⟨'"', _, rfl, by decide, by decide, by decide, by decide⟩

theorem Value.Plain.opens {v : Value} (h : v.Plain) : Opens v.write := by
  cases h with
  | null => exact ⟨'n', _, rfl, by decide, by decide, by decide, by decide⟩
  | bool b =>
    cases b
    · exact ⟨'f', _, rfl, by decide, by decide, by decide, by decide⟩
    · exact ⟨'t', _, rfl, by decide, by decide, by decide, by decide⟩
  | number n => exact opens_toDigits n
  | string s => exact opens_writeString (some s)
  | array => exact ⟨'[', _, rfl, by decide, by decide, by decide, by decide⟩
  | object => exact ⟨'{', _, rfl, by decide, by decide, by decide, by decide⟩

theorem value_word {w : List Char} {v : Value} (depth : Nat) (rest : List Char)
    (h : (w, v) ∈ [(['n', 'u', 'l', 'l'], Value.null), (['t', 'r', 'u', 'e'], .bool true),
      (['f', 'a', 'l', 's', 'e'], .bool false)]) :
    value (depth + 1) (w ++ rest) = some (v, rest) := by
  simp only [List.mem_cons, Prod.mk.injEq, List.not_mem_nil, or_false] at h
  rw [value]
  rcases h with ⟨rfl, rfl⟩ | ⟨rfl, rfl⟩ | ⟨rfl, rfl⟩
  · exact orElse_of_eq_some (bind_of_eq_some (word_append _ rest) _)
  · refine (orElse_of_eq_none (bind_of_eq_none (word_cons_of_ne _ _ (by decide)) _)).trans ?_
    exact orElse_of_eq_some (bind_of_eq_some (word_append _ rest) _)
  · refine (orElse_of_eq_none (bind_of_eq_none (word_cons_of_ne _ _ (by decide)) _)).trans ?_
    refine (orElse_of_eq_none (bind_of_eq_none (word_cons_of_ne _ _ (by decide)) _)).trans ?_
    exact orElse_of_eq_some (bind_of_eq_some (word_append _ rest) _)

theorem value_toDigits (depth n : Nat) (hrest : Delimited rest) :
    value (depth + 1) (Nat.toDigits 10 n ++ rest) = some (.ofNat n, rest) := by
  have hword {c : Char} (w : List Char) (hc : c.isDigit = false) :
      word (c :: w) (Nat.toDigits 10 n ++ rest) = none := by
    obtain ⟨d, ds, hds⟩ := List.exists_cons_of_ne_nil (Nat.toDigits_ne_nil (n := n) (b := 10))
    have hd : d.isDigit = true :=
      Nat.isDigit_of_mem_toDigits (by decide) (by decide) (hds ▸ List.mem_cons_self)
    rw [hds, List.cons_append]
    refine word_cons_of_ne _ _ ?_
    rintro rfl
    rw [hd] at hc
    cases hc
  rw [value]
  refine (orElse_of_eq_none (bind_of_eq_none (hword _ (by decide)) _)).trans ?_
  refine (orElse_of_eq_none (bind_of_eq_none (hword _ (by decide)) _)).trans ?_
  refine (orElse_of_eq_none (bind_of_eq_none (hword _ (by decide)) _)).trans ?_
  exact orElse_of_eq_some (bind_of_eq_some (number_toDigits n hrest) _)

/-- What starts with a quote or an opening bracket is neither a word nor a number. -/
theorem value_cons_of_mark {c : Char} (hc : c = '"' ∨ c = '[' ∨ c = '{') (depth : Nat)
    (cs : List Char) :
    value (depth + 1) (c :: cs) =
      ((do return .string (← string)) <|>
        (do return .array (← bracketed '[' (value depth) ']')) <|>
        (do return .object (← bracketed '{' (field (value depth)) '}')) : Reader Value)
        (c :: cs) := by
  have hword {d : Char} (w : List Char) (hd : d ≠ '"' ∧ d ≠ '[' ∧ d ≠ '{') :
      word (d :: w) (c :: cs) = none :=
    word_cons_of_ne _ _ (by
      obtain ⟨hquote, hbracket, hbrace⟩ := hd
      rcases hc with rfl | rfl | rfl
      · exact hquote.symm
      · exact hbracket.symm
      · exact hbrace.symm)
  have hnumber : number (c :: cs) = none := by
    refine number_cons_of_not_isDigit ?_ ?_ cs <;> rcases hc with rfl | rfl | rfl <;> decide
  rw [value]
  refine (orElse_of_eq_none (bind_of_eq_none (hword _ (by decide)) _)).trans ?_
  refine (orElse_of_eq_none (bind_of_eq_none (hword _ (by decide)) _)).trans ?_
  refine (orElse_of_eq_none (bind_of_eq_none (hword _ (by decide)) _)).trans ?_
  exact orElse_of_eq_none (bind_of_eq_none hnumber _)

theorem string_cons_of_ne {c : Char} (hc : c ≠ '"') (cs : List Char) : string (c :: cs) = none :=
  bind_of_eq_none (by rw [char_cons, if_neg hc]) _

theorem value_writeString (depth : Nat) (s : String) (rest : List Char) :
    value (depth + 1) (writeString (some s) ++ rest) = some (.string (some s), rest) := by
  refine (value_cons_of_mark (.inl rfl) depth _).trans ?_
  exact orElse_of_eq_some (bind_of_eq_some (string_writeString s rest) _)

theorem value_array {depth : Nat} {items : List Value} (hopen : ∀ v ∈ items, Opens v.write)
    (hread : ∀ v ∈ items, ∀ cs, Delimited cs → value depth (v.write ++ cs) = some (v, cs))
    (rest : List Char) :
    value (depth + 1) ((Value.array items).write ++ rest) = some (.array items, rest) := by
  have hitems := bracketed_commaSeparated '[' (value depth) id (.inl rfl) hopen hread rest
  rw [List.map_id] at hitems
  rw [Value.write, writeItems_eq_map, List.cons_append, List.cons_append, List.append_assoc,
    List.singleton_append, value_cons_of_mark (.inr (.inl rfl))]
  refine (orElse_of_eq_none (bind_of_eq_none (string_cons_of_ne (by decide) _) _)).trans ?_
  exact orElse_of_eq_some (bind_of_eq_some hitems _)

theorem field_append {value : Reader Value} {name : String} {v : Value} (hopen : Opens v.write)
    (hread : value (v.write ++ rest) = some (v, rest)) :
    field value (writeString (some name) ++ ':' :: v.write ++ rest) =
      some ((some name, v), rest) := by
  have hcolon : blank (':' :: (v.write ++ rest)) = some ((), ':' :: (v.write ++ rest)) :=
    blank_of_head fun c hc => by
      cases hc
      decide
  rw [field, List.append_assoc, List.cons_append, bind_of_eq_some (string_writeString name _),
    bind_of_eq_some hcolon, bind_of_eq_some (char_cons_self ':' _),
    bind_of_eq_some (hopen.blank rest), bind_of_eq_some hread]
  rfl

theorem Value.write_ofFields (fields : List (String × Value)) :
    (Value.ofFields fields).write = '{' :: (commaSeparated
      (fields.map fun f => writeString (some f.1) ++ ':' :: f.2.write) ++ ['}']) := by
  rw [Value.ofFields, Value.write, writeFields_eq_map, List.map_map]
  rfl

theorem value_object {depth : Nat} {fields : List (String × Value)}
    (hopen : ∀ f ∈ fields, Opens f.2.write)
    (hread : ∀ f ∈ fields, ∀ cs, Delimited cs → value depth (f.2.write ++ cs) = some (f.2, cs))
    (rest : List Char) :
    value (depth + 1) ((Value.ofFields fields).write ++ rest) =
      some (.ofFields fields, rest) := by
  have hstart (f : String × Value) : Opens (writeString (some f.1) ++ ':' :: f.2.write) :=
    (opens_writeString (some f.1)).append _
  have hfields := bracketed_commaSeparated '{' (field (value depth))
    (fun f : String × Value => (some f.1, f.2)) (.inr rfl) (fun f _ => hstart f)
    (fun f hf cs hcs => field_append (hopen f hf) (hread f hf cs hcs)) rest
  rw [Value.write_ofFields, List.cons_append, List.append_assoc, List.singleton_append,
    value_cons_of_mark (.inr (.inr rfl))]
  refine (orElse_of_eq_none (bind_of_eq_none (string_cons_of_ne (by decide) _) _)).trans ?_
  refine (orElse_of_eq_none (bind_of_eq_none (bind_of_eq_none ?_ _) _)).trans ?_
  · rw [char_cons, if_neg (by decide)]
  · rw [bind_of_eq_some hfields]
    rfl

theorem length_le_length_commaSeparated {w : List Char} {ws : List (List Char)} (h : w ∈ ws) :
    w.length ≤ (commaSeparated ws).length := by
  cases ws with
  | nil => cases h
  | cons a as =>
    rw [commaSeparated_cons, List.length_append]
    rcases List.mem_cons.1 h with rfl | h
    · exact Nat.le_add_right _ _
    · obtain ⟨before, after, rfl⟩ := List.append_of_mem h
      simp only [List.flatMap_append, List.flatMap_cons, List.length_append, List.length_cons]
      omega

/-- An item is written inside of its array. -/
theorem length_write_lt_of_mem_items {v : Value} {items : List Value} (h : v ∈ items) :
    v.write.length < (Value.array items).write.length := by
  have hlength := length_le_length_commaSeparated (List.mem_map_of_mem (f := Value.write) h)
  rw [← writeItems_eq_map] at hlength
  simp only [Value.write, List.length_append, List.length_cons]
  omega

/-- A value is written inside of its object. -/
theorem length_write_lt_of_mem_fields {f : String × Value} {fields : List (String × Value)}
    (h : f ∈ fields) : f.2.write.length < (Value.ofFields fields).write.length := by
  have hlength := length_le_length_commaSeparated (List.mem_map_of_mem
    (f := fun f : String × Value => writeString (some f.1) ++ ':' :: f.2.write) h)
  rw [List.length_append, List.length_cons] at hlength
  rw [Value.write_ofFields, List.length_cons, List.length_append]
  omega

/-- A plain value is read from its text if the depth allows for the length of the text. -/
theorem Value.Plain.read {v : Value} (hv : v.Plain) {depth : Nat} {rest : List Char}
    (hdepth : v.write.length < depth) (hrest : Delimited rest) :
    value depth (v.write ++ rest) = some (v, rest) := by
  induction hv generalizing depth rest with
  | null =>
    obtain ⟨depth, rfl⟩ := Nat.exists_eq_succ_of_ne_zero (Nat.ne_zero_of_lt hdepth)
    rw [Value.write]
    exact value_word depth rest (by simp)
  | bool b =>
    obtain ⟨depth, rfl⟩ := Nat.exists_eq_succ_of_ne_zero (Nat.ne_zero_of_lt hdepth)
    cases b <;> rw [Value.write] <;> exact value_word depth rest (by simp)
  | number n =>
    obtain ⟨depth, rfl⟩ := Nat.exists_eq_succ_of_ne_zero (Nat.ne_zero_of_lt hdepth)
    exact value_toDigits depth n hrest
  | string s =>
    obtain ⟨depth, rfl⟩ := Nat.exists_eq_succ_of_ne_zero (Nat.ne_zero_of_lt hdepth)
    exact value_writeString depth s rest
  | array h ih =>
    obtain ⟨depth, rfl⟩ := Nat.exists_eq_succ_of_ne_zero (Nat.ne_zero_of_lt hdepth)
    refine value_array (fun v hv => (h v hv).opens) (fun v hv cs hcs => ih v hv ?_ hcs) rest
    exact Nat.lt_of_lt_of_le (length_write_lt_of_mem_items hv) (Nat.lt_succ_iff.1 hdepth)
  | object h ih =>
    obtain ⟨depth, rfl⟩ := Nat.exists_eq_succ_of_ne_zero (Nat.ne_zero_of_lt hdepth)
    refine value_object (fun f hf => (h f hf).opens) (fun f hf cs hcs => ih f hf ?_ hcs) rest
    exact Nat.lt_of_lt_of_le (length_write_lt_of_mem_fields hf) (Nat.lt_succ_iff.1 hdepth)

/-- A plain value is what its text says. -/
theorem Value.Plain.ofText?_write {v : Value} (hv : v.Plain) :
    Value.ofText? (String.ofList v.write) = some v := by
  have hread : value ((String.ofList v.write).length + 1) v.write = some (v, []) := by
    have hdepth : v.write.length < (String.ofList v.write).length + 1 := by
      rw [String.length_ofList]
      exact Nat.lt_succ_self _
    have h := hv.read hdepth .nil
    rwa [List.append_nil] at h
  have hstart : blank v.write = some ((), v.write) := by
    have h := hv.opens.blank []
    rwa [List.append_nil] at h
  rw [Value.ofText?, readAll?, String.toList_ofList]
  have htext : (do blank; let v ← value ((String.ofList v.write).length + 1); blank; return v :
      Reader Value) v.write = some (v, []) := by
    rw [bind_of_eq_some hstart, bind_of_eq_some hread, bind_of_eq_some Delimited.nil.blank]
    rfl
  rw [bind_of_eq_some htext]
  rfl

end Json

end MappedNetlist
