import Mathlib.Data.List.Forall2
import MappedNetlist.Library.Json
import MappedNetlist.Proofs.Json.Text

/-!
# Reading undoes writing

What is written for a handle, a symbol, a truth table, a model or a library says exactly that value,
so reading the text gives it back (`Codec.RoundTrips`). A text may spell a record in other ways,
with its fields in another order, among fields with other names, as an array or without the fields
that have a default (`Value.Spells`); then the text that is written back is another one, says the
same and is written back as it is.
-/

namespace MappedNetlist

namespace Json

/-! ## Values that come back -/

/-- The JSON form of a value is plain and decodes to the value. -/
structure Codec.Restores {α : Type} [Codec α] (a : α) : Prop where
  plain : (encode a).Plain
  decode_encode : decode (encode a) = some a

open Codec (Restores)

variable {α : Type} [Codec α] {a : α}

theorem Codec.Restores.read?_write (h : Restores a) : Codec.read? α (Codec.write a) = some a := by
  rw [read?, write, h.plain.ofText?_write]
  exact h.decode_encode

/-! ## Numbers, texts and lists -/

theorem of_guard_eq_some {p : Prop} [Decidable p] (h : (guard p : Option Unit) = some ()) : p := by
  by_contra hp
  simp [guard, hp] at h

theorem Value.word?_eq_some_iff {v : Value} {n : Nat} :
    v.word? = some n ↔ v.nat? = some n ∧ n < UInt32.size := by
  rw [word?, Option.bind_eq_bind, Option.bind_eq_some_iff]
  constructor
  · rintro ⟨m, hm, h⟩
    obtain ⟨⟨⟩, hguard, h⟩ := Option.bind_eq_some_iff.1 h
    cases h
    exact ⟨hm, of_guard_eq_some hguard⟩
  · rintro ⟨hn, hlt⟩
    exact ⟨n, hn, by simp only [guard, if_pos hlt]; rfl⟩

theorem Value.word?_ofNat {n : Nat} (h : n < UInt32.size) : (Value.ofNat n).word? = some n :=
  word?_eq_some_iff.2 ⟨nat?_ofNat n, h⟩

theorem restores_string (s : String) : Restores s := ⟨.string s, rfl⟩

theorem restores_bool (b : Bool) : Restores b := ⟨.bool b, rfl⟩

theorem restores_word (n : UInt32) : Restores n := by
  refine ⟨.number n.toNat, ?_⟩
  change (Value.ofNat n.toNat).word?.map UInt32.ofNat = some n
  rw [Value.word?_ofNat n.toNat_lt_size, Option.map_some, UInt32.ofNat_toNat]

theorem restores_handle {k : Kind} {h : Handle k} (hlt : h.index < UInt32.size) : Restores h := by
  refine ⟨.number h.index, ?_⟩
  change (Value.ofNat h.index).word?.map Handle.mk = some h
  rw [Value.word?_ofNat hlt]
  rfl

theorem restores_stringId {s : StringId} (hlt : s.index < UInt32.size) : Restores s := by
  refine ⟨.number s.index, ?_⟩
  change (Value.ofNat s.index).word?.map StringId.mk = some s
  rw [Value.word?_ofNat hlt]
  rfl

theorem restores_list {as : List α} (h : ∀ a ∈ as, Restores a) : Restores as := by
  refine ⟨.array fun v hv => ?_, ?_⟩
  · obtain ⟨a, ha, rfl⟩ := List.mem_map.1 hv
    exact (h a ha).plain
  · change (as.map encode).mapM decode = some as
    induction as with
    | nil => rfl
    | cons a as ih =>
      obtain ⟨ha, has⟩ := List.forall_mem_cons.1 h
      simp [ha.decode_encode, ih has]

/-! ## Constants -/

theorem restores_symbol (s : Symbol) : Restores s := ⟨.string s.name, Symbol.ofName?_name s⟩

theorem restores_direction (d : Direction) : Restores d :=
  ⟨.string d.name, Direction.ofName?_name d⟩

theorem restores_portClass (c : PortClass) : Restores c :=
  ⟨.string c.name, PortClass.ofName?_name c⟩

/-! ## Records -/

/-- The value spells a record that has these values in the places of its fields: an object with the
fields in any order among others with other names, or an array of the values that ends early if the
last places are empty. -/
inductive Value.Spells (names : List String) : List (Option Value) → Value → Prop
  | object {fields : List (String × Value)} {places : List (Option Value)}
      (h : List.Forall₂ (fun name place =>
        (fields.filter (·.1 = name)).map Prod.snd = place.toList) names places) :
      Spells names places (.ofFields fields)
  | array {items : List Value} {missing : Nat} (h : items.length + missing = names.length) :
      Spells names (items.map some ++ List.replicate missing none) (.array items)

theorem Value.record?_ofFields {names : List String} {fields : List (String × Value)}
    (h : ∀ name ∈ names, (fields.filter (·.1 = name)).length ≤ 1) :
    (Value.ofFields fields).record? names =
      some (names.map fun name => (fields.find? (·.1 = name)).map Prod.snd) := by
  have hnamed : (fields.map fun f => (some f.1, f.2)).mapM
      (fun f => f.1.map fun name => (name, f.2)) = some fields := by
    clear h
    induction fields with
    | nil => rfl
    | cons f fields ih => simp [ih]
  have honce : (guard (names.all fun name => (fields.filter (·.1 = name)).length ≤ 1) :
      Option Unit) = some () :=
    if_pos (List.all_eq_true.2 fun name hname => decide_eq_true (h name hname))
  refine (congrArg (· >>= _) hnamed).trans ?_
  exact congrArg (· >>= _) honce

theorem find?_of_map_filter {fields : List (String × Value)} {name : String} {place : Option Value}
    (h : (fields.filter (·.1 = name)).map Prod.snd = place.toList) :
    (fields.find? (·.1 = name)).map Prod.snd = place := by
  rw [← List.head?_filter, ← List.head?_map, h]
  cases place <;> rfl

theorem length_filter_le_one {fields : List (String × Value)} {name : String} {place : Option Value}
    (h : (fields.filter (·.1 = name)).map Prod.snd = place.toList) :
    (fields.filter (·.1 = name)).length ≤ 1 := by
  rw [← List.length_map (f := Prod.snd), h]
  cases place with
  | none => exact Nat.zero_le _
  | some v => exact Nat.le_refl _

theorem Value.Spells.record?_eq {names : List String} {places : List (Option Value)} {v : Value}
    (h : v.Spells names places) : v.record? names = some places := by
  cases h with
  | @object fields places h =>
    have honce : ∀ name ∈ names, (fields.filter (·.1 = name)).length ≤ 1 := by
      induction h with
      | nil => nofun
      | cons hplace _ ih => exact List.forall_mem_cons.2 ⟨length_filter_le_one hplace, ih⟩
    have hplaces : names.map (fun name => (fields.find? (·.1 = name)).map Prod.snd) = places := by
      induction h with
      | nil => rfl
      | cons hplace _ ih =>
        rw [List.map_cons, find?_of_map_filter hplace, ih fun _ h => honce _ (.tail _ h)]
    rw [record?_ofFields honce, hplaces]
  | @array items missing h =>
    have hlength : items.length ≤ names.length := by omega
    have hmissing : names.length - items.length = missing := by omega
    simp only [record?, guard, if_pos hlength, hmissing]
    rfl

theorem filter_name_eq_singleton {fields : List (String × Value)} {f : String × Value}
    (h : (fields.map Prod.fst).Nodup) (hf : f ∈ fields) :
    fields.filter (·.1 = f.1) = [f] := by
  induction fields with
  | nil => cases hf
  | cons g fields ih =>
    rw [List.map_cons, List.nodup_cons] at h
    rcases List.mem_cons.1 hf with rfl | hf
    · have hothers : fields.filter (·.1 = f.1) = [] :=
        List.filter_eq_nil_iff.2 fun e he heq =>
          h.1 (of_decide_eq_true heq ▸ List.mem_map_of_mem he)
      rw [List.filter_cons_of_pos (by simp), hothers]
    · have hne : g.1 ≠ f.1 := fun heq => h.1 (heq ▸ List.mem_map_of_mem hf)
      rw [List.filter_cons_of_neg (by simpa using hne), ih h.2 hf]

/-- The fields of a record in their order spell it. -/
theorem Value.spells_ofFields (fields : List (String × Value))
    (h : (fields.map Prod.fst).Nodup) :
    (Value.ofFields fields).Spells (fields.map Prod.fst) (fields.map fun f => some f.2) := by
  refine .object ?_
  rw [List.forall₂_map_left_iff, List.forall₂_map_right_iff, List.forall₂_same]
  intro f hf
  rw [filter_name_eq_singleton h hf]
  rfl

theorem eq_map_of_mapM_name {fields : List (Option String × Value)} {named : List (String × Value)}
    (h : fields.mapM (fun f => f.1.map fun name => (name, f.2)) = some named) :
    fields = named.map fun f => (some f.1, f.2) := by
  induction fields generalizing named with
  | nil =>
    cases h
    rfl
  | cons f fields ih =>
    rw [List.mapM_cons] at h
    obtain ⟨g, hg, h⟩ := Option.bind_eq_some_iff.1 h
    obtain ⟨rest, hrest, h⟩ := Option.bind_eq_some_iff.1 h
    obtain ⟨name, hname, rfl⟩ := Option.map_eq_some_iff.1 hg
    cases h
    rw [ih hrest, List.map_cons, ← hname]

theorem map_snd_of_length_le_one {fields : List (String × Value)} (h : fields.length ≤ 1) :
    fields.map Prod.snd = (fields.head?.map Prod.snd).toList := by
  cases fields with
  | nil => rfl
  | cons f fields =>
    obtain rfl := List.eq_nil_of_length_eq_zero (Nat.le_zero.1 (Nat.le_of_succ_le_succ h))
    rfl

/-- A value can be a record in the ways in which it can be spelled, and in no other. -/
theorem Value.record?_eq_some_iff {names : List String} {places : List (Option Value)} {v : Value} :
    v.record? names = some places ↔ v.Spells names places := by
  refine ⟨fun h => ?_, Value.Spells.record?_eq⟩
  cases v with
  | object fields =>
    obtain ⟨named, hnamed, h⟩ := Option.bind_eq_some_iff.1 h
    obtain ⟨⟨⟩, hguard, h⟩ := Option.bind_eq_some_iff.1 h
    cases h
    have honce := List.all_eq_true.1 (of_guard_eq_some hguard)
    rw [eq_map_of_mapM_name hnamed]
    refine .object ?_
    rw [List.forall₂_map_right_iff, List.forall₂_same]
    intro name hname
    rw [← List.head?_filter]
    exact map_snd_of_length_le_one (of_decide_eq_true (honce name hname))
  | array items =>
    obtain ⟨⟨⟩, hguard, h⟩ := Option.bind_eq_some_iff.1 h
    cases h
    exact .array (Nat.add_sub_cancel' (of_guard_eq_some hguard))
  | _ => cases h

/-- The value spells a port: it spells a record of a name, a direction, a width and perhaps a clock
mark that are those of the port. -/
def Value.SpellsPortDecl (v : Value) (p : PortDecl) : Prop :=
  ∃ name direction width clock,
    v.Spells ["name", "direction", "width", "clock"]
      [some name, some direction, some width, clock] ∧
    decode name = some p.name ∧ decode direction = some p.direction ∧
    decode width = some p.width ∧ defaulted false clock = some p.clock

def Value.SpellsModel (v : Value) (m : Model) : Prop :=
  ∃ name ports, v.Spells ["name", "ports"] [some name, ports] ∧ decode name = some m.name ∧
    defaulted [] ports = some m.ports

def Value.SpellsLibrary (v : Value) (l : Library) : Prop :=
  ∃ models, v.Spells ["model"] [models] ∧ defaulted [] models = some l.models

theorem required_eq_some_iff {place : Option Value} :
    required place = some a ↔ ∃ v, place = some v ∧ decode v = some a :=
  Option.bind_eq_some_iff

/-- A port is decoded from its spellings, and from nothing else. -/
theorem decode_portDecl {p : PortDecl} {v : Value} : decode v = some p ↔ v.SpellsPortDecl p := by
  constructor
  · intro h
    obtain ⟨places, hplaces, h⟩ := Option.bind_eq_some_iff.1 h
    split at h
    · obtain ⟨name, hname, h⟩ := Option.bind_eq_some_iff.1 h
      obtain ⟨direction, hdirection, h⟩ := Option.bind_eq_some_iff.1 h
      obtain ⟨width, hwidth, h⟩ := Option.bind_eq_some_iff.1 h
      obtain ⟨clock, hclock, h⟩ := Option.bind_eq_some_iff.1 h
      cases h
      obtain ⟨v₁, rfl, hname⟩ := required_eq_some_iff.1 hname
      obtain ⟨v₂, rfl, hdirection⟩ := required_eq_some_iff.1 hdirection
      obtain ⟨v₃, rfl, hwidth⟩ := required_eq_some_iff.1 hwidth
      exact ⟨v₁, v₂, v₃, _, Value.record?_eq_some_iff.1 hplaces, hname, hdirection, hwidth, hclock⟩
    · cases h
  · rintro ⟨name, direction, width, clock, h, hname, hdirection, hwidth, hclock⟩
    refine (congrArg (· >>= _) h.record?_eq).trans ?_
    change (do return ⟨← decode name, ← decode direction, ← decode width, ← defaulted false clock⟩ :
      Option PortDecl) = some p
    rw [hname, hdirection, hwidth, hclock]
    rfl

theorem decode_model {m : Model} {v : Value} : decode v = some m ↔ v.SpellsModel m := by
  constructor
  · intro h
    obtain ⟨places, hplaces, h⟩ := Option.bind_eq_some_iff.1 h
    split at h
    · obtain ⟨name, hname, h⟩ := Option.bind_eq_some_iff.1 h
      obtain ⟨ports, hports, h⟩ := Option.bind_eq_some_iff.1 h
      cases h
      obtain ⟨v₁, rfl, hname⟩ := required_eq_some_iff.1 hname
      exact ⟨v₁, _, Value.record?_eq_some_iff.1 hplaces, hname, hports⟩
    · cases h
  · rintro ⟨name, ports, h, hname, hports⟩
    refine (congrArg (· >>= _) h.record?_eq).trans ?_
    change (do return ⟨← decode name, ← defaulted [] ports⟩ : Option Model) = some m
    rw [hname, hports]
    rfl

theorem decode_library {l : Library} {v : Value} : decode v = some l ↔ v.SpellsLibrary l := by
  constructor
  · intro h
    obtain ⟨places, hplaces, h⟩ := Option.bind_eq_some_iff.1 h
    split at h
    · obtain ⟨models, hmodels, h⟩ := Option.bind_eq_some_iff.1 h
      cases h
      exact ⟨_, Value.record?_eq_some_iff.1 hplaces, hmodels⟩
    · cases h
  · rintro ⟨models, h, hmodels⟩
    refine (congrArg (· >>= _) h.record?_eq).trans ?_
    change (do return ⟨← defaulted [] models⟩ : Option Library) = some l
    rw [hmodels]
    rfl

theorem restores_portDecl (p : PortDecl) : Restores p := by
  have hname := restores_string p.name
  have hdirection := restores_direction p.direction
  have hwidth := restores_word p.width
  have hclock := restores_bool p.clock
  have hnames : ["name", "direction", "width", "clock"].Nodup := by decide
  have hspells := Value.spells_ofFields [("name", encode p.name),
    ("direction", encode p.direction), ("width", encode p.width), ("clock", encode p.clock)] hnames
  refine ⟨.object ?_, decode_portDecl.2 ⟨_, _, _, _, hspells, hname.2, hdirection.2, hwidth.2, hclock.2⟩⟩
  simpa using ⟨hname.1, hdirection.1, hwidth.1, hclock.1⟩

theorem restores_model (m : Model) : Restores m := by
  have hname := restores_string m.name
  have hports := restores_list fun p (_ : p ∈ m.ports) => restores_portDecl p
  have hnames : ["name", "ports"].Nodup := by decide
  have hspells :=
    Value.spells_ofFields [("name", encode m.name), ("ports", encode m.ports)] hnames
  refine ⟨.object ?_, decode_model.2 ⟨_, _, hspells, hname.2, hports.2⟩⟩
  simpa using ⟨hname.1, hports.1⟩

theorem restores_library (l : Library) : Restores l := by
  have hmodels := restores_list fun m (_ : m ∈ l.models) => restores_model m
  have hspells := Value.spells_ofFields [("model", encode l.models)] (List.pairwise_singleton _ _)
  refine ⟨.object ?_, decode_library.2 ⟨_, hspells, hmodels.2⟩⟩
  simpa using hmodels.1

/-! ## Round trips -/

/-- The text that is written back for what a text says. -/
def Codec.respell? (α : Type) [Codec α] (text : String) : Option String :=
  (Codec.read? α text).map Codec.write

/-- Reading undoes writing, for the values that fit into the numbers of a text. What is written back
for any text that is accepted is accepted again, says the same and is written back unchanged. -/
structure Codec.RoundTrips (α : Type) [Codec α] (Fits : α → Prop := fun _ => True) : Prop where
  read?_write (a : α) (h : Fits a) : Codec.read? α (Codec.write a) = some a
  respell {text back : String} (h : Codec.respell? α text = some back) :
    Codec.read? α back = Codec.read? α text ∧ Codec.respell? α back = some back

/-- It is enough that the values that fit are restored, and that only such values are decoded. -/
theorem Codec.RoundTrips.of_restores {Fits : α → Prop} (hfits : ∀ a, Fits a → Restores a)
    (hdecode : ∀ v a, decode v = some a → Fits a) : RoundTrips α Fits where
  read?_write a h := (hfits a h).read?_write
  respell {text back} h := by
    obtain ⟨a, ha, rfl⟩ := Option.map_eq_some_iff.1 h
    obtain ⟨v, -, hv⟩ := Option.bind_eq_some_iff.1 ha
    have hback := (hfits a (hdecode v a hv)).read?_write
    exact ⟨hback.trans ha.symm, by rw [respell?, hback, Option.map_some]⟩

theorem roundTrips_handle (k : Kind) :
    Codec.RoundTrips (Handle k) (·.index < UInt32.size) := by
  refine .of_restores (fun _ => restores_handle) fun v h hv => ?_
  obtain ⟨n, hn, rfl⟩ := Option.map_eq_some_iff.1 hv
  exact (Value.word?_eq_some_iff.1 hn).2

theorem roundTrips_stringId : Codec.RoundTrips StringId (·.index < UInt32.size) := by
  refine .of_restores (fun _ => restores_stringId) fun v s hv => ?_
  obtain ⟨n, hn, rfl⟩ := Option.map_eq_some_iff.1 hv
  exact (Value.word?_eq_some_iff.1 hn).2

/-- What is read from a text is what its value decodes to. -/
theorem read?_eq_some_iff {text : String} :
    Codec.read? α text = some a ↔ ∃ v, Value.ofText? text = some v ∧ decode v = some a :=
  Option.bind_eq_some_iff

theorem roundTrips_of_all (h : ∀ a : α, Restores a) : Codec.RoundTrips α :=
  .of_restores (fun a _ => h a) fun _ _ _ => trivial

/-- Every type with a JSON form makes the round trip, handles as far as their numbers have 32 bits
and all others without condition. The texts from which records are read are those that say one of their
spellings. -/
theorem json_roundTrips :
    ((∀ k : Kind, Codec.RoundTrips (Handle k) (·.index < UInt32.size)) ∧
      Codec.RoundTrips StringId (·.index < UInt32.size) ∧
      Codec.RoundTrips Symbol ∧ Codec.RoundTrips TruthTable ∧
      Codec.RoundTrips Direction ∧ Codec.RoundTrips PortClass ∧
      Codec.RoundTrips PortDecl ∧ Codec.RoundTrips Model ∧ Codec.RoundTrips Library) ∧
    ∀ text : String,
      (∀ p : PortDecl, Codec.read? PortDecl text = some p ↔
        ∃ v, Value.ofText? text = some v ∧ v.SpellsPortDecl p) ∧
      (∀ m : Model, Codec.read? Model text = some m ↔
        ∃ v, Value.ofText? text = some v ∧ v.SpellsModel m) ∧
      ∀ l : Library, Codec.read? Library text = some l ↔
        ∃ v, Value.ofText? text = some v ∧ v.SpellsLibrary l := by
  have htable (t : TruthTable) : Restores t :=
    restores_list fun row _ => restores_list fun s _ => restores_symbol s
  refine ⟨⟨roundTrips_handle, roundTrips_stringId, roundTrips_of_all restores_symbol,
    roundTrips_of_all htable, roundTrips_of_all restores_direction,
    roundTrips_of_all restores_portClass, roundTrips_of_all restores_portDecl,
    roundTrips_of_all restores_model, roundTrips_of_all restores_library⟩, fun text => ?_⟩
  simp only [read?_eq_some_iff, decode_portDecl, decode_model, decode_library, implies_true, and_self]

/-- The last handle of 32 bits, and a library in which names hold a quote, a backslash, the null
character and a character that is no letter of any alphabet, or nothing at all. -/
theorem json_roundTrips_limits :
    (⟨4294967295⟩ : PinId).index < UInt32.size ∧
    Codec.read? PinId (Codec.write (⟨4294967295⟩ : PinId)) = some ⟨4294967295⟩ ∧
    Codec.read? Library (Codec.write
      (⟨[⟨"\"\\\x00\n😀", [⟨"", .output, 4294967295, true⟩]⟩, ⟨"", []⟩]⟩ : Library)) =
        some ⟨[⟨"\"\\\x00\n😀", [⟨"", .output, 4294967295, true⟩]⟩, ⟨"", []⟩]⟩ := by
  have hlast : (⟨4294967295⟩ : PinId).index < UInt32.size := by decide
  obtain ⟨⟨hhandle, -, -, -, -, -, -, -, hlibrary⟩, -⟩ := json_roundTrips
  exact ⟨hlast, (hhandle .pin).read?_write ⟨4294967295⟩ hlast, hlibrary.read?_write _ trivial⟩

-- The fields come in another order, one of them is unknown, and the clock mark is left out.
example : Codec.respell? PortDecl
    "\x7b\"width\": 4, \"bits\": [1e3], \"direction\": \x7b\"input\":null\x7d, \"name\":\"a\"\x7d" =
      some "\x7b\"name\":\"a\",\"direction\":\"input\",\"width\":4,\"clock\":false\x7d" := by
  cbv

end Json

end MappedNetlist
