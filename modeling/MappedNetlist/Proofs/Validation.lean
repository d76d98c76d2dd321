import MappedNetlist.Library.Toml
import MappedNetlist.Netlist.Error
import Mathlib.Data.List.Induction
import Mathlib.Data.List.Nodup

/-!
# What validation accepts, and what it blames

A library is well formed if its models differ in their names, the ports of each model differ in
theirs, and every port has bits. `Library.FirstFault` says what is wrong with a library that is not,
by a split of the declarations: those before the fault make up a well-formed library, and the next
one does not fit. Validation succeeds exactly on the well-formed libraries and otherwise names the
first fault. So in a library that was read no declaration hides another: a lookup by the name of a
declaration, which takes the first of that name, finds the declaration itself.
-/

namespace MappedNetlist

/-- The ports of the model differ in their names, and each has bits. -/
structure Model.WellFormed (m : Model) : Prop where
  names : (m.ports.map (·.name)).Nodup
  widths : ∀ p ∈ m.ports, 1 ≤ p.width

namespace Library

/-- The models differ in their names, and each is well formed. -/
structure WellFormed (l : Library) : Prop where
  names : (l.models.map (·.name)).Nodup
  models : ∀ m ∈ l.models, m.WellFormed

/-- The first fault of a library. The models before it are well formed as a library, and so are, in
the model at fault, the ports before it. -/
inductive FirstFault (l : Library) : LibraryError → Prop
  | duplicateModel {before after : List Model} {m : Model} (hmodels : l.models = before ++ m :: after)
    (hbefore : WellFormed ⟨before⟩) (h : ∃ k ∈ before, k.name = m.name) :
    FirstFault l (.duplicateModel m.name)
  | duplicatePort {before after : List Model} {m : Model} {ports rest : List PortDecl} {p : PortDecl}
    (hmodels : l.models = before ++ m :: after) (hbefore : WellFormed ⟨before⟩)
    (hnew : ∀ k ∈ before, k.name ≠ m.name) (hports : m.ports = ports ++ p :: rest)
    (hwell : Model.WellFormed { m with ports }) (h : ∃ q ∈ ports, q.name = p.name) :
    FirstFault l (.duplicatePort m.name p.name)
  | zeroWidth {before after : List Model} {m : Model} {ports rest : List PortDecl} {p : PortDecl}
    (hmodels : l.models = before ++ m :: after) (hbefore : WellFormed ⟨before⟩)
    (hnew : ∀ k ∈ before, k.name ≠ m.name) (hports : m.ports = ports ++ p :: rest)
    (hwell : Model.WellFormed { m with ports }) (hfresh : ∀ q ∈ ports, q.name ≠ p.name)
    (h : p.width = 0) :
    FirstFault l (.zeroWidth m.name p.name)

/-- Every declaration is found under its name. -/
def Unshadowed (l : Library) : Prop :=
  ∀ m ∈ l.models, l.model? m.name = some m ∧ ∀ p ∈ m.ports, m.port? p.name = some p

end Library

/-! ## One pass over named entries -/

section Scan

variable {α ε : Type} (name : α → String) (repeated : α → ε) (check : α → Except ε Unit)

/-- The name of an entry must not be one of the earlier names, and then the entry must pass a check
of its own. -/
def examine (earlier : List String) (x : α) : Except ε Unit :=
  if name x ∈ earlier then .error (repeated x) else check x

/-- Goes through a list with the names of the entries before. -/
def scan : List String → List α → Except ε Unit
  | _, [] => .ok ()
  | earlier, x :: xs => do
    examine name repeated check earlier x
    scan (name x :: earlier) xs

variable {name repeated check}

theorem examine_eq_ok_iff {earlier : List String} {x : α} :
    examine name repeated check earlier x = .ok () ↔ name x ∉ earlier ∧ check x = .ok () := by
  by_cases h : name x ∈ earlier <;> simp [examine, h]

theorem examine_eq_error_iff {earlier : List String} {x : α} {err : ε} :
    examine name repeated check earlier x = .error err ↔
      name x ∈ earlier ∧ repeated x = err ∨ name x ∉ earlier ∧ check x = .error err := by
  by_cases h : name x ∈ earlier <;> simp [examine, h]

theorem scan_append (earlier : List String) (xs ys : List α) :
    scan name repeated check earlier (xs ++ ys) =
      scan name repeated check earlier xs >>= fun _ =>
        scan name repeated check ((xs.map name).reverse ++ earlier) ys := by
  induction xs generalizing earlier with
  | nil => rfl
  | cons x xs ih =>
    simp only [List.cons_append, scan, ih, bind_assoc, List.map_cons, List.reverse_cons,
      List.append_assoc, List.nil_append]

theorem scan_eq_ok_iff {earlier : List String} {xs : List α} :
    scan name repeated check earlier xs = .ok () ↔
      (∀ x ∈ xs, name x ∉ earlier) ∧ (xs.map name).Nodup ∧ ∀ x ∈ xs, check x = .ok () := by
  induction xs generalizing earlier with
  | nil => simp [scan]
  | cons x xs ih =>
    rw [scan, bind_eq_ok_iff, Unique.exists_iff, PUnit.default_eq_unit, examine_eq_ok_iff, ih]
    simp only [List.mem_cons, not_or, forall_eq_or_imp, List.map_cons, List.nodup_cons,
      List.mem_map, not_exists, not_and, forall_and]
    tauto

/-- A pass fails at the first entry that is not accepted after those before it. -/
theorem scan_eq_error_iff {xs : List α} {err : ε} :
    scan name repeated check [] xs = .error err ↔
      ∃ before x after, xs = before ++ x :: after ∧ scan name repeated check [] before = .ok () ∧
        examine name repeated check (before.map name).reverse x = .error err := by
  constructor
  · intro h
    induction xs using List.reverseRecOn with
    | nil => cases h
    | append_singleton xs x ih =>
      rw [scan_append, List.append_nil] at h
      cases hxs : scan name repeated check [] xs with
      | error e =>
        obtain ⟨before, y, after, rfl, hok, hy⟩ := ih (by rwa [hxs] at h ⊢)
        exact ⟨before, y, after ++ [x], by simp, hok, hy⟩
      | ok =>
        refine ⟨xs, x, [], rfl, hxs, ?_⟩
        rw [hxs, ok_bind, scan] at h
        cases hx : examine name repeated check (xs.map name).reverse x with
        | error e => rwa [hx] at h
        | ok => rw [hx] at h; cases h
  · rintro ⟨before, x, after, rfl, hok, hx⟩
    rw [scan_append, hok, ok_bind, List.append_nil, scan, hx, error_bind]

end Scan

/-! ## Ports of a model -/

/-- The check that a port must pass beside that of its name. -/
def checkWidth (model : String) (p : PortDecl) : Except LibraryError Unit :=
  if p.width = 0 then .error (.zeroWidth model p.name) else .ok ()

theorem checkWidth_eq_ok_iff {model : String} {p : PortDecl} :
    checkWidth model p = .ok () ↔ 1 ≤ p.width := by
  rw [UInt32.le_iff_toNat_le, UInt32.toNat_one, Nat.one_le_iff_ne_zero, ← UInt32.toNat_zero, ne_eq,
    UInt32.toNat_inj]
  by_cases hw : p.width = 0 <;> simp [checkWidth, hw]

theorem checkWidth_eq_error_iff {model : String} {p : PortDecl} {err : LibraryError} :
    checkWidth model p = .error err ↔ p.width = 0 ∧ .zeroWidth model p.name = err := by
  by_cases hw : p.width = 0 <;> simp [checkWidth, hw]

theorem validatePorts_eq_scan (model : String) (earlier : List String) (ports : List PortDecl) :
    validatePorts model earlier ports =
      scan (·.name) (fun p => .duplicatePort model p.name) (checkWidth model) earlier ports := by
  induction ports generalizing earlier with
  | nil => rfl
  | cons p ports ih =>
    by_cases hmem : p.name ∈ earlier
    · simp [validatePorts, scan, examine, hmem]
    · by_cases hw : p.width = 0 <;> simp [validatePorts, scan, examine, checkWidth, hmem, hw, ih]

theorem Model.validatePorts_eq_ok_iff {m : Model} :
    validatePorts m.name [] m.ports = .ok () ↔ m.WellFormed := by
  simp only [validatePorts_eq_scan, scan_eq_ok_iff, checkWidth_eq_ok_iff, List.not_mem_nil,
    not_false_eq_true, implies_true, true_and]
  exact ⟨fun ⟨hnames, hwidths⟩ => ⟨hnames, hwidths⟩, fun h => ⟨h.names, h.widths⟩⟩

theorem Model.validatePorts_eq_error_iff {m : Model} {err : LibraryError} :
    validatePorts m.name [] m.ports = .error err ↔
      ∃ ports p rest, m.ports = ports ++ p :: rest ∧ Model.WellFormed { m with ports } ∧
        ((∃ q ∈ ports, q.name = p.name) ∧ .duplicatePort m.name p.name = err ∨
          (∀ q ∈ ports, q.name ≠ p.name) ∧ p.width = 0 ∧ .zeroWidth m.name p.name = err) := by
  simp only [validatePorts_eq_scan, scan_eq_error_iff, examine_eq_error_iff,
    checkWidth_eq_error_iff, List.mem_reverse, List.mem_map, not_exists, not_and,
    ← validatePorts_eq_ok_iff]

/-! ## Models of a library -/

theorem validateModels_eq_scan (earlier : List String) (models : List Model) :
    validateModels earlier models =
      scan (·.name) (fun m => .duplicateModel m.name) (fun m => validatePorts m.name [] m.ports)
        earlier models := by
  induction models generalizing earlier with
  | nil => rfl
  | cons m models ih =>
    by_cases hmem : m.name ∈ earlier <;> simp [validateModels, scan, examine, hmem, ih]

namespace Library

variable {l : Library}

theorem validateModels_eq_ok_iff : validateModels [] l.models = .ok () ↔ l.WellFormed := by
  simp only [validateModels_eq_scan, scan_eq_ok_iff, Model.validatePorts_eq_ok_iff,
    List.not_mem_nil, not_false_eq_true, implies_true, true_and]
  exact ⟨fun ⟨hnames, hmodels⟩ => ⟨hnames, hmodels⟩, fun h => ⟨h.names, h.models⟩⟩

theorem validateModels_eq_error_iff {err : LibraryError} :
    validateModels [] l.models = .error err ↔ l.FirstFault err := by
  simp only [validateModels_eq_scan, scan_eq_error_iff, examine_eq_error_iff,
    Model.validatePorts_eq_error_iff, List.mem_reverse, List.mem_map, not_exists, not_and]
  simp only [← validateModels_eq_scan]
  constructor
  · rintro ⟨before, m, after, hmodels, hok, ⟨h, rfl⟩ | ⟨hnew, ports, p, rest, hports, hwell, hp⟩⟩
    · exact .duplicateModel hmodels (validateModels_eq_ok_iff.1 hok) h
    · obtain ⟨h, rfl⟩ | ⟨hfresh, h, rfl⟩ := hp
      · exact .duplicatePort hmodels (validateModels_eq_ok_iff.1 hok) hnew hports hwell h
      · exact .zeroWidth hmodels (validateModels_eq_ok_iff.1 hok) hnew hports hwell hfresh h
  · intro h
    cases h with
    | duplicateModel hmodels hbefore h =>
      exact ⟨_, _, _, hmodels, validateModels_eq_ok_iff.2 hbefore, .inl ⟨h, rfl⟩⟩
    | duplicatePort hmodels hbefore hnew hports hwell h =>
      exact ⟨_, _, _, hmodels, validateModels_eq_ok_iff.2 hbefore,
        .inr ⟨hnew, _, _, _, hports, hwell, .inl ⟨h, rfl⟩⟩⟩
    | zeroWidth hmodels hbefore hnew hports hwell hfresh h =>
      exact ⟨_, _, _, hmodels, validateModels_eq_ok_iff.2 hbefore,
        .inr ⟨hnew, _, _, _, hports, hwell, .inr ⟨hfresh, h, rfl⟩⟩⟩

theorem validate_eq_ok_iff {k : Library} : l.validate = .ok k ↔ k = l ∧ l.WellFormed := by
  rw [validate, bind_eq_ok_iff, Unique.exists_iff, PUnit.default_eq_unit, validateModels_eq_ok_iff,
    pure_eq_ok, Except.ok.injEq, eq_comm, and_comm]

theorem validate_eq_error_iff {err : LibraryError} :
    l.validate = .error err ↔ l.FirstFault err := by
  rw [← validateModels_eq_error_iff, validate]
  cases validateModels [] l.models <;> simp

/-! ## Lookups -/

theorem find?_name_of_nodup {α : Type} {name : α → String} {xs : List α} {x : α}
    (hnames : (xs.map name).Nodup) (hx : x ∈ xs) : xs.find? (name · = name x) = some x := by
  have hsome : (xs.find? (name · = name x)).isSome :=
    List.find?_isSome.2 ⟨x, hx, by simp⟩
  obtain ⟨y, hy⟩ := Option.isSome_iff_exists.1 hsome
  have hname : name y = name x := by simpa using List.find?_some hy
  rw [hy, List.inj_on_of_nodup_map hnames (List.mem_of_find?_eq_some hy) hx hname]

theorem WellFormed.unshadowed (h : l.WellFormed) : l.Unshadowed := fun m hm =>
  ⟨find?_name_of_nodup h.names hm, fun _ hp => find?_name_of_nodup (h.models m hm).names hp⟩

theorem wellFormed_of_readWith {read : String → Option Library} {text : String}
    (h : readWith read text = .ok l) : l.WellFormed := by
  rw [readWith] at h
  split at h
  · obtain ⟨rfl, hwell⟩ := validate_eq_ok_iff.1 h
    exact hwell
  · cases h

/-! ## Validation -/

/-- Validation of a library gives the library back if it is well formed and otherwise its first fault.
Whatever reads the texts, no library read from one has a declaration that hides another. -/
theorem validate_exact (l : Library) :
    (∀ k, l.validate = .ok k ↔ k = l ∧ l.WellFormed) ∧
    (∀ err, l.validate = .error err ↔ l.FirstFault err) ∧
    (∀ read text, readWith read text = .ok l → l.Unshadowed) ∧
    ∀ text, ofText text = .ok l → l.Unshadowed :=
  ⟨fun _ => validate_eq_ok_iff, fun _ => validate_eq_error_iff,
    fun _ _ h => (wellFormed_of_readWith h).unshadowed,
    fun _ h => (wellFormed_of_readWith h).unshadowed⟩

/-- A library with several faults: the second port repeats a name and has no bits, the third has no
bits either, and there is a second model of the name. -/
def severalFaults : Library :=
  ⟨[⟨"lut4", [.input "in" 4, .output "out" 1]⟩,
    ⟨"dff", [.input "D" 1, .output "D" 0, .output "Q" 0]⟩, ⟨"dff", []⟩]⟩

/-- The text of a library of two models. -/
def pads : String :=
  "[[model]]\nname=\".input\"\nports=[[\"inpad\",\"output\",1]]\n[[model]]\nname=\".output\""

/-- What `pads` says. -/
def padLibrary : Library := ⟨[⟨".input", [.output "inpad" 1]⟩, ⟨".output", []⟩]⟩

theorem validate_exact_severalFaults :
    severalFaults.validate = .error (.duplicatePort "dff" "D") ∧
    ofText pads = .ok padLibrary ∧ padLibrary.Unshadowed := by
  have hfault : severalFaults.FirstFault (.duplicatePort "dff" "D") :=
    @FirstFault.duplicatePort severalFaults [_] _ ⟨"dff", _⟩ [_] _ (.output "D" 0) rfl
      ⟨by decide, List.forall_mem_singleton.2 ⟨by decide, by decide⟩⟩ (by decide) rfl
      ⟨by decide, by decide⟩ ⟨_, List.mem_singleton_self _, rfl⟩
  have hpads : ofText pads = .ok padLibrary := toOption_eq_some_iff.1 (by decide +kernel)
  exact ⟨((validate_exact severalFaults).2.1 _).2 hfault, hpads,
    (validate_exact padLibrary).2.2.2 pads hpads⟩

end Library

end MappedNetlist
