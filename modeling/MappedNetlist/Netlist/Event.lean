import MappedNetlist.Handle

/-!
# Events

Operations that remove, compact or verify report what they did as a list of events, in the order
in which it happened. An event has a level, a message and named fields.
-/

namespace MappedNetlist

/-- One number for each kind of entity. -/
structure Tally where
  blocks : Nat := 0
  ports : Nat := 0
  pins : Nat := 0
  nets : Nat := 0
  deriving DecidableEq, Repr

namespace Tally

/-- The number for a kind. -/
def get (t : Tally) : Kind → Nat
  | .block => t.blocks
  | .port => t.ports
  | .pin => t.pins
  | .net => t.nets

/-- The tally whose number for a kind is given by a function. -/
def of (f : Kind → Nat) : Tally :=
  { blocks := f .block, ports := f .port, pins := f .pin, nets := f .net }

@[simp] theorem get_of (f : Kind → Nat) (k : Kind) : (of f).get k = f k := by
  cases k <;> rfl

theorem ext_get {s t : Tally} (h : ∀ k, s.get k = t.get k) : s = t := by
  cases s
  cases t
  rw [mk.injEq]
  exact ⟨h .block, h .port, h .pin, h .net⟩

end Tally

/-- Something that an operation did or found. -/
inductive Event
  | removed (k : Kind) (id : Handle k)
  | swept (ports blocks : Int32)
  | compacted (netlist : String) (kept reclaimed : Tally) (strings : Nat)
  | inconsistent (netlist : String) (violations : Nat)
  deriving DecidableEq, Repr

/-- How much attention an event asks for. -/
inductive Level
  | trace
  | debug
  | warn
  deriving DecidableEq, Repr

/-- What a field of an event holds. -/
inductive FieldValue
  | number (n : Nat)
  | text (s : String)
  deriving DecidableEq, Repr

/-- Counters have 32 bits and a sign: they hold the numbers below `2 ^ 31`. -/
def counterLimit : Nat := 2147483648

/-- The value of a counter. Only one that has wrapped is below zero, and is written out. -/
def FieldValue.ofCounter (i : Int32) : FieldValue :=
  if i < 0 then .text (toString i.toInt) else .number i.toNatClampNeg

theorem FieldValue.ofCounter_ofNat {n : Nat} (h : n < counterLimit) :
    ofCounter (Int32.ofNat n) = .number n := by
  have hnonneg : ¬Int32.ofNat n < 0 := by
    rw [Int32.lt_iff_toInt_lt, Int32.toInt_ofNat_of_lt h, Int32.toInt_zero]
    omega
  rw [ofCounter, if_neg hnonneg, Int32.toNatClampNeg_ofNat_of_lt h]

/-- An event as it stands in a log. -/
structure Report where
  level : Level
  message : String
  fields : List (String × FieldValue)
  deriving DecidableEq, Repr

namespace Event

def level : Event → Level
  | removed _ _ => .trace
  | swept _ _ => .debug
  | compacted _ _ _ _ => .debug
  | inconsistent _ _ => .warn

def message : Event → String
  | removed k _ => "removed " ++ k.word
  | swept _ _ => "swept unused entities"
  | compacted netlist _ _ _ => "compressed netlist '" ++ netlist ++ "'"
  | inconsistent netlist _ => "netlist '" ++ netlist ++ "' failed verification"

def fields : Event → List (String × FieldValue)
  | removed k id => [(k.word, .text id.text)]
  | swept ports blocks => [("swept_ports", .ofCounter ports), ("swept_blocks", .ofCounter blocks)]
  | compacted _ kept reclaimed strings =>
    [("blocks", .number kept.blocks), ("ports", .number kept.ports), ("pins", .number kept.pins),
      ("nets", .number kept.nets), ("strings", .number strings),
      ("reclaimed_blocks", .number reclaimed.blocks), ("reclaimed_ports", .number reclaimed.ports),
      ("reclaimed_pins", .number reclaimed.pins), ("reclaimed_nets", .number reclaimed.nets)]
  | inconsistent _ violations => [("violations", .number violations)]

def report (e : Event) : Report := { level := e.level, message := e.message, fields := e.fields }

/-- Whether an event reports the removal of an entity of kind `k`. -/
def isRemoval (k : Kind) : Event → Bool
  | removed l _ => k = l
  | _ => false

/-- The handle of kind `k` whose removal an event reports. -/
def removed? (k : Kind) : Event → Option (Handle k)
  | removed l id => if h : l = k then some (h ▸ id) else none
  | _ => none

@[simp] theorem removed?_eq_some_iff {k : Kind} {h : Handle k} {e : Event} :
    e.removed? k = some h ↔ e = .removed k h := by
  cases e with
  | removed l id =>
    by_cases hl : l = k
    · subst hl
      simp [removed?]
    · simp [removed?, hl]
  | _ => simp [removed?]

theorem isSome_removed? (k : Kind) (e : Event) : (e.removed? k).isSome = e.isRemoval k := by
  cases e with
  | removed l id =>
    by_cases hl : l = k
    · subst hl
      simp [removed?, isRemoval]
    · simp [removed?, isRemoval, hl, Ne.symm hl]
  | _ => rfl

/-- The report of a removal has a level and a message of its own and tells the handle. -/
theorem eq_removed_iff {k : Kind} {h : Handle k} {e : Event} : e = .removed k h ↔
    e.report = ⟨.trace, "removed " ++ k.word, [(k.word, .text h.text)]⟩ := by
  constructor
  · rintro rfl
    rfl
  · intro hreport
    obtain ⟨hlevel, hmessage, hfields⟩ := Report.mk.inj hreport
    cases e with
    | removed l id =>
      have hword : l.word = k.word := (String.append_right_inj _).1 hmessage
      have htext : FieldValue.text id.text = .text h.text :=
        (Prod.mk.inj (List.cons.inj hfields).1).2
      obtain rfl : l = k := Kind.word_injective hword
      rw [Handle.text_injective (FieldValue.text.inj htext)]
    | swept => nomatch hlevel
    | compacted => nomatch hlevel
    | inconsistent => nomatch hlevel

end Event

/-- The number of entities of kind `k` whose removal is reported. -/
def removals (k : Kind) (events : List Event) : Nat := events.countP (·.isRemoval k)

/-- The handles of kind `k` whose removals are reported, in order. -/
def removed (k : Kind) (events : List Event) : List (Handle k) := events.filterMap (·.removed? k)

@[simp] theorem mem_removed_iff {k : Kind} {h : Handle k} {es : List Event} :
    h ∈ removed k es ↔ .removed k h ∈ es := by
  simp [removed, List.mem_filterMap]

/-- The handles are those that reports of removals tell. -/
theorem mem_removed_iff_report {k : Kind} {h : Handle k} {es : List Event} : h ∈ removed k es ↔
    ⟨.trace, "removed " ++ k.word, [(k.word, .text h.text)]⟩ ∈ es.map Event.report := by
  simp only [List.mem_map, ← Event.eq_removed_iff, exists_eq_right, mem_removed_iff]

theorem count_removed (k : Kind) (h : Handle k) (es : List Event) :
    (removed k es).count h = es.count (.removed k h) := by
  have hiff (e : Event) : (e.removed? k == some h) = (e == .removed k h) := by
    rw [Bool.eq_iff_iff, beq_iff_eq, beq_iff_eq, Event.removed?_eq_some_iff]
  rw [removed, List.count_filterMap]
  simp only [hiff, List.count]

@[simp] theorem length_removed (k : Kind) (es : List Event) :
    (removed k es).length = removals k es := by
  simp only [removed, List.length_filterMap_eq_countP, removals, Event.isSome_removed?]

@[simp] theorem removals_append (k : Kind) (es fs : List Event) :
    removals k (es ++ fs) = removals k es + removals k fs :=
  List.countP_append

end MappedNetlist
