import MappedNetlist.Handle

/-!
# Violations

What verification finds is a list of violations, each of one check and about one kind of thing,
with the position of the offender where there is one. An `Inconsistency` sums the list up.
-/

namespace MappedNetlist

/-- The four families of checks, in the order in which they run. -/
inductive Check
  | size
  | reference
  | lookup
  | strings
  deriving DecidableEq, Repr

def Check.word : Check → String
  | size => "size"
  | reference => "reference"
  | lookup => "lookup"
  | strings => "strings"

def Check.all : List Check := [.size, .reference, .lookup, .strings]

/-- What a violation is about: an entity of some kind, or an interned string. -/
inductive Subject
  | entity (k : Kind)
  | string
  deriving DecidableEq, Repr

def Subject.word : Subject → String
  | entity k => k.word
  | string => "string"

/-- One broken rule. Without an index it concerns all entities of the kind. -/
structure Violation where
  check : Check
  subject : Subject
  index : Option Nat
  message : String
  deriving DecidableEq, Repr

/-- The check in brackets, the subject with its position, and the message. -/
def Violation.text (v : Violation) : String :=
  let place :=
    match v.index with
    | some i => " " ++ toString i
    | none => ""
  "[" ++ v.check.word ++ "] " ++ v.subject.word ++ place ++ ": " ++ v.message

/-- Everything that one verification found, in the order of the checks. -/
structure Inconsistency where
  violations : List Violation
  deriving DecidableEq, Repr

namespace Inconsistency

/-- Whether some violation is of the family `c`. -/
def has (i : Inconsistency) (c : Check) : Bool := i.violations.any (·.check = c)

/-- The families to which some violation belongs, in their order. -/
def checks (i : Inconsistency) : List Check := Check.all.filter i.has

/-- The number of violations and the first of them. -/
def message (i : Inconsistency) : String :=
  let first := (i.violations.head?.map Violation.text).getD "none"
  "netlist is inconsistent (" ++ toString i.violations.length ++ " violations, first: " ++ first ++
    ")"

end Inconsistency

end MappedNetlist
