/-!
# Models

A model describes one primitive of the target architecture: its name and the ports that an
instance may have. A declared port has a direction, a number of bits and a mark that says whether
it carries a clock; from direction and mark follows the class under which a block files the port
(`PortDecl.portClass`), and from a model's name and its clock inputs the category of its
instances (`Model.category`).
-/

namespace MappedNetlist

/-- Whether data flows into a primitive or out of it. -/
inductive Direction
  | input
  | output
  deriving DecidableEq, Repr

namespace Direction

/-- The name under which a direction is written. -/
def name : Direction → String
  | input => "input"
  | output => "output"

def ofName? : String → Option Direction
  | "input" => some input
  | "output" => some output
  | _ => none

@[simp] theorem ofName?_name (d : Direction) : ofName? d.name = some d := by
  cases d <;> rfl

end Direction

/-- How a block files a port: among its data inputs, its outputs or its clock inputs. -/
inductive PortClass
  | input
  | output
  | clock
  deriving DecidableEq, Repr

namespace PortClass

/-- The name under which a class is written. -/
def name : PortClass → String
  | input => "Input"
  | output => "Output"
  | clock => "Clock"

def ofName? : String → Option PortClass
  | "Input" => some input
  | "Output" => some output
  | "Clock" => some clock
  | _ => none

@[simp] theorem ofName?_name (c : PortClass) : ofName? c.name = some c := by
  cases c <;> rfl

end PortClass

/-- A port that a model declares. -/
structure PortDecl where
  name : String
  direction : Direction
  width : UInt32
  clock : Bool := false
  deriving DecidableEq, Repr

namespace PortDecl

def input (name : String) (width : UInt32) : PortDecl :=
  { name, direction := .input, width }

def output (name : String) (width : UInt32) : PortDecl :=
  { name, direction := .output, width }

/-- A clock input of one bit. -/
def clockInput (name : String) : PortDecl :=
  { name, direction := .input, width := 1, clock := true }

/-- An input that carries a clock is filed as a clock. An output is filed as an output whether it
carries a clock or not. -/
def portClass (p : PortDecl) : PortClass :=
  match p.direction, p.clock with
  | .input, true => .clock
  | .input, false => .input
  | .output, _ => .output

theorem portClass_eq_clock_iff {p : PortDecl} :
    p.portClass = .clock ↔ p.direction = .input ∧ p.clock = true := by
  unfold portClass
  split <;> simp_all

theorem portClass_eq_output_iff {p : PortDecl} :
    p.portClass = .output ↔ p.direction = .output := by
  unfold portClass
  split <;> simp_all

end PortDecl

/-- A primitive: its name and the ports that its instances may have. -/
structure Model where
  name : String
  ports : List PortDecl := []
  deriving DecidableEq, Repr

/-- What a block is for, as far as its model tells. -/
inductive Category
  | inPad
  | outPad
  | combinational
  | sequential
  deriving DecidableEq, Repr

namespace Model

/-- The model with one more port, declared last. -/
def withPort (m : Model) (p : PortDecl) : Model := { m with ports := m.ports ++ [p] }

/-- The first declared port of a name. -/
def port? (m : Model) (name : String) : Option PortDecl := m.ports.find? (·.name = name)

/-- Whether some input of the model is a clock. -/
def hasClockInput (m : Model) : Bool := m.ports.any (·.portClass = .clock)

/-- The two pad models go by their names, any other model by whether it has a clock input. -/
def category (m : Model) : Category :=
  if m.name = ".input" then .inPad
  else if m.name = ".output" then .outPad
  else if m.hasClockInput then .sequential
  else .combinational

theorem name_of_port? {m : Model} {name : String} {p : PortDecl} (h : m.port? name = some p) :
    p.name = name := by
  simpa using List.find?_some h

theorem port?_eq_none_iff {m : Model} {name : String} :
    m.port? name = none ↔ ∀ p ∈ m.ports, p.name ≠ name := by
  simp [port?]

end Model

end MappedNetlist
