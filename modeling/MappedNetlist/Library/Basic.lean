import MappedNetlist.Model

/-!
# Model libraries

A library lists the models that a netlist may instantiate, in the order of their declaration. A
lookup by name takes the first model of that name. `Library.validate` accepts a library in which
no declaration can hide another and no port is without bits; it goes through the models in order
and blames the first fault it meets.
-/

namespace MappedNetlist

/-- The models available to a netlist, in the order of their declaration. -/
structure Library where
  models : List Model := []
  deriving DecidableEq, Repr

/-- Why the content of a library file could not be had. -/
inductive ReadFailure
  | missing
  | isDirectory
  | notUnicode
  deriving DecidableEq, Repr

def ReadFailure.message : ReadFailure → String
  | missing => "No such file or directory (os error 2)"
  | isDirectory => "Is a directory (os error 21)"
  | notUnicode => "stream did not contain valid UTF-8"

/-- Why a library was refused. -/
inductive LibraryError
  | unreadable (cause : ReadFailure)
  | malformed
  | duplicateModel (name : String)
  | duplicatePort (model port : String)
  | zeroWidth (model port : String)
  deriving DecidableEq, Repr

def LibraryError.message : LibraryError → String
  | unreadable cause => "failed to read model library: " ++ cause.message
  | malformed => "failed to parse model library"
  | duplicateModel name => "duplicate model '" ++ name ++ "'"
  | duplicatePort model port =>
    "model '" ++ model ++ "' declares port '" ++ port ++ "' more than once"
  | zeroWidth model port => "port '" ++ port ++ "' of model '" ++ model ++ "' has zero width"

/-- Goes through the ports that `model` declares, with the names of those before them: a name must
be new, and then the width positive. -/
def validatePorts (model : String) : List String → List PortDecl → Except LibraryError Unit
  | _, [] => .ok ()
  | earlier, p :: ps =>
    if p.name ∈ earlier then .error (.duplicatePort model p.name)
    else if p.width = 0 then .error (.zeroWidth model p.name)
    else validatePorts model (p.name :: earlier) ps

/-- Goes through models, with the names of those before them: a name must be new, and then the
ports in order. -/
def validateModels : List String → List Model → Except LibraryError Unit
  | _, [] => .ok ()
  | earlier, m :: ms =>
    if m.name ∈ earlier then .error (.duplicateModel m.name)
    else do
      validatePorts m.name [] m.ports
      validateModels (m.name :: earlier) ms

namespace Library

/-- The first model of a name. -/
def model? (l : Library) (name : String) : Option Model := l.models.find? (·.name = name)

/-- The library itself, or its first fault. -/
def validate (l : Library) : Except LibraryError Library := do
  validateModels [] l.models
  return l

end Library

end MappedNetlist
