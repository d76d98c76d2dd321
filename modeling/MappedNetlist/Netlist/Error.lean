import MappedNetlist.Handle

/-!
# Refusals and faults

An edit can fail in two ways. It is *refused* (`EditError`) when its arguments break the contract
that every caller can check: a handle that is not live, a bit beyond a port, a name or a pin that
is taken. It hits a *fault* (`Fault`) when a query is asked about something that is not there,
when the tables of the netlist disagree so badly that a position does not exist in one of them, or
when a counter runs over. Either way the netlist stays as it was, because a failed operation returns no netlist.
-/

namespace MappedNetlist

/-- Why an edit was refused. -/
inductive EditError
  | invalidHandle (k : Kind) (id : Handle k)
  | bitOutOfRange (port : PortId) (bit width : Nat)
  | unknownModelPort (model port : String)
  | duplicateNet (name : String)
  | driverConflict (net : NetId) (existing : PinId)
  | pinAlreadyConnected (pin : PinId) (net : NetId)
  | duplicatePin (pin : PinId)
  | roleMismatch (pin : PinId)
  | pinNotOnNet (pin : PinId) (net : NetId)
  deriving DecidableEq, Repr

def EditError.message : EditError → String
  | invalidHandle k id => "invalid " ++ k.word ++ " handle " ++ id.text
  | bitOutOfRange port bit width =>
    "bit " ++ toString bit ++ " is out of range for " ++ port.text ++ " of width " ++ toString width
  | unknownModelPort model port => "model '" ++ model ++ "' has no port named '" ++ port ++ "'"
  | duplicateNet name => "net '" ++ name ++ "' already exists"
  | driverConflict net existing => net.text ++ " is already driven by " ++ existing.text
  | pinAlreadyConnected pin net => pin.text ++ " is already connected to " ++ net.text
  | duplicatePin pin => pin.text ++ " is listed more than once"
  | roleMismatch pin => pin.text ++ " has the wrong role for this connection"
  | pinNotOnNet pin net => pin.text ++ " is not connected to " ++ net.text

/-- Why a query has no answer, or why an operation could not go on. -/
inductive Fault
  | deadHandle (k : Kind) (id : Handle k)
  | invalidPortBit (port : PortId) (bit : Nat)
  | bitOutOfRange (port : PortId) (bit width : Nat)
  | unknownString (id : StringId)
  | outOfBounds (size index : Nat)
  | overflow
  deriving DecidableEq, Repr

def Fault.message : Fault → String
  | deadHandle k id => "invalid " ++ k.word ++ " handle " ++ id.text
  | invalidPortBit port bit => "invalid port bit " ++ port.text ++ "[" ++ toString bit ++ "]"
  | bitOutOfRange port bit width =>
    "bit " ++ toString bit ++ " out of range for " ++ port.text ++ " of width " ++ toString width
  | unknownString _ => "unknown string handle"
  | outOfBounds size index =>
    "index out of bounds: the len is " ++ toString size ++ " but the index is " ++ toString index
  | overflow => "attempt to add with overflow"

/-- Why an edit failed. -/
inductive Failure
  | refused (e : EditError)
  | fault (f : Fault)
  deriving DecidableEq, Repr

instance : MonadLift (Except Fault) (Except Failure) where
  monadLift
    | .ok a => .ok a
    | .error f => .error (.fault f)

@[simp] theorem liftM_ok {α : Type} (a : α) :
    (liftM (Except.ok a : Except Fault α) : Except Failure α) = .ok a := rfl

theorem liftM_eq_ok_iff {α : Type} {x : Except Fault α} {a : α} :
    (liftM x : Except Failure α) = .ok a ↔ x = .ok a := by
  cases x <;> simp

@[simp] theorem ok_bind {ε α β : Type} (a : α) (f : α → Except ε β) :
    (Except.ok a >>= f) = f a := rfl

@[simp] theorem error_bind {ε α β : Type} (e : ε) (f : α → Except ε β) :
    (Except.error e >>= f) = Except.error e := rfl

@[simp] theorem map_ok {ε α β : Type} (a : α) (f : α → β) :
    (f <$> (Except.ok a : Except ε α)) = .ok (f a) := rfl

@[simp] theorem pure_eq_ok {ε α : Type} (a : α) : (pure a : Except ε α) = .ok a := rfl

/-- A sequence of two steps succeeds if the first one does and the second one does after it. -/
theorem bind_eq_ok_iff {ε α β : Type} {x : Except ε α} {f : α → Except ε β} {b : β} :
    x >>= f = .ok b ↔ ∃ a, x = .ok a ∧ f a = .ok b := by
  cases x <;> simp [bind, Except.bind]

theorem toOption_eq_some_iff {ε α : Type} {x : Except ε α} {a : α} :
    x.toOption = some a ↔ x = .ok a := by
  cases x <;> simp [Except.toOption]

/-- Stops an edit that is refused. -/
def refuse {α : Type} (e : EditError) : Except Failure α := .error (.refused e)

end MappedNetlist
