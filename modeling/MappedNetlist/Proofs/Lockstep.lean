import Mathlib.Data.List.Forall2
import MappedNetlist.Netlist.Edit
import MappedNetlist.Proofs.Renumbering
import MappedNetlist.Proofs.Twin.Basic

/-!
# Calls in lockstep

Two netlists are driven in lockstep if the same calls are made on both, with paired handles where
the calls take handles. `Lockstep` says that then every pair of calls has corresponding outcomes: two
answers that match, or two failures of one kind about paired handles. Handles that a pair of calls
issues are paired from then on, and after a compaction on both sides those are paired that the
survivors got.
-/

namespace MappedNetlist

/-- A call that only asks. -/
inductive Query
  | findBlock (name : String)
  | findPort (block : BlockId) (name : String)
  | findPin (port : PortId) (bit : Nat)
  | findNet (name : String)
  | blockName (block : BlockId)
  | blockModel (block : BlockId)
  | blockCategory (block : BlockId)
  | blockTable (block : BlockId)
  | blockPortsOfClass (c : PortClass) (block : BlockId)
  | blockPorts (block : BlockId)
  | portName (port : PortId)
  | portWidth (port : PortId)
  | portBlock (port : PortId)
  | portClass (port : PortId)
  | portPins (port : PortId)
  | portPin (port : PortId) (bit : Nat)
  | portNet (port : PortId) (bit : Nat)
  | pinNet (pin : PinId)
  | pinRole (pin : PinId)
  | pinPort (pin : PinId)
  | pinBit (pin : PinId)
  | pinBlock (pin : PinId)
  | netName (net : NetId)
  | netSlots (net : NetId)
  | netDriver (net : NetId)
  | netSinks (net : NetId)
  | netDriverBlock (net : NetId)

/-- A value without handles. -/
inductive Plain
  | text (s : String)
  | number (i : Nat)
  | model (m : Model)
  | category (c : Category)
  | table (t : TruthTable)
  | portClass (c : PortClass)
  | role (r : PinRole)

/-- What a successful call returns. The ports that a block lists and the slots of a net are kept
apart from other lists, because both can hold what removed entities have left. -/
inductive Answer
  | done
  | plain (v : Plain)
  | handle (k : Kind) (h : Option (Handle k))
  | pins (is : List PinId)
  | ports (ps : List PortId)
  | slots (slots : List (Option PinId))

/-- The answer to a query. -/
def Query.ask (n : Netlist) : Query → Except Fault Answer
  | findBlock name => return .handle .block (n.block? name)
  | findPort block name => return .handle .port (← n.port? block name)
  | findPin port bit => return .handle .pin (← n.pin? port bit)
  | findNet name => return .handle .net (n.net? name)
  | blockName block => return .plain (.text (← n.blockName block))
  | blockModel block => return .plain (.model (← n.blockModel block))
  | blockCategory block => return .plain (.category (← n.blockCategory block))
  | blockTable block => return .plain (.table (← n.blockTable block))
  | blockPortsOfClass c block => return .ports (← n.portsOfClass c block)
  | blockPorts block => return .ports (← n.portsOf block)
  | portName port => return .plain (.text (← n.portName port))
  | portWidth port => return .plain (.number (← n.portWidth port))
  | portBlock port => return .handle .block (← n.portBlock port)
  | portClass port => return .plain (.portClass (← n.portClass port))
  | portPins port => return .pins (← n.portPins port)
  | portPin port bit => return .handle .pin (← n.portPin port bit)
  | portNet port bit => return .handle .net (← n.portNet port bit)
  | pinNet pin => return .handle .net (← n.pinNet pin)
  | pinRole pin => return .plain (.role (← n.pinRole pin))
  | pinPort pin => return .handle .port (← n.pinPort pin)
  | pinBit pin => return .plain (.number (← n.pinBit pin))
  | pinBlock pin => return .handle .block (← n.pinBlock pin)
  | netName net => return .plain (.text (← n.netName net))
  | netSlots net => return .slots (← n.netSlots net)
  | netDriver net => return .handle .pin (← n.netDriver net)
  | netSinks net => return .pins (← n.netSinks net)
  | netDriverBlock net => return .handle .block (← n.netDriverBlock net)

/-- The entity that must be live for the query to have an answer. -/
def Query.subject? : Query → Option ((k : Kind) × Handle k)
  | findBlock _ | findNet _ | findPin _ _ => none
  | findPort b _ | blockName b | blockModel b | blockCategory b | blockTable b
  | blockPortsOfClass _ b | blockPorts b => some ⟨.block, b⟩
  | portName p | portWidth p | portBlock p | portClass p | portPins p | portPin p _
  | portNet p _ => some ⟨.port, p⟩
  | pinNet i | pinRole i | pinPort i | pinBit i | pinBlock i => some ⟨.pin, i⟩
  | netName e | netSlots e | netDriver e | netSinks e | netDriverBlock e => some ⟨.net, e⟩

inductive Call
  | edit (e : Edit)
  | query (q : Query)

namespace Call

/-- What a call returns, or why it fails. -/
def outcome (n : Netlist) : Call → Except Failure Answer
  | edit e => do
    match (← e.apply n).found with
    | some ⟨k, h⟩ => return .handle k (some h)
    | none => return .done
  | query q => q.ask n

/-- The netlist after a call. -/
def after (n : Netlist) : Call → Netlist
  | edit e => e.after n
  | query _ => n

end Call

/-! ## Paired calls -/

/-- The same edit with paired handles. -/
inductive Edit.Paired (ρ : Pairing) : Edit → Edit → Prop
  | createBlock (name : String) (model : Model) (table : TruthTable) :
    Paired ρ (.createBlock name model table) (.createBlock name model table)
  | createPort {b b' : BlockId} (hb : ρ .block b b') (name : String) :
    Paired ρ (.createPort b name) (.createPort b' name)
  | createPin {p p' : PortId} (hp : ρ .port p p') (bit : Nat) {net net' : Option NetId}
    (hnet : Option.Rel (ρ .net) net net') (role : PinRole) :
    Paired ρ (.createPin p bit net role) (.createPin p' bit net' role)
  | createNet (name : String) : Paired ρ (.createNet name) (.createNet name)
  | addNet (name : String) {driver driver' : Option PinId} {sinks sinks' : List PinId}
    (hdriver : Option.Rel (ρ .pin) driver driver') (hsinks : List.Forall₂ (ρ .pin) sinks sinks') :
    Paired ρ (.addNet name driver sinks) (.addNet name driver' sinks')
  | removeBlock {b b' : BlockId} (hb : ρ .block b b') : Paired ρ (.removeBlock b) (.removeBlock b')
  | removePin {i i' : PinId} (hi : ρ .pin i i') : Paired ρ (.removePin i) (.removePin i')
  | removeNet {e e' : NetId} (he : ρ .net e e') : Paired ρ (.removeNet e) (.removeNet e')
  | removeNetPin {e e' : NetId} {i i' : PinId} (he : ρ .net e e') (hi : ρ .pin i i') :
    Paired ρ (.removeNetPin e i) (.removeNetPin e' i')
  | sweep : Paired ρ .sweep .sweep
  | compact : Paired ρ .compact .compact

/-- The same query with paired handles. -/
inductive Query.Paired (ρ : Pairing) : Query → Query → Prop
  | findBlock (name : String) : Paired ρ (.findBlock name) (.findBlock name)
  | findPort {b b' : BlockId} (hb : ρ .block b b') (name : String) :
    Paired ρ (.findPort b name) (.findPort b' name)
  | findPin {p p' : PortId} (hp : ρ .port p p') (bit : Nat) :
    Paired ρ (.findPin p bit) (.findPin p' bit)
  | findNet (name : String) : Paired ρ (.findNet name) (.findNet name)
  | blockName {b b' : BlockId} (hb : ρ .block b b') : Paired ρ (.blockName b) (.blockName b')
  | blockModel {b b' : BlockId} (hb : ρ .block b b') : Paired ρ (.blockModel b) (.blockModel b')
  | blockCategory {b b' : BlockId} (hb : ρ .block b b') :
    Paired ρ (.blockCategory b) (.blockCategory b')
  | blockTable {b b' : BlockId} (hb : ρ .block b b') : Paired ρ (.blockTable b) (.blockTable b')
  | blockPortsOfClass (c : PortClass) {b b' : BlockId} (hb : ρ .block b b') :
    Paired ρ (.blockPortsOfClass c b) (.blockPortsOfClass c b')
  | blockPorts {b b' : BlockId} (hb : ρ .block b b') : Paired ρ (.blockPorts b) (.blockPorts b')
  | portName {p p' : PortId} (hp : ρ .port p p') : Paired ρ (.portName p) (.portName p')
  | portWidth {p p' : PortId} (hp : ρ .port p p') : Paired ρ (.portWidth p) (.portWidth p')
  | portBlock {p p' : PortId} (hp : ρ .port p p') : Paired ρ (.portBlock p) (.portBlock p')
  | portClass {p p' : PortId} (hp : ρ .port p p') : Paired ρ (.portClass p) (.portClass p')
  | portPins {p p' : PortId} (hp : ρ .port p p') : Paired ρ (.portPins p) (.portPins p')
  | portPin {p p' : PortId} (hp : ρ .port p p') (bit : Nat) :
    Paired ρ (.portPin p bit) (.portPin p' bit)
  | portNet {p p' : PortId} (hp : ρ .port p p') (bit : Nat) :
    Paired ρ (.portNet p bit) (.portNet p' bit)
  | pinNet {i i' : PinId} (hi : ρ .pin i i') : Paired ρ (.pinNet i) (.pinNet i')
  | pinRole {i i' : PinId} (hi : ρ .pin i i') : Paired ρ (.pinRole i) (.pinRole i')
  | pinPort {i i' : PinId} (hi : ρ .pin i i') : Paired ρ (.pinPort i) (.pinPort i')
  | pinBit {i i' : PinId} (hi : ρ .pin i i') : Paired ρ (.pinBit i) (.pinBit i')
  | pinBlock {i i' : PinId} (hi : ρ .pin i i') : Paired ρ (.pinBlock i) (.pinBlock i')
  | netName {e e' : NetId} (he : ρ .net e e') : Paired ρ (.netName e) (.netName e')
  | netSlots {e e' : NetId} (he : ρ .net e e') : Paired ρ (.netSlots e) (.netSlots e')
  | netDriver {e e' : NetId} (he : ρ .net e e') : Paired ρ (.netDriver e) (.netDriver e')
  | netSinks {e e' : NetId} (he : ρ .net e e') : Paired ρ (.netSinks e) (.netSinks e')
  | netDriverBlock {e e' : NetId} (he : ρ .net e e') :
    Paired ρ (.netDriverBlock e) (.netDriverBlock e')

inductive Call.Paired (ρ : Pairing) : Call → Call → Prop
  | edit {e e' : Edit} : e.Paired ρ e' → Paired ρ (.edit e) (.edit e')
  | query {q q' : Query} : q.Paired ρ q' → Paired ρ (.query q) (.query q')

/-! ## Paired outcomes -/

/-- The same refusal, about paired handles. -/
inductive EditError.Paired (ρ : Pairing) : EditError → EditError → Prop
  | invalidHandle {k : Kind} {h h' : Handle k} (hh : ρ k h h') :
    Paired ρ (.invalidHandle k h) (.invalidHandle k h')
  | bitOutOfRange {p p' : PortId} (hp : ρ .port p p') (bit width : Nat) :
    Paired ρ (.bitOutOfRange p bit width) (.bitOutOfRange p' bit width)
  | unknownModelPort (model port : String) :
    Paired ρ (.unknownModelPort model port) (.unknownModelPort model port)
  | duplicateNet (name : String) : Paired ρ (.duplicateNet name) (.duplicateNet name)
  | driverConflict {e e' : NetId} {i i' : PinId} (he : ρ .net e e') (hi : ρ .pin i i') :
    Paired ρ (.driverConflict e i) (.driverConflict e' i')
  | pinAlreadyConnected {i i' : PinId} {e e' : NetId} (hi : ρ .pin i i') (he : ρ .net e e') :
    Paired ρ (.pinAlreadyConnected i e) (.pinAlreadyConnected i' e')
  | duplicatePin {i i' : PinId} (hi : ρ .pin i i') : Paired ρ (.duplicatePin i) (.duplicatePin i')
  | roleMismatch {i i' : PinId} (hi : ρ .pin i i') : Paired ρ (.roleMismatch i) (.roleMismatch i')
  | pinNotOnNet {i i' : PinId} {e e' : NetId} (hi : ρ .pin i i') (he : ρ .net e e') :
    Paired ρ (.pinNotOnNet i e) (.pinNotOnNet i' e')

/-- The same fault, about paired handles. -/
inductive Fault.Paired (ρ : Pairing) : Fault → Fault → Prop
  | deadHandle {k : Kind} {h h' : Handle k} (hh : ρ k h h') :
    Paired ρ (.deadHandle k h) (.deadHandle k h')
  | invalidPortBit {p p' : PortId} (hp : ρ .port p p') (bit : Nat) :
    Paired ρ (.invalidPortBit p bit) (.invalidPortBit p' bit)
  | bitOutOfRange {p p' : PortId} (hp : ρ .port p p') (bit width : Nat) :
    Paired ρ (.bitOutOfRange p bit width) (.bitOutOfRange p' bit width)

inductive Failure.Paired (ρ : Pairing) : Failure → Failure → Prop
  | refused {e e' : EditError} : e.Paired ρ e' → Paired ρ (.refused e) (.refused e')
  | fault {f f' : Fault} : f.Paired ρ f' → Paired ρ (.fault f) (.fault f')

/-- Two answers match if all handles in them are paired and all else is the same. How the ports of
blocks and the slots of nets have to match is left open. -/
inductive Answer.Matches (ρ : Pairing) (ports : List PortId → List PortId → Prop)
    (slots : List (Option PinId) → List (Option PinId) → Prop) : Answer → Answer → Prop
  | done : Matches ρ ports slots .done .done
  | plain (v : Plain) : Matches ρ ports slots (.plain v) (.plain v)
  | handle {k : Kind} {h h' : Option (Handle k)} (hh : Option.Rel (ρ k) h h') :
    Matches ρ ports slots (.handle k h) (.handle k h')
  | pins {is is' : List PinId} (his : List.Forall₂ (ρ .pin) is is') :
    Matches ρ ports slots (.pins is) (.pins is')
  | ports {ps ps' : List PortId} (hps : ports ps ps') :
    Matches ρ ports slots (.ports ps) (.ports ps')
  | slots {ss ss' : List (Option PinId)} (hss : slots ss ss') :
    Matches ρ ports slots (.slots ss) (.slots ss')

/-- What two answers are compared by, if those are given by the two netlists. -/
abbrev Comparison := Pairing → Netlist → Netlist → Answer → Answer → Prop

namespace Answer

/-- The answers match entry by entry. -/
def Same : Comparison := fun ρ _ _ =>
  Matches ρ (List.Forall₂ (ρ .port)) (List.Forall₂ (Option.Rel (ρ .pin)))

/-- The answers match once dead ports are taken out of the lists of blocks, and empty slots for
sinks out of the slots of nets. -/
def Alike : Comparison := fun ρ n m =>
  Matches ρ
    (fun ps ps' => List.Forall₂ (ρ .port) (ps.filter (n.IsLive ·)) (ps'.filter (m.IsLive ·)))
    fun ss ss' => Option.Rel (ρ .pin) ss.head?.join ss'.head?.join ∧
      List.Forall₂ (ρ .pin) (ss.tail.filterMap id) (ss'.tail.filterMap id)

end Answer

/-- Both calls fail in the same way, or both succeed with matching answers. -/
inductive Corresponds (ρ : Pairing) (M : Answer → Answer → Prop) :
    Except Failure Answer → Except Failure Answer → Prop
  | error {f f' : Failure} (hf : f.Paired ρ f') : Corresponds ρ M (.error f) (.error f')
  | ok {a a' : Answer} (ha : M a a') : Corresponds ρ M (.ok a) (.ok a')

/-! ## Lockstep -/

/-- The entity that an edit found or created. -/
def Edit.found? (n : Netlist) (e : Edit) : Option ((k : Kind) × Handle k) :=
  match e.apply n with
  | .ok r => r.found
  | .error _ => none

/-- A compaction of the netlist moves the entity to a new handle. -/
def Netlist.Renumbers (n : Netlist) {k : Kind} (h h' : Handle k) : Prop :=
  ∃ t es, n.sweep = .ok (t, es) ∧ (t.slots k).Moves h h'

namespace Pairing

/-- The pairing with the handles that are issued next. -/
def fresh (ρ : Pairing) (n m : Netlist) : Pairing := fun k h h' =>
  ρ k h h' ∨ h = ⟨(n.slots k).size⟩ ∧ h' = ⟨(m.slots k).size⟩

/-- Which handles are paired after two calls. -/
def next (ρ : Pairing) (n m : Netlist) : Call → Call → Pairing
  | .edit .compact, .edit .compact => fun k h h' =>
    ∃ x x', ρ k x x' ∧ n.Renumbers x h ∧ m.Renumbers x' h'
  | .edit e, .edit e' => fun k h h' =>
    ρ k h h' ∨ e.found? n = some ⟨k, h⟩ ∧ e'.found? m = some ⟨k, h'⟩
  | _, _ => ρ

/-- Which handles the answers of two calls may hold: paired ones, and for an edit those that are
issued next. -/
def answered (ρ : Pairing) (n m : Netlist) : Call → Pairing
  | .edit _ => ρ.fresh n m
  | .query _ => ρ

end Pairing

/-- As long as calls are made on both netlists with paired handles, they have corresponding
outcomes. -/
def Lockstep (C : Comparison) (ρ : Pairing) (n m : Netlist) : List (Call × Call) → Prop
  | [] => True
  | (c, c') :: calls => c.Paired ρ c' →
    Corresponds ρ (C (ρ.answered n m c) n m) (c.outcome n) (c'.outcome m) ∧
      Lockstep C (ρ.next n m c c') (c.after n) (c'.after m) calls

end MappedNetlist
