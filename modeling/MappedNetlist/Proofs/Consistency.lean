import MappedNetlist.Netlist.Check.Reference
import MappedNetlist.Netlist.Compact
import MappedNetlist.Proofs.Record

/-!
# Consistent netlists

What it means that nothing in a netlist contradicts anything else in it, said without the checks.
The columns of each kind agree in length (`Netlist.Sized`); the records of live entities refer to
each other in both directions (`Store.Coherent`); the index finds exactly the live entities under
their keys (`Index.Exact`); and every name is interned, those of removed entities included
(`Netlist.NamesInterned`). Nothing is said about what else is left of removed entities.
-/

namespace MappedNetlist

namespace Store

/-- References between live entities agree. Blocks may go on listing ports that are removed, as
long as the ports were `issued`. -/
structure Coherent (s : Store) (issued : Nat) : Prop where
  /-- A listed port was issued, and if it is live, it belongs to the block and has the class. -/
  listed {b : BlockId} {r : BlockRecord} : s.blocks b = some r → ∀ {c : PortClass} {p : PortId},
    p ∈ r.listed c → p.index < issued ∧ ∀ q, s.ports p = some q → q.owner = b ∧ q.portClass = c
  /-- The block of a port is live and lists the port under its class. -/
  owned {p : PortId} {r : PortRecord} : s.ports p = some r →
    ∃ q, s.blocks r.owner = some q ∧ p ∈ q.listed r.portClass
  width {p : PortId} {r : PortRecord} : s.ports p = some r → r.pins.length = r.width
  /-- The pin at a bit of a port is live and says that it stands there. -/
  filled {p : PortId} {r : PortRecord} : s.ports p = some r → ∀ {bit : Nat} {i : PinId},
    r.pins[bit]? = some (some i) → ∃ q, s.pins i = some q ∧ q.port = p ∧ q.bit = bit
  /-- The port of a pin is live, has the pin's bit, and holds the pin there. -/
  placed {i : PinId} {r : PinRecord} : s.pins i = some r →
    ∃ q, s.ports r.port = some q ∧ r.bit < q.width ∧ q.pins[r.bit]? = some (some i)
  /-- The net of a pin is live and holds the pin in a slot for its role. -/
  connected {i : PinId} {r : PinRecord} : s.pins i = some r → ∀ {e : NetId}, r.net = some e →
    ∃ q, s.nets e = some q ∧ ∃ slot, q.pins[slot]? = some (some i) ∧ Netlist.slotRole slot = r.role
  /-- A net has a slot for its driver. -/
  slotted {e : NetId} {r : NetRecord} : s.nets e = some r → r.pins ≠ []
  /-- No pin stands in two slots of a net. -/
  once {e : NetId} {r : NetRecord} : s.nets e = some r → ∀ {i : PinId} {j k : Nat},
    r.pins[j]? = some (some i) → r.pins[k]? = some (some i) → j = k
  /-- The pin in a slot of a net is live, is on the net, and has the role of the slot. -/
  attached {e : NetId} {r : NetRecord} : s.nets e = some r → ∀ {slot : Nat} {i : PinId},
    r.pins[slot]? = some (some i) → ∃ q, s.pins i = some q ∧ q.net = some e ∧
      q.role = Netlist.slotRole slot

end Store

/-! ## Keys -/

/-- What a port is found by. -/
def PortRecord.key (r : PortRecord) : PortKey := ⟨r.owner, r.name⟩

/-- What a pin is found by. -/
def PinRecord.key (r : PinRecord) : BitKey := ⟨r.port, r.bit⟩

/-- A lookup finds a handle under a key exactly if that is the key of the handle. -/
def Lookup.Exact {κ : Type} [Ord κ] [Std.TransOrd κ] {k : Kind} (m : Lookup κ k)
    (keyOf : Handle k → Option κ) : Prop :=
  ∀ (key : κ) (h : Handle k), m[key]? = some h ↔ keyOf h = some key

/-- The index finds the live entities under their keys and nothing else. -/
structure Index.Exact (x : Index) (s : Store) : Prop where
  blocks : Lookup.Exact x.blocks fun b => (s.blocks b).map BlockRecord.name
  ports : Lookup.Exact x.ports fun p => (s.ports p).map PortRecord.key
  pins : Lookup.Exact x.pins fun i => (s.pins i).map PinRecord.key
  nets : Lookup.Exact x.nets fun e => (s.nets e).map NetRecord.name

namespace Netlist

/-- Every name in a column stands for a text. -/
def NamesInterned (n : Netlist) : Prop :=
  ∀ name ∈ n.namesInUse, ∃ text, n.strings.text? name = some text

/-- Every text in the table is the name of something in a column. -/
def NamesUsed (n : Netlist) : Prop :=
  ∀ ⦃name : StringId⦄ ⦃text : String⦄, n.strings.text? name = some text → name ∈ n.namesInUse

/-- Nothing in the netlist contradicts anything else in it. -/
structure Consistent (n : Netlist) : Prop where
  sized : n.Sized
  coherent : n.store.Coherent n.ports.slots.size
  indexed : n.index.Exact n.store
  interned : n.NamesInterned

end Netlist

end MappedNetlist
