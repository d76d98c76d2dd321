import MappedNetlist.Netlist.Remove

/-!
# Sweeping

A sweep removes what serves nothing: first the ports without a pin, then the blocks that list
ports but none that is live. A block that never had a port is kept. Ports and blocks are counted as they
are removed, and the sweep reports the two numbers if their sum is positive. The counters have 32 bits
and a sign. What becomes of a sum that is too large for them is settled when the program is built
(`Arithmetic`): the counter wraps, or the sweep faults.
-/

namespace MappedNetlist

/-- What an addition does that leaves the range of its numbers. -/
inductive Arithmetic
  | wrapping
  | checked
  deriving DecidableEq, Repr

namespace Arithmetic

/-- The sum of two counters. -/
def add : Arithmetic → Int32 → Int32 → Except Fault Int32
  | wrapping, i, j => .ok (i + j)
  | checked, i, j => if (i + j).toInt = i.toInt + j.toInt then .ok (i + j) else .error .overflow

theorem eq_of_add_eq_ok (a : Arithmetic) {i j sum : Int32} (h : a.add i j = .ok sum) :
    sum = i + j := by
  cases a with
  | wrapping => exact (Except.ok.inj h).symm
  | checked =>
    rw [add] at h
    split at h
    · exact (Except.ok.inj h).symm
    · cases h

/-- Of two numbers that a counter holds, the checked sum is a fault if it cannot hold that. -/
theorem checked_add_ofNat {i j : Nat} (hi : i < counterLimit) (hj : j < counterLimit) :
    checked.add (.ofNat i) (.ofNat j) =
      if i + j < counterLimit then .ok (.ofNat (i + j)) else .error .overflow := by
  have hexact : (Int32.ofNat i + Int32.ofNat j).toInt =
      (Int32.ofNat i).toInt + (Int32.ofNat j).toInt ↔ i + j < counterLimit := by
    rw [Int32.toInt_ofNat_of_lt hi, Int32.toInt_ofNat_of_lt hj, ← Int32.ofNat_add]
    constructor
    · intro h
      have hlt : (Int32.ofNat (i + j)).toInt < counterLimit := Int32.toInt_lt _
      omega
    · intro h
      rw [Int32.toInt_ofNat_of_lt h, Int.natCast_add]
  simp only [add, hexact, Int32.ofNat_add]

end Arithmetic

/-- Tries a removal at each position in order, collects the events, and counts the removals that were
made on from `count`. -/
def tryEach (a : Arithmetic) (step : Netlist → Nat → Except Fault (Option (Netlist × List Event))) :
    Netlist → Int32 → List Nat → Except Fault (Netlist × List Event × Int32)
  | n, count, [] => .ok (n, [], count)
  | n, count, i :: is => do
    match ← step n i with
    | none => tryEach a step n count is
    | some (n, now) =>
      let count ← a.add count 1
      let (n, later, count) ← tryEach a step n count is
      return (n, now ++ later, count)

namespace Netlist

/-- Removes the port at a position if none of its bits has a pin. -/
def sweepPort (n : Netlist) (i : Nat) : Except Fault (Option (Netlist × List Event)) := do
  match ← n.ports.slots.read i with
  | none => return none
  | some port =>
    let row ← n.ports.pins.read i
    if row.all Option.isNone then return some (← n.dropPort port) else return none

/-- Removes the block at a position if it lists ports and all of them are removed. -/
def sweepBlock (n : Netlist) (i : Nat) : Except Fault (Option (Netlist × List Event)) := do
  match ← n.blocks.slots.read i with
  | none => return none
  | some block =>
    let ports ← n.portsOf block
    if ports ≠ [] ∧ ∀ port ∈ ports, ¬n.IsLive port then return some (← n.dropBlock block)
    else return none

/-- The report of a sweep, if it counted anything. -/
def sweepReport (a : Arithmetic) (ports blocks : Int32) : Except Fault (List Event) := do
  if 0 < (← a.add ports blocks) then return [.swept ports blocks] else return []

/-- Removes the ports without pins and then the blocks without live ports. -/
def sweepWith (a : Arithmetic) (n : Netlist) : Except Fault (Netlist × List Event) := do
  let (n, ports, sweptPorts) ← tryEach a sweepPort n 0 (List.range n.ports.slots.size)
  let (n, blocks, sweptBlocks) ← tryEach a sweepBlock n 0 (List.range n.blocks.slots.size)
  return (n, ports ++ blocks ++ (← sweepReport a sweptPorts sweptBlocks))

/-- A sweep whose counters wrap. -/
def sweep (n : Netlist) : Except Fault (Netlist × List Event) := n.sweepWith .wrapping

end Netlist

end MappedNetlist
