import MappedNetlist.Netlist.Check.Lookup
import MappedNetlist.Netlist.Check.Reference
import MappedNetlist.Netlist.Check.Size

/-!
# Verification

Verification looks for everything in a netlist that contradicts something else in it. Four checks
run in order: that the columns of each kind have the same length and every handle stands at its own
position; that the references between live entities agree; that the index holds the live entities
under their keys and nothing else; and that every text maps back to its handle and every name is
interned. References and index are looked at only if the columns have the right lengths, because
positions mean nothing otherwise. What is kept of removed entities is not looked at, apart from its
names.
-/

namespace MappedNetlist.Netlist

/-- Every interned text maps back to its handle. -/
def checkTexts (n : Netlist) : List Violation :=
  n.strings.entries.flatMap fun (id, text) =>
    expect (n.strings.find? text = some id)
      { check := .strings
        subject := .string
        index := some id.index
        message := "'" ++ text ++ "' does not map back to its handle" }

/-- The names in a column are interned. -/
def checkNames (n : Netlist) (k : Kind) (names : Column StringId) : List Violation :=
  names.toList.zipIdx.flatMap fun (name, i) =>
    expect (n.strings.contains name = true)
      { check := .strings
        subject := .entity k
        index := some i
        message := "name " ++ name.text ++ " is not interned" }

/-- The interned texts map back to their handles, and the names of all entities, removed ones included,
are interned. -/
def checkStrings (n : Netlist) : List Violation :=
  n.checkTexts ++ n.checkNames .block n.blocks.names ++ n.checkNames .port n.ports.names ++
  n.checkNames .net n.nets.names

/-- Everything that contradicts something else in the netlist. -/
def violations (n : Netlist) : Except Fault (List Violation) := do
  let sizes := n.checkSizes
  if sizes = [] then
    return (← n.checkReferences) ++ (← n.checkIndex) ++ n.checkStrings
  else return sizes ++ n.checkStrings

/-- The violations found, if any, with the report of a failed verification. -/
def verify (n : Netlist) : Except Fault (Option Inconsistency × List Event) := do
  match ← n.violations with
  | [] => return (none, [])
  | vs => return (some { violations := vs }, [.inconsistent n.name vs.length])

end MappedNetlist.Netlist
