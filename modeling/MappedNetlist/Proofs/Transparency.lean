import MappedNetlist.Proofs.Invariance
import MappedNetlist.Proofs.Twin.Edits

/-!
# Compaction cannot be noticed

A netlist that is only swept keeps the slots of what was removed, dead ports in the lists of blocks,
empty slots on nets and texts that nothing uses. None of this has an effect on later calls: the swept
netlist and the compacted one answer in lockstep. Only the two lists that show such leftovers by
design, the ports of a block and the slots of a net, have to be read without them.
-/

namespace MappedNetlist

namespace Netlist

/-- Whatever the history of a netlist is, sweeping it and compacting it both succeed, and whatever is
called afterwards has corresponding outcomes on the two. -/
theorem lockstep_sweep_compact (name : String) (history : List Edit) :
    ∃ t es u fs, (Edit.run (.new name) history).sweep = .ok (t, es) ∧
      (Edit.run (.new name) history).compact = .ok (u, fs) ∧
      (∀ (k : Kind) (x : Handle k), t.IsLive x → ∃ x', u.IsLive x' ∧
        (Edit.run (.new name) history).Renumbers x x') ∧
      ∀ calls, Lockstep Answer.Alike (fun _ => (Edit.run (.new name) history).Renumbers) t u
        calls := by
  have hn := (consistent_new name).run history
  obtain ⟨t, es, u, fs, hsweep, -, hcompact, htwin⟩ := exists_twin_compact hn
  refine ⟨t, es, u, fs, hsweep, hcompact, fun k x hx => ?_, htwin.lockstep⟩
  obtain ⟨x', hx'⟩ := htwin.total hx
  exact ⟨x', htwin.isLive hx' hx, hx'⟩

/-- A block with two ports, of which only the second has a pin. -/
def halfWired : List Edit :=
  [.createBlock "a" { name := "lut", ports := [.input "in" 1, .output "out" 1] } [],
    .createPort ⟨0⟩ "in", .createPort ⟨0⟩ "out", .createPin ⟨1⟩ 0 none .driver]

/-- Entry by entry the answers do not match: a block that is only swept still lists its dead
ports. -/
theorem not_lockstep_same : ¬ ∀ (name : String) (history : List Edit),
    ∃ t es u fs, (Edit.run (.new name) history).sweep = .ok (t, es) ∧
      (Edit.run (.new name) history).compact = .ok (u, fs) ∧
      ∀ calls, Lockstep Answer.Same (fun _ => (Edit.run (.new name) history).Renumbers) t u
        calls := by
  intro h
  obtain ⟨t, es, u, fs, hsweep, hcompact, hlockstep⟩ := h "top" halfWired
  have hmove : (fun r => r.1.blocks.slots.renumbering.target? 0) <$>
      (Edit.run (.new "top") halfWired).sweep = .ok (some ⟨0⟩) := rfl
  have hgone : (fun r => r.1.ports.slots.renumbering.target? 0) <$>
      (Edit.run (.new "top") halfWired).sweep = .ok none := rfl
  have hports : (fun r => (Call.query (.blockPorts ⟨0⟩)).outcome r.1) <$>
      (Edit.run (.new "top") halfWired).sweep = .ok (.ok (.ports [⟨0⟩, ⟨1⟩])) := rfl
  simp only [hsweep, map_ok, Except.ok.injEq] at hmove hgone hports
  have hb : (Edit.run (.new "top") halfWired).Renumbers (⟨0⟩ : BlockId) ⟨0⟩ :=
    ⟨t, es, hsweep, hmove⟩
  obtain ⟨hanswers, -⟩ := hlockstep [(.query (.blockPorts ⟨0⟩), .query (.blockPorts ⟨0⟩))]
    (.query (.blockPorts hb))
  rw [hports] at hanswers
  generalize (Call.query (.blockPorts ⟨0⟩)).outcome u = answer at hanswers
  -- The first port in the list is dead, so no handle of the other side is paired with it.
  cases hanswers with
  | ok hmatch =>
    cases hmatch with
    | ports hlists =>
      cases hlists with
      | cons hp _ =>
        have htarget : t.ports.slots.renumbering.target? 0 = some _ := (renumbers_iff hsweep).1 hp
        simp [hgone] at htarget

end Netlist

end MappedNetlist
