import MappedNetlist.Proofs.Atomicity
import MappedNetlist.Proofs.Counters

/-!
# Verified netlists stay verified

An edit in place of a consistent netlist is refused and has written nothing, or it succeeds and leaves a
consistent netlist. Only a checked counter that runs over makes it fault. So verification finds nothing
after any edits of a netlist in which it finds nothing, whether that netlist was made by edits or not.
-/

namespace MappedNetlist

variable {n m : Netlist} {a : Arithmetic}

namespace Edit

/-- In any netlist and however counters add, an edit in place tells and leaves what the edit gives. -/
theorem performWith_does (a : Arithmetic) (n : Netlist) (e : Edit) : (e.performWith a).Does n
    (e.applyWith a n >>= fun r => pure ((r.found, r.events), r.netlist)) := by
  have hdoes := e.perform_does n
  cases e with
  | sweep =>
    simp only [applyWith, bind_assoc, pure_bind]
    exact Procedure.drop_does
  | compact =>
    simp only [applyWith, bind_assoc, pure_bind]
    exact Procedure.drop_does
  | _ => exact hdoes

/-- What edits in place leave one after the other. A refusal stops none of those that follow, and a fault
stops them all. -/
def performAll (a : Arithmetic) (n : Netlist) : List Edit → Except Fault Netlist
  | [] => .ok n
  | e :: es =>
    match e.performWith a n with
    | .ok _ m => performAll a m es
    | .error (.refused _) m => performAll a m es
    | .error (.fault f) _ => .error f

/-- The counters of every edit hold what it counts, or may wrap. -/
def AllCountsFit (a : Arithmetic) (n : Netlist) : List Edit → Prop
  | [] => True
  | e :: es => e.CountsFit a n ∧ AllCountsFit a (e.after n) es

end Edit

namespace Netlist

/-- An edit in place is refused without a trace, or it leaves what the edit gives. -/
theorem Consistent.performs (hn : n.Consistent) {e : Edit} (hfit : e.CountsFit a n) :
    (∃ err, e.performWith a n = .error (.refused err) n ∧ e.after n = n) ∨
      ∃ reply, e.performWith a n = .ok reply (e.after n) := by
  have hdoes := e.performWith_does a n
  rw [(hn.applyWith_eq a e).1 hfit] at hdoes
  rcases hn.keeps_apply e with ⟨err, herr⟩ | ⟨r, hr, -⟩
  · rw [herr] at hdoes
    exact .inl ⟨err, hdoes, Edit.after_of_error herr⟩
  · rw [hr] at hdoes
    rw [Edit.after_of_ok hr]
    exact .inr ⟨_, hdoes⟩

theorem Consistent.performs_overflow (hn : n.Consistent) {e : Edit} (hfit : ¬e.CountsFit a n) :
    ∃ m, e.performWith a n = .error (.fault .overflow) m := by
  have hdoes := e.performWith_does a n
  rwa [(hn.applyWith_eq a e).2 hfit] at hdoes

/-- Edits in place leave what their history gives, unless a checked counter runs over. -/
theorem Consistent.performAll_eq (hn : n.Consistent) {es : List Edit} (hfit : Edit.AllCountsFit a n es) :
    Edit.performAll a n es = .ok (Edit.run n es) := by
  induction es generalizing n with
  | nil => rfl
  | cons e es ih =>
    obtain ⟨he, hes⟩ := hfit
    rw [Edit.performAll, Edit.run_cons, ← ih (hn.after e) hes]
    rcases hn.performs he with ⟨err, herr, hafter⟩ | ⟨reply, hreply⟩
    · rw [herr, hafter]
    · rw [hreply]

/-- The procedure is refused and leaves the netlist as it was, or it succeeds and verification finds nothing
in what it leaves. -/
def LeavesVerified (x : Procedure Reply) (n : Netlist) : Prop :=
  (∃ err, x n = .error (.refused err) n) ∨ ∃ reply m, x n = .ok reply m ∧ m.verify = .ok (none, [])

theorem Consistent.leavesVerified (hn : n.Consistent) {e : Edit} (hfit : e.CountsFit a n) :
    LeavesVerified (e.performWith a) n := by
  rcases hn.performs hfit with ⟨err, herr, -⟩ | ⟨reply, hreply⟩
  · exact .inl ⟨err, herr⟩
  · exact .inr ⟨reply, _, hreply, (hn.after e).verify_eq_ok⟩

/-- If verification finds nothing in a netlist, no edit of it faults, and verification finds nothing in
what the edit leaves, be it refused or not. Where counters are checked, the edits that fault are those that
count more than a counter holds. So verification never finds anything in the history of such a netlist, and
a new netlist is one. -/
theorem verify_invariant :
    (∀ n : Netlist, n.verify = .ok (none, []) → ∀ e : Edit,
      (∀ f, e.apply n ≠ .error (.fault f)) ∧ (e.after n).verify = .ok (none, []) ∧
      LeavesVerified e.perform n ∧
      ∀ a, (e.CountsFit a n → LeavesVerified (e.performWith a) n) ∧
        (¬e.CountsFit a n → ∃ m, e.performWith a n = .error (.fault .overflow) m)) ∧
    (∀ n : Netlist, n.verify = .ok (none, []) → ∀ es : List Edit,
      (Edit.run n es).verify = .ok (none, []) ∧
      ∀ a, Edit.AllCountsFit a n es → Edit.performAll a n es = .ok (Edit.run n es)) ∧
    ∀ name : String, (Netlist.new name).verify = .ok (none, []) := by
  refine ⟨fun n hn e => ?_, fun n hn es => ?_, fun name => (consistent_new name).verify_eq_ok⟩
  · have hc := consistent_of_verify hn
    have hperform := hc.leavesVerified (e.countsFit_wrapping n)
    rw [e.performWith_wrapping] at hperform
    exact ⟨(hc.keeps_apply e).ne_fault, (hc.after e).verify_eq_ok, hperform,
      fun a => ⟨hc.leavesVerified, hc.performs_overflow⟩⟩
  · have hc := consistent_of_verify hn
    exact ⟨(hc.run es).verify_eq_ok, fun a => hc.performAll_eq⟩

/-- Of three blocks on a net, the second one is removed. -/
def oneGone : List Edit :=
  let buffer : Model := { name := "buf", ports := [.input "i" 1, .output "o" 1] }
  [.createBlock "a" buffer [], .createBlock "b" buffer [], .createBlock "c" buffer [],
    .createPort ⟨0⟩ "o", .createPort ⟨1⟩ "i", .createPort ⟨2⟩ "i", .createPort ⟨2⟩ "o", .createNet "x",
    .createPin ⟨0⟩ 0 (some ⟨0⟩) .driver, .createPin ⟨1⟩ 0 (some ⟨0⟩) .sink,
    .createPin ⟨2⟩ 0 (some ⟨0⟩) .sink, .removeBlock ⟨1⟩]

/-- The block that is removed lists a port that was never issued and one of another block, and its port and
its pin refer to entities that never were. No edits lead there. -/
def ghost : Netlist :=
  let n := Edit.run (.new "top") oneGone
  { n with
    blocks := { n.blocks with inputs := n.blocks.inputs.setIfInBounds 1 [⟨7⟩, ⟨0⟩] }
    ports := { n.ports with
      owners := n.ports.owners.setIfInBounds 1 ⟨9⟩
      widths := n.ports.widths.setIfInBounds 1 5 }
    pins := { n.pins with
      ports := n.pins.ports.setIfInBounds 1 ⟨40⟩
      nets := n.pins.nets.setIfInBounds 1 (some ⟨8⟩) } }

theorem verify_compact_ghost : ghost.verify = .ok (none, []) ∧
    ghost.living = { blocks := 2, ports := 3, pins := 2, nets := 1 } ∧
    Edit.compact.CountsFit .checked ghost ∧
    (∃ reply m, Edit.compact.performWith .checked ghost = .ok reply m ∧ m.verify = .ok (none, [])) ∧
    ∃ m, Edit.performAll .checked ghost [.compact, .removePin ⟨0⟩, .sweep] = .ok m ∧
      m.verify = .ok (none, []) := by
  have hghost : ghost.verify = .ok (none, []) := by decide +kernel
  have hfit : Edit.compact.CountsFit .checked ghost := by
    refine .inr ?_
    decide +kernel
  have hfits : Edit.AllCountsFit .checked ghost [.compact, .removePin ⟨0⟩, .sweep] := by
    refine ⟨hfit, trivial, .inr ?_, trivial⟩
    decide +kernel
  refine ⟨hghost, by decide +kernel, hfit, ?_, ?_⟩
  · obtain ⟨-, -, -, hchecked⟩ := verify_invariant.1 ghost hghost .compact
    rcases (hchecked .checked).1 hfit with ⟨err, herr⟩ | h
    · -- a compaction has no test to fail
      simp only [Edit.performWith, Procedure.drop] at herr
      split at herr <;> cases herr
    · exact h
  · obtain ⟨hverify, hperform⟩ := verify_invariant.2.1 ghost hghost [.compact, .removePin ⟨0⟩, .sweep]
    exact ⟨_, hperform .checked hfits, hverify⟩

end Netlist

end MappedNetlist
