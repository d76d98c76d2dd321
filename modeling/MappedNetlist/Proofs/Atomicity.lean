import MappedNetlist.Proofs.InPlace
import MappedNetlist.Proofs.Invariance

/-!
# Edits in place are atomic

An edit in place that is refused has written nothing, and in a reachable netlist no edit fails for
another reason. So there an edit in place that fails changes nothing, and one that succeeds leaves what
the edit gives.
-/

namespace MappedNetlist.Netlist

variable {n : Netlist}

theorem perform_of_ok {e : Edit} {r : Edited} (h : e.apply n = .ok r) :
    e.perform n = .ok (r.found, r.events) r.netlist := by
  have hdoes := e.perform_does n
  rw [h] at hdoes
  exact hdoes

theorem perform_of_refused {e : Edit} {err : EditError} (h : e.apply n = .error (.refused err)) :
    e.perform n = .error (.refused err) n := by
  have hdoes := e.perform_does n
  rw [h] at hdoes
  exact hdoes

/-- In a reachable netlist an edit in place fails exactly if it is refused, with the error that it is
refused with, and leaves the netlist as it was. The edit that gives a new netlist fails for the same
reasons, and where it succeeds, the edit in place tells and leaves the same. -/
theorem perform_fails_iff_refused (hn : n.Reachable) (e : Edit) :
    (∀ (err : Failure) (m : Netlist),
      e.perform n = .error err m ↔ m = n ∧ ∃ r, err = .refused r ∧ e.Refused n r) ∧
    (∀ err : Failure, e.apply n = .error err ↔ ∃ r, err = .refused r ∧ e.Refused n r) ∧
    ∀ r : Edited, e.apply n = .ok r ↔ e.perform n = .ok (r.found, r.events) r.netlist := by
  have hc := hn.consistent
  refine ⟨fun err m => ⟨fun h => ?_, ?_⟩, fun err => hc.apply_eq_error_iff,
    fun r => ⟨perform_of_ok, fun h => ?_⟩⟩
  · rcases settles hc e with ⟨r, hr⟩ | ⟨r, hr, -⟩
    · rw [perform_of_refused (apply_of_refused hc hr)] at h
      cases h
      exact ⟨rfl, r, rfl, hr⟩
    · rw [perform_of_ok hr] at h
      cases h
  · rintro ⟨rfl, r, rfl, hr⟩
    exact perform_of_refused (apply_of_refused hc hr)
  · rcases settles hc e with ⟨err, herr⟩ | ⟨q, hq, -⟩
    · rw [perform_of_refused (apply_of_refused hc herr)] at h
      cases h
    · rw [perform_of_ok hq] at h
      cases q
      cases r
      cases h
      exact hq

/-- The bits of a port of width two, the first of which drives a net. -/
def oneDriver : List Edit :=
  [.createBlock "a" { name := "src", ports := [.output "out" 2] } [], .createPort ⟨0⟩ "out",
    .createNet "x", .createPin ⟨0⟩ 0 (some ⟨0⟩) .driver]

theorem perform_secondDriver :
    (Edit.createPin ⟨0⟩ 1 (some ⟨0⟩) .driver).perform (Edit.run (.new "top") oneDriver) =
      .error (.refused (.driverConflict ⟨0⟩ ⟨0⟩)) (Edit.run (.new "top") oneDriver) :=
  ((perform_fails_iff_refused ((Reachable.new "top").run oneDriver) _).1 _ _).2
    ⟨rfl, _, rfl, .secondDriver rfl rfl⟩

end MappedNetlist.Netlist
