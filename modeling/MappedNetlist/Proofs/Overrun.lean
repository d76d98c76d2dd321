import MappedNetlist.Netlist.Damage
import MappedNetlist.Proofs.Invariance
import MappedNetlist.Proofs.Verdict

/-!
# Where verification has no verdict

The check of a pin looks at the slot of its bit as soon as the bit is below the width of the port,
though the row of the port may be shorter than the width (`Netlist.Overruns`). No other read of
verification can go wrong: it faults exactly at the first live pin that overruns the row of its
port, and only if the columns are sized, for otherwise it does not get to the pins
(`violations_eq_error_iff`). Where there is a verdict, a row that is not as long as the width is in
it.
-/

namespace MappedNetlist

section Collect

variable {α β : Type} {find : α → Except Fault (List β)} {as : List α} {found : List β} {a : α}

/-- A search through a list fails at the first entry at which it fails. -/
theorem collect_eq_error_iff {f : Fault} :
    collect find as = .error f ↔ ∃ before a after, as = before ++ a :: after ∧
      (∀ b ∈ before, ∃ bs, find b = .ok bs) ∧ find a = .error f := by
  induction as with
  | nil => simp
  | cons a as ih =>
    rw [collect]
    cases ha : find a with
    | error g =>
      rw [error_bind]
      constructor
      · rintro ⟨⟩
        exact ⟨[], a, as, rfl, List.forall_mem_nil _, ha⟩
      · rintro ⟨before, b, after, heq, hbefore, hb⟩
        cases before with
        | nil =>
          cases heq
          exact ha.symm.trans hb
        | cons c before =>
          cases heq
          obtain ⟨bs, hbs⟩ := hbefore a List.mem_cons_self
          cases ha.symm.trans hbs
    | ok bs =>
      have hlater : (do return (← Except.ok bs) ++ (← collect find as)) = Except.error f ↔
          collect find as = .error f := by
        cases collect find as <;> simp
      rw [hlater, ih]
      constructor
      · rintro ⟨before, b, after, rfl, hbefore, hb⟩
        exact ⟨a :: before, b, after, rfl, List.forall_mem_cons.2 ⟨⟨bs, ha⟩, hbefore⟩, hb⟩
      · rintro ⟨before, b, after, heq, hbefore, hb⟩
        cases before with
        | nil =>
          cases heq
          cases ha.symm.trans hb
        | cons c before =>
          cases heq
          exact ⟨before, b, after, rfl, (List.forall_mem_cons.1 hbefore).2, hb⟩

/-- What is found for an entry is among what is found in the list. -/
theorem exists_subset_of_collect (h : collect find as = .ok found) (ha : a ∈ as) :
    ∃ bs, find a = .ok bs ∧ bs ⊆ found := by
  induction as generalizing found with
  | nil => cases ha
  | cons c as ih =>
    obtain ⟨first, later, hfirst, hlater, rfl⟩ := collect_cons_eq_ok_iff.1 h
    rcases List.mem_cons.1 ha with rfl | ha
    · exact ⟨first, hfirst, List.subset_append_left first later⟩
    · obtain ⟨bs, hbs, hsub⟩ := ih hlater ha
      exact ⟨bs, hbs, List.subset_append_of_subset_right first hsub⟩

end Collect

namespace Netlist

variable {n : Netlist} {i : PinId} {r : PinRecord} {q : PortRecord} {f : Fault}

/-- The pin tells of a bit within the width of its port, for which the port's row has no slot. -/
structure Overruns (n : Netlist) (i : PinId) (r : PinRecord) (q : PortRecord) : Prop where
  pin : n.store.pins i = some r
  port : n.store.ports r.port = some q
  within : r.bit < q.width
  beyond : q.pins.length ≤ r.bit

/-- The fault of the first live pin that overruns the row of its port. -/
def FirstOverrun (n : Netlist) (f : Fault) : Prop :=
  ∃ before i after r q, n.live .pin = before ++ i :: after ∧
    (∀ j ∈ before, ∀ r' q', ¬n.Overruns j r' q') ∧ n.Overruns i r q ∧
    f = .outOfBounds q.pins.length r.bit

theorem readable_iff : n.Readable ↔ ∀ i r q, ¬n.Overruns i r q := by
  constructor
  · intro h i r q hover
    exact Nat.not_lt.2 hover.beyond (h hover.pin hover.port hover.within)
  · intro h i r q hr hq hbit
    by_contra hlt
    exact h i r q ⟨hr, hq, hbit, Nat.not_lt.1 hlt⟩

section Sized

variable (hn : n.Sized)
include hn

theorem checkPlace_of_overruns (h : n.Overruns i r q) :
    n.checkPlace i = .error (.outOfBounds q.pins.length r.bit) := by
  have hl : n.IsLive r.port := hn.isLive_port_iff.2 ⟨q, h.port⟩
  have hslot : readSlot q.pins r.bit = .error (.outOfBounds q.pins.length r.bit) := by
    rw [readSlot, List.getElem?_eq_none h.beyond]
  simp only [checkPlace, Pins.read_ports h.pin, Pins.read_bits h.pin, ok_bind, hl, if_true,
    Ports.read_widths h.port, h.within, Ports.read_pins h.port, hslot, error_bind]

theorem checkPin_of_overruns (h : n.Overruns i r q) :
    n.checkPin i = .error (.outOfBounds q.pins.length r.bit) := by
  rw [checkPin, checkPlace_of_overruns hn h, error_bind]

/-- The check of a live pin fails only where the pin overruns the row of its port. -/
theorem exists_checkPin_iff (hi : n.IsLive i) :
    (∃ vs, n.checkPin i = .ok vs) ↔ ∀ r q, ¬n.Overruns i r q := by
  constructor
  · rintro ⟨vs, hvs⟩ r q hover
    cases (checkPin_of_overruns hn hover).symm.trans hvs
  · intro h
    obtain ⟨r, hr⟩ := hn.isLive_pin_iff.1 hi
    refine exists_checkPin hn hr fun q hq hbit => ?_
    by_contra hlt
    exact h r q ⟨hr, hq, hbit, Nat.not_lt.1 hlt⟩

theorem checkPin_eq_error_iff (hi : n.IsLive i) :
    n.checkPin i = .error f ↔ ∃ r q, n.Overruns i r q ∧ f = .outOfBounds q.pins.length r.bit := by
  constructor
  · intro hf
    by_contra h
    have hnone : ∀ r q, ¬n.Overruns i r q := fun r q hover => by
      cases (checkPin_of_overruns hn hover).symm.trans hf
      exact h ⟨r, q, hover, rfl⟩
    obtain ⟨vs, hvs⟩ := (exists_checkPin_iff hn hi).2 hnone
    cases hvs.symm.trans hf
  · rintro ⟨r, q, hover, rfl⟩
    exact checkPin_of_overruns hn hover

/-- Of the four searches for broken references only that of the pins can fail. -/
theorem checkReferences_eq_error_iff : n.checkReferences = .error f ↔ n.FirstOverrun f := by
  obtain ⟨blocks, hblocks⟩ := exists_checkBlocks hn
  obtain ⟨ports, hports⟩ := exists_checkPorts hn
  obtain ⟨nets, hnets⟩ := exists_checkNets hn
  have hpins : n.checkReferences = .error f ↔
      collect n.checkPin (n.live .pin) = .error f := by
    rw [checkReferences, hblocks, hports, hnets]
    cases collect n.checkPin (n.live .pin) <;> simp
  rw [hpins, collect_eq_error_iff, FirstOverrun]
  constructor
  · rintro ⟨before, i, after, hlive, hbefore, hi⟩
    have hmem (j : PinId) (hj : j ∈ before ++ i :: after) : n.IsLive j :=
      hn.mem_live_iff.1 (hlive ▸ hj)
    obtain ⟨r, q, hover, hf⟩ := (checkPin_eq_error_iff hn (hmem i (by simp))).1 hi
    exact ⟨before, i, after, r, q, hlive, fun j hj =>
      (exists_checkPin_iff hn (hmem j (by simp [hj]))).1 (hbefore j hj), hover, hf⟩
  · rintro ⟨before, i, after, r, q, hlive, hbefore, hover, rfl⟩
    have hmem (j : PinId) (hj : j ∈ before ++ i :: after) : n.IsLive j :=
      hn.mem_live_iff.1 (hlive ▸ hj)
    exact ⟨before, i, after, hlive, fun j hj =>
      (exists_checkPin_iff hn (hmem j (by simp [hj]))).2 (hbefore j hj),
      checkPin_of_overruns hn hover⟩

end Sized

theorem violations_eq_error_iff : n.violations = .error f ↔ n.Sized ∧ n.FirstOverrun f := by
  by_cases hsizes : n.checkSizes = []
  · have hn := checkSizes_eq_nil_iff.1 hsizes
    obtain ⟨index, hindex⟩ := exists_checkIndex hn
    rw [← checkReferences_eq_error_iff hn, violations]
    simp only [hsizes, if_true, hindex]
    cases n.checkReferences <;> simp [hn]
  · have hn : ¬n.Sized := fun h => hsizes (checkSizes_eq_nil_iff.2 h)
    simp [violations, hsizes, hn]

/-- The violations can be found exactly if the rows can be read, or no row is looked at. -/
theorem exists_violations_iff : (∃ vs, n.violations = .ok vs) ↔ (n.Sized → n.Readable) := by
  refine ⟨?_, exists_violations⟩
  rintro ⟨vs, hvs⟩ hn
  rw [violations, if_pos (checkSizes_eq_nil_iff.2 hn)] at hvs
  obtain ⟨references, hreferences, -⟩ := bind_eq_ok_iff.1 hvs
  obtain ⟨_, _, hports⟩ := bind_eq_ok_iff.1 hreferences
  obtain ⟨_, _, hpins⟩ := bind_eq_ok_iff.1 hports
  obtain ⟨pins, hpins, -⟩ := bind_eq_ok_iff.1 hpins
  refine readable_iff.2 fun i r q hover => ?_
  have hi : n.IsLive i := hn.isLive_pin_iff.2 ⟨r, hover.pin⟩
  obtain ⟨found, hfound, -⟩ := exists_subset_of_collect hpins (hn.mem_live_iff.2 hi)
  exact (exists_checkPin_iff hn hi).1 ⟨found, hfound⟩ r q hover

/-! ## Rows of another length -/

/-- What the check of ports reports about a row that is not as long as the width says. -/
def unevenRow (p : PortId) (r : PortRecord) : Violation :=
  badReference p (toString r.pins.length ++ " pin slots for width " ++ toString r.width)

theorem unevenRow_mem_of_checkPort {p : PortId} {r : PortRecord} {vs : List Violation}
    (hr : n.store.ports p = some r) (h : r.pins.length ≠ r.width) (hvs : n.checkPort p = .ok vs) :
    unevenRow p r ∈ vs := by
  obtain ⟨owner, -, hvs⟩ := bind_eq_ok_iff.1 hvs
  rw [Ports.read_widths hr, ok_bind, Ports.read_pins hr, ok_bind] at hvs
  obtain ⟨bits, -, hvs⟩ := bind_eq_ok_iff.1 hvs
  cases hvs
  rw [expect, if_neg h]
  exact List.mem_append_left _ (List.mem_append_right _ List.mem_cons_self)

/-- A row that is not as long as the width is among the violations, if they are found at all. -/
theorem Sized.unevenRow_mem (hn : n.Sized) {p : PortId} {r : PortRecord} {vs : List Violation}
    (hr : n.store.ports p = some r) (h : r.pins.length ≠ r.width) (hvs : n.violations = .ok vs) :
    unevenRow p r ∈ vs := by
  rw [violations, checkSizes_eq_nil_iff.2 hn] at hvs
  obtain ⟨references, hreferences, hvs⟩ := bind_eq_ok_iff.1 hvs
  obtain ⟨index, -, hvs⟩ := bind_eq_ok_iff.1 hvs
  cases hvs
  refine List.mem_append_left _ (List.mem_append_left _ ?_)
  obtain ⟨blocks, -, hreferences⟩ := bind_eq_ok_iff.1 hreferences
  obtain ⟨ports, hports, hreferences⟩ := bind_eq_ok_iff.1 hreferences
  obtain ⟨pins, -, hreferences⟩ := bind_eq_ok_iff.1 hreferences
  obtain ⟨nets, -, hreferences⟩ := bind_eq_ok_iff.1 hreferences
  cases hreferences
  obtain ⟨found, hfound, hsub⟩ := exists_subset_of_collect hports
    (hn.mem_live_iff.2 (hn.isLive_port_iff.2 ⟨r, hr⟩))
  have hmem := hsub (unevenRow_mem_of_checkPort hr h hfound)
  exact List.mem_append_left _ (List.mem_append_left _ (List.mem_append_right _ hmem))

/-! ## The verdict -/

theorem verify_eq_error_iff_violations : n.verify = .error f ↔ n.violations = .error f := by
  rw [verify]
  cases n.violations with
  | error g => simp
  | ok vs => cases vs <;> simp

/-- A verdict is there once the violations are found. -/
theorem exists_verdict_iff_violations :
    (∃ verdict, n.verify = .ok verdict) ↔ ∃ vs, n.violations = .ok vs := by
  rw [verify]
  cases n.violations with
  | error g => simp
  | ok vs => cases vs <;> simp

/-- A verdict reports every violation that was found. -/
theorem exists_report_of_mem {v : Violation} {vs : List Violation} (hvs : n.violations = .ok vs)
    (hv : v ∈ vs) {found : Option Inconsistency} {events : List Event}
    (h : n.verify = .ok (found, events)) :
    ∃ report, found = some report ∧ v ∈ report.violations := by
  rw [verify, hvs, ok_bind] at h
  cases vs with
  | nil => cases hv
  | cons w vs =>
    cases h
    exact ⟨_, rfl, hv⟩

/-- Verification comes to a verdict exactly if the rows can be read, or the columns are not even
sized. Otherwise it faults at the first pin that overruns its row. Where it comes to a verdict on
sized columns, it reports each row that is not as long as the width. -/
theorem verify_verdict_iff (n : Netlist) :
    ((∃ verdict, n.verify = .ok verdict) ↔ (n.Sized → n.Readable)) ∧
    (∀ f, n.verify = .error f ↔ n.Sized ∧ n.FirstOverrun f) ∧
    ∀ found events, n.verify = .ok (found, events) → n.Sized →
      ∀ p r, n.store.ports p = some r → r.pins.length ≠ r.width →
        ∃ report, found = some report ∧ unevenRow p r ∈ report.violations := by
  refine ⟨exists_verdict_iff_violations.trans exists_violations_iff,
    fun f => verify_eq_error_iff_violations.trans violations_eq_error_iff, ?_⟩
  intro found events hverify hn p r hr huneven
  obtain ⟨vs, hvs⟩ := exists_verdict_iff_violations.1 ⟨_, hverify⟩
  exact exists_report_of_mem hvs (hn.unevenRow_mem hr huneven hvs) hverify

/-- A buffer with a pin at its only input. -/
def oneSink : List Edit :=
  [.createBlock "a" { name := "buf", ports := [.input "in" 1] } [], .createPort ⟨0⟩ "in",
    .createPin ⟨0⟩ 0 none .sink]

/-- The row of the input gets a slot more than the width says, which is reported. -/
theorem verify_verdict_lengthenedRow :
    ∃ found events report r, ((Edit.run (.new "top") oneSink).damage
        (.column .portPins (.set 0 [some ⟨0⟩, none]))).verify = .ok (found, events) ∧
      found = some report ∧ r.pins.length ≠ r.width ∧ unevenRow ⟨0⟩ r ∈ report.violations := by
  have hsized : ((Edit.run (.new "top") oneSink).damage
      (.column .portPins (.set 0 [some ⟨0⟩, none]))).Sized := checkSizes_eq_nil_iff.1 rfl
  obtain ⟨-, -, hreport⟩ := verify_verdict_iff ((Edit.run (.new "top") oneSink).damage
      (.column .portPins (.set 0 [some ⟨0⟩, none])))
  obtain ⟨report, hfound, hmem⟩ := hreport _ _ rfl hsized ⟨0⟩ _ rfl (by decide)
  exact ⟨_, _, report, _, rfl, hfound, by decide, hmem⟩

/-- The row of the input is emptied: the pin still stands at bit 0 of the width 1, and nothing is
reported. -/
theorem verify_faults_emptiedRow :
    (Edit.run (.new "top") oneSink).verify = .ok (none, []) ∧
    ((Edit.run (.new "top") oneSink).damage (.column .portPins (.set 0 []))).verify =
      .error (.outOfBounds 0 0) := by
  have hn := ((Reachable.new "top").run oneSink).consistent
  have hsized : ((Edit.run (.new "top") oneSink).damage (.column .portPins (.set 0 []))).Sized :=
    checkSizes_eq_nil_iff.1 rfl
  refine ⟨hn.verify_eq_ok, verify_eq_error_iff_violations.2 (violations_eq_error_iff.2 ?_)⟩
  exact ⟨hsized, [], ⟨0⟩, [], _, _, rfl, List.forall_mem_nil _,
    ⟨rfl, rfl, by decide, by decide⟩, rfl⟩

end Netlist

end MappedNetlist
