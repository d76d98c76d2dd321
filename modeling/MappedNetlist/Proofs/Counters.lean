import Mathlib.Data.List.Nodup
import MappedNetlist.Proofs.Reporting

/-!
# Counters

A sweep counts what it removes in two counters of 32 bits and adds them up in the end. The sum is the
number of entities that it takes (`Netlist.unusedCount`). While this fits into a counter, sweeps,
compactions and all other edits do the same with checked counters as with wrapping ones. Beyond that a
checked counter runs over, and nothing else makes an edit of a consistent netlist fault
(`Consistent.applyWith_eq`).
-/

namespace MappedNetlist

@[simp] theorem removals_map (k l : Kind) (xs : List (Handle l)) :
    removals k (xs.map (.removed l)) = if k = l then xs.length else 0 := by
  rw [removals, List.countP_map]
  split
  · next h => exact List.countP_eq_length.2 fun x _ => decide_eq_true h
  · next h => exact List.countP_eq_zero.2 fun x _ hx => h (of_decide_eq_true hx)

variable {n m l : Netlist} {d : Loss} {es : List Event}

namespace Netlist

/-! ## How many entities a sweep removes -/

/-- The events that account for a loss tell each entity that is lost once. -/
theorem Accounts.removals_eq (hn : n.Consistent) (h : n.Accounts m es) (hm : n.Shrinks m d) (k : Kind) :
    removals k es = (n.live k).countP d.takes := by
  have hnodup : (removed k es).Nodup := by
    refine List.nodup_iff_count_le_one.2 fun x => ?_
    have hcount := h.count x
    rw [count_removed]
    split at hcount <;> split at hcount <;> omega
  have hmem (x : Handle k) : x ∈ removed k es ↔ x ∈ (n.live k).filter d.takes := by
    rw [mem_removed_iff, List.mem_filter, live, Slots.mem_live_iff (hn.sized.placed k)]
    constructor
    · intro hx
      have hl : n.IsLive x := h.isLive_of_mem (hm.issued k) hx
      refine ⟨hl, by_contra fun htakes => h.notMem_of_isLive ?_ hx⟩
      exact (hm.isLive_iff hn.sized).2 ⟨hl, by simpa using htakes⟩
    · rintro ⟨hl, htakes⟩
      refine by_contra fun hx => ?_
      have hkept := ((hm.isLive_iff hn.sized).1 (h.isLive_of_notMem hl hx)).2
      exact Bool.noConfusion (htakes.symm.trans hkept)
  have hfilter : ((n.live k).filter d.takes).Nodup := (Slots.nodup_live (hn.sized.placed k)).filter _
  rw [← length_removed, List.countP_eq_length_filter]
  exact ((List.perm_ext_iff_of_nodup hnodup hfilter).2 hmem).length_eq

/-- How many ports and blocks a sweep removes. -/
def unusedCount (n : Netlist) : Nat :=
  (n.live .port).countP n.store.unused.takes + (n.live .block).countP n.store.unused.takes

section

variable {a : Arithmetic} {ps : List PortId} {bs : List BlockId} {rest : List Event}

theorem Passes.removals_rest (h : Passes a n l m ps bs rest) (k : Kind) : removals k rest = 0 := by
  refine List.countP_eq_zero.2 fun e he => ?_
  cases e with
  | removed k' x => exact absurd he (notMem_sweepReport h.report x)
  | _ => simp [Event.isRemoval]

theorem Passes.unusedCount_eq (h : Passes a n l m ps bs rest) (hn : n.Consistent)
    (hm : n.Shrinks m n.store.unused) : n.unusedCount = ps.length + bs.length := by
  have hports : ps.length = (n.live .port).countP n.store.unused.takes := by
    simpa [h.removals_rest] using h.accounts.removals_eq hn hm .port
  have hblocks : bs.length = (n.live .block).countP n.store.unused.takes := by
    simpa [h.removals_rest] using h.accounts.removals_eq hn hm .block
  rw [unusedCount, hports, hblocks]

end

/-! ## Checked counters -/

/-- Counting what steps remove one by one faults exactly if the number does not fit. -/
theorem tryEach_checked {k : Kind}
    {step : Netlist → Nat → Except Fault (Option (Netlist × List Event))} (hstep : RemovesOne k step)
    (hn : n.Consistent) {is : List Nat} {c : Nat} (hc : c < counterLimit) {count : Int32}
    (h : tryEach .wrapping step n (.ofNat c) is = .ok (m, es, count)) :
    tryEach .checked step n (.ofNat c) is =
      if c + es.length < counterLimit then .ok (m, es, count) else .error .overflow := by
  induction is generalizing n es c with
  | nil =>
    cases h
    rw [List.length_nil, Nat.add_zero, if_pos hc]
    rfl
  | cons i is ih =>
    obtain ⟨r, hr, h⟩ := bind_eq_ok_iff.1 h
    rw [tryEach, hr, ok_bind]
    cases r with
    | none => exact ih hn hc h
    | some r =>
      obtain ⟨l, now⟩ := r
      obtain ⟨next, hnext, h⟩ := bind_eq_ok_iff.1 h
      obtain ⟨⟨m', later, count'⟩, hlater, h⟩ := bind_eq_ok_iff.1 h
      cases h
      obtain ⟨⟨x, rfl⟩, hl⟩ := hstep hn hr
      have hsucc : Int32.ofNat c + 1 = .ofNat (c + 1) := (Int32.ofNat_add c 1).symm
      rw [← Except.ok.inj hnext, hsucc] at hlater
      have hadd : Arithmetic.checked.add (.ofNat c) 1 = _ := Arithmetic.checked_add_ofNat hc (by decide)
      have hlength : c + ([Event.removed k x] ++ later).length = c + 1 + later.length := by
        rw [List.length_append, ← Nat.add_assoc]
        rfl
      simp only [hadd, hlength]
      by_cases hfit : c + 1 < counterLimit
      · rw [if_pos hfit, ok_bind, ih hl.consistent hfit hlater]
        split <;> rfl
      · rw [if_neg hfit, if_neg (by omega)]
        rfl

/-- A sum that a counter holds is positive unless it is zero. -/
theorem counters_pos_iff {ports blocks : Nat} (h : ports + blocks < counterLimit) :
    0 < Int32.ofNat ports + Int32.ofNat blocks ↔ ¬(ports = 0 ∧ blocks = 0) := by
  rw [← Int32.ofNat_add, Int32.lt_iff_toInt_lt, Int32.toInt_ofNat_of_lt h, Int32.toInt_zero]
  omega

/-- Adding up counters that are checked faults exactly if the sum does not fit. -/
theorem sweepReport_checked {ports blocks : Nat} (hports : ports < counterLimit)
    (hblocks : blocks < counterLimit) : sweepReport .checked (.ofNat ports) (.ofNat blocks) =
      if ports + blocks < counterLimit then sweepReport .wrapping (.ofNat ports) (.ofNat blocks)
      else .error .overflow := by
  rw [sweepReport, sweepReport, Arithmetic.checked_add_ofNat hports hblocks]
  split
  · rw [Arithmetic.add, Int32.ofNat_add]
  · rfl

/-- With checked counters a sweep does the same, or it faults because their sum does not fit. -/
theorem Consistent.sweepWith_checked (hn : n.Consistent) : n.sweepWith .checked =
    if n.unusedCount < counterLimit then n.sweep else .error .overflow := by
  obtain ⟨m, es, hsweep, hm⟩ := exists_sweep hn
  obtain ⟨l, ps, bs, rest, h, rfl⟩ := exists_passes hn hsweep
  have hports : tryEach .checked sweepPort n 0 _ = _ :=
    tryEach_checked removesOne_sweepPort hn (by decide) h.ports
  have hblocks : tryEach .checked sweepBlock l 0 _ = _ :=
    tryEach_checked removesOne_sweepBlock h.consistent (by decide) h.blocks
  rw [List.length_map, Nat.zero_add] at hports hblocks
  rw [h.unusedCount_eq hn hm, hsweep, sweepWith, hports]
  by_cases hp : ps.length < counterLimit
  · rw [if_pos hp, ok_bind]
    simp only [hblocks]
    by_cases hb : bs.length < counterLimit
    · rw [if_pos hb, ok_bind, sweepReport_checked hp hb, h.report]
      split <;> rfl
    · rw [if_neg hb, if_neg (by omega)]
      rfl
  · rw [if_neg hp, if_neg (by omega)]
    rfl

theorem Consistent.compactWith_checked (hn : n.Consistent) : n.compactWith .checked =
    if n.unusedCount < counterLimit then n.compact else .error .overflow := by
  rw [compactWith, hn.sweepWith_checked]
  split <;> rfl

/-! ## Edits -/

end Netlist

/-- The counters of an edit hold what it counts, or may wrap. -/
def Edit.CountsFit (a : Arithmetic) (n : Netlist) : Edit → Prop
  | sweep | compact => a = .wrapping ∨ n.unusedCount < counterLimit
  | _ => True

theorem Edit.countsFit_wrapping (n : Netlist) (e : Edit) : e.CountsFit .wrapping n := by
  cases e <;> simp [CountsFit]

/-- However counters add, an edit of a consistent netlist does the same, unless a counter that is checked
cannot hold what the edit counts. -/
theorem Netlist.Consistent.applyWith_eq (hn : n.Consistent) (a : Arithmetic) (e : Edit) :
    (e.CountsFit a n → e.applyWith a n = e.apply n) ∧
      (¬e.CountsFit a n → e.applyWith a n = .error (.fault .overflow)) := by
  cases a with
  | wrapping =>
    exact ⟨fun _ => Edit.applyWith_wrapping n e, fun h => absurd (Edit.countsFit_wrapping n e) h⟩
  | checked =>
    cases e with
    | sweep =>
      simp only [Edit.CountsFit, Edit.applyWith, hn.sweepWith_checked, reduceCtorEq, false_or]
      exact ⟨fun h => by rw [if_pos h]; rfl, fun h => by rw [if_neg h]; rfl⟩
    | compact =>
      simp only [Edit.CountsFit, Edit.applyWith, hn.compactWith_checked, reduceCtorEq, false_or]
      exact ⟨fun h => by rw [if_pos h]; rfl, fun h => by rw [if_neg h]; rfl⟩
    | _ => exact ⟨fun _ => rfl, fun h => absurd trivial h⟩

end MappedNetlist
