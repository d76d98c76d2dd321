import MappedNetlist.Proofs.Counters
import MappedNetlist.Proofs.Tidiness

/-!
# The log accounts for every removal

Where a stretch of a history begins, be it in a new netlist or after a compaction, no handle is retired.
So the log of the stretch, the sweep of the compaction that ends it included, reports exactly the handles
that are retired in the end (`Netlist.Accounted`), and their number is what compaction says that it
reclaimed.
-/

namespace MappedNetlist.Netlist

variable {n m t : Netlist} {es : List Event}

/-! ## Retired handles -/

theorem Tidy.not_isRetired (h : n.Tidy) {k : Kind} {x : Handle k} : ¬n.IsRetired x := by
  rw [isRetired_iff, not_and_not_right]
  exact h.full k x.index

/-- Every handle that was issued is live or retired. -/
theorem Sized.length_add_living (hn : n.Sized) {k : Kind} {xs : List (Handle k)} (hnodup : xs.Nodup)
    (hxs : ∀ x, x ∈ xs ↔ n.IsRetired x) : xs.length + n.living.get k = n.issued.get k := by
  let all : List (Handle k) := (List.range (n.slots k).size).map Handle.mk
  have hall : all.Nodup := (n.slots k).nodup_issued
  have hmem (x : Handle k) : x ∈ all ↔ x.index < (n.slots k).size := by
    cases x
    simp [all]
  have hperm : xs.Perm (all.filter fun x => !decide ((n.slots k).IsLive x)) := by
    refine (List.perm_ext_iff_of_nodup hnodup (hall.filter _)).2 fun x => ?_
    rw [hxs, isRetired_iff, List.mem_filter, hmem]
    simp [IsLive]
  rw [hperm.length_eq, living, issued, Tally.get_of, Tally.get_of, live,
    Slots.live_eq_filter (hn.placed k), Nat.add_comm]
  refine (List.length_eq_length_filter_add _).symm.trans ?_
  simp

/-! ## What compaction reports -/

section

variable {f : StringId → StringId}

theorem Packs.issued (h : t.Packs m f) (k : Kind) : m.issued.get k = t.living.get k := by
  rw [Netlist.issued, living, Tally.get_of, Tally.get_of, h.slots, Slots.size_ofRenumbering,
    Slots.population, live, Slots.live, List.length_filterMap_eq_countP]
  rfl

theorem Packs.living (h : t.Packs m f) (k : Kind) : m.living.get k = t.living.get k := by
  rw [Netlist.living, Netlist.living, Tally.get_of, Tally.get_of, live, h.slots,
    Slots.live_ofRenumbering, Slots.handles_renumbering, List.length_map, List.length_range]
  rfl

theorem Packs.compactReport_eq (h : t.Packs m f) {log : List Event}
    (hlog : ∀ k, removals k log + t.living.get k = n.issued.get k) :
    n.compactReport m = .compacted m.name m.living (.of fun k => removals k log) m.strings.size := by
  have hliving : m.issued = m.living := Tally.ext_get fun k => by rw [h.issued, h.living]
  have hreclaimed (k : Kind) : n.issued.get k - m.living.get k = removals k log := by
    rw [h.living, ← hlog, Nat.add_sub_cancel]
  rw [compactReport, hliving]
  simp only [hreclaimed]

end

/-- The report of the two counters of a sweep. -/
def sweptReport (ports blocks : FieldValue) : Report where
  level := .debug
  message := "swept unused entities"
  fields := [("swept_ports", ports), ("swept_blocks", blocks)]

/-- What a sweep from `n` to `u` reports: the ports that it removes, then the blocks, and then nothing
that is a removal, but the counters if their sum is positive. While these hold how many ports and blocks
there are, it tells the two numbers, unless it has removed nothing. -/
def SweepReported (n u : Netlist) (es : List Event) : Prop :=
  ∃ (ps : List PortId) (bs : List BlockId) (rest : List Event),
    es = ps.map (.removed .port) ++ bs.map (.removed .block) ++ rest ∧
    (∀ k, removals k rest = 0) ∧
    (ps = [] ∧ bs = [] ↔ ∀ {k : Kind} {x : Handle k}, n.IsLive x → u.IsLive x) ∧
    ps.length + bs.length = n.unusedCount ∧
    (rest.map Event.report =
      if 0 < Int32.ofNat ps.length + Int32.ofNat bs.length then
        [sweptReport (.ofCounter (.ofNat ps.length)) (.ofCounter (.ofNat bs.length))]
      else []) ∧
    (n.unusedCount < counterLimit → rest.map Event.report =
      if ps = [] ∧ bs = [] then [] else [sweptReport (.number ps.length) (.number bs.length)])

theorem Consistent.sweepReported (hn : n.Consistent) (h : n.sweep = .ok (m, es)) :
    n.SweepReported m es := by
  obtain ⟨l, fs, hsweep, hl⟩ := exists_sweep hn
  cases hsweep.symm.trans h
  obtain ⟨l', ps, bs, rest, hpasses, rfl⟩ := exists_passes hn h
  have hm := hpasses.accounts
  have hcount := hpasses.unusedCount_eq hn hl
  have hrest := Except.ok.inj (hpasses.report.symm.trans (sweepReport_wrapping ..))
  refine ⟨ps, bs, rest, rfl, hpasses.removals_rest, ⟨?_, fun hkept => ?_⟩, hcount.symm, ?_,
    fun hfit => ?_⟩
  · rintro ⟨rfl, rfl⟩ k x hx
    exact hm.isLive_of_notMem hx (notMem_sweepReport hpasses.report x)
  · have hnil {k : Kind} {xs : List (Handle k)} (hxs : ∀ x ∈ xs, .removed k x ∈
        ps.map (.removed .port) ++ bs.map (.removed .block) ++ rest) : xs = [] := by
      refine List.eq_nil_iff_forall_not_mem.2 fun x hx => ?_
      exact hm.notMem_of_isLive (hkept (hm.isLive_of_mem (hl.issued k) (hxs x hx))) (hxs x hx)
    exact ⟨hnil fun p hp => by simp [hp], hnil fun b hb => by simp [hb]⟩
  · rw [hrest]
    split <;> rfl
  · rw [hcount] at hfit
    have hports : ps.length < counterLimit := by omega
    have hblocks : bs.length < counterLimit := by omega
    simp only [hrest, counters_pos_iff hfit, ite_not, List.length_eq_zero_iff]
    rw [← FieldValue.ofCounter_ofNat hports, ← FieldValue.ofCounter_ofNat hblocks]
    split <;> rfl

/-! ## Stretches -/

/-- The log of a stretch accounts for every removal. The stretch begins at `n` and runs `es`; the sweep of
the compaction that ends it reports `rs` and leaves `t`, and the compaction leaves `m`. -/
structure Accounted (n : Netlist) (es : List Edit) (t m : Netlist) (rs : List Event) : Prop where
  swept : (Edit.run n es).sweep = .ok (t, rs)
  /-- In the end compaction reports how many entities are live, and how many removals were reported. -/
  compacted : ∃ closing : Event,
    Edit.compact.apply (Edit.run n es) = .ok { netlist := m, events := rs ++ [closing] } ∧
    closing.report = {
      level := .debug
      message := "compressed netlist '" ++ m.name ++ "'"
      fields := [("blocks", .number (m.live .block).length), ("ports", .number (m.live .port).length),
        ("pins", .number (m.live .pin).length), ("nets", .number (m.live .net).length),
        ("strings", .number m.strings.size),
        ("reclaimed_blocks", .number (removals .block (Edit.log n es ++ rs))),
        ("reclaimed_ports", .number (removals .port (Edit.log n es ++ rs))),
        ("reclaimed_pins", .number (removals .pin (Edit.log n es ++ rs))),
        ("reclaimed_nets", .number (removals .net (Edit.log n es ++ rs)))] }
  living (k : Kind) : m.living.get k = t.living.get k
  /-- The numbers of what is reclaimed are differences that do not underflow. -/
  reclaimed (k : Kind) :
    m.issued.get k + removals k (Edit.log n es ++ rs) = (Edit.run n es).issued.get k
  nodup (k : Kind) : (removed k (Edit.log n es ++ rs)).Nodup
  /-- Just before the squeeze, the handles that were told are those that were issued and are not live. -/
  told {k : Kind} {x : Handle k} :
    { level := .trace, message := "removed " ++ k.word, fields := [(k.word, .text x.text)] } ∈
      (Edit.log n es ++ rs).map Event.report ↔ x.index < t.issued.get k ∧ ¬t.IsLive x
  /-- What was part of an entity at some time in the stretch is reported before the entity. -/
  ordered {as bs : List Edit} {k l : Kind} {a : Handle k} {b : Handle l} : es = as ++ bs →
    (Edit.run n as).PartOf a b → Precedes (.removed k a) (.removed l b) (Edit.log n es ++ rs)
  /-- Every sweep of the stretch reports what it does. -/
  sweeps {as bs : List Edit} {u : Netlist} {ss : List Event} : es = as ++ bs →
    (Edit.run n as).sweep = .ok (u, ss) → (Edit.run n as).SweepReported u ss
  /-- Counters that are checked make no difference while they hold what is counted. -/
  checked {as bs : List Edit} {e : Edit} : es ++ [.compact] = as ++ e :: bs →
    e.CountsFit .checked (Edit.run n as) → e.applyWith .checked (Edit.run n as) = e.apply (Edit.run n as)

/-- At the beginning of a history and after a compaction nothing is left of removed entities. -/
theorem tidy_of_start (name : String) {history : List Edit}
    (h : history = [] ∨ history.getLast? = some .compact) : (Edit.run (.new name) history).Tidy := by
  refine ((Reachable.new name).run history).tidy ?_
  rcases h with rfl | h
  · rfl
  · obtain ⟨es, rfl⟩ := List.getLast?_eq_some_iff.1 h
    obtain ⟨_, _, m, fs, _, -, -, hcompact, -⟩ := exists_compact ((consistent_new name).run es)
    rw [Edit.run_append, Edit.run_cons, Edit.run_nil,
      Edit.after_of_ok (r := .ofEvents (m, fs)) (by rw [Edit.apply, hcompact]; rfl)]
    exact dirty_of_compact hcompact

/-- In every stretch of a history, from its beginning or from a compaction to the next compaction, the log
accounts for every removal. -/
theorem removals_accounted (name : String) {history es : List Edit}
    (hstart : history = [] ∨ history.getLast? = some .compact) (hes : .compact ∉ es) :
    ∃ t m rs, (Edit.run (.new name) history).Accounted es t m rs := by
  have hn := (consistent_new name).run history
  have hfresh := tidy_of_start name hstart
  generalize Edit.run (.new name) history = n at hn hfresh
  have hrun := hn.accounts_run hes
  obtain ⟨t, rs, m, fs, f, hsweep, hloss, hcompact, hpacks, -⟩ := exists_compact hrun.consistent
  have hrest := accounts_sweep hrun.consistent hsweep
  have ht := hrun.trans hn hrest
  have hcount {k : Kind} (x : Handle k) : (removed k (Edit.log n es ++ rs)).count x =
      if t.IsRetired x then 1 else 0 := by
    rw [count_removed, ← ht.count x, if_neg hfresh.not_isRetired, Nat.zero_add]
  have hnodup (k : Kind) : (removed k (Edit.log n es ++ rs)).Nodup := by
    refine List.nodup_iff_count_le_one.2 fun x => ?_
    rw [hcount]
    split <;> simp
  have hmem {k : Kind} (x : Handle k) : x ∈ removed k (Edit.log n es ++ rs) ↔ t.IsRetired x := by
    rw [← List.count_pos_iff, hcount]
    split <;> simp [*]
  have hlog (k : Kind) : removals k (Edit.log n es ++ rs) + t.living.get k =
      (Edit.run n es).issued.get k := by
    rw [← length_removed, ht.consistent.sized.length_add_living (hnodup k) hmem, issued, issued,
      Tally.get_of, Tally.get_of, hloss.issued]
  refine ⟨t, m, rs, hsweep, ⟨(Edit.run n es).compactReport m, ?_, ?_⟩, hpacks.living, fun k => ?_,
    hnodup, ?_, ?_, ?_, fun _ hfit => ((hn.run _).applyWith_eq _ _).1 hfit⟩
  · obtain ⟨_, _, _, _, hsweep', -, -, -, rfl⟩ := compact_eq_ok_iff.1 hcompact
    cases hsweep.symm.trans hsweep'
    rw [Edit.apply, hcompact]
    rfl
  · rw [hpacks.compactReport_eq hlog]
    rfl
  · rw [hpacks.issued, Nat.add_comm, hlog]
  · intro k x
    rw [← mem_removed_iff_report, hmem]
    rfl
  · rintro as bs k l a b rfl hpart
    have has := hn.accounts_run fun h => hes (List.mem_append_left bs h)
    have hbs := has.consistent.accounts_run fun h => hes (List.mem_append_right as h)
    have hsuffix := hbs.trans has.consistent (Edit.run_append .. ▸ hrest)
    rw [Edit.log_append, List.append_assoc]
    exact (hsuffix.ordered hpart).append_left
      (has.notMem_of_isLive (hpart.isLive has.consistent))
  · rintro as bs u ss rfl hu
    exact (hn.run as).sweepReported hu

/-- A block with a pin and a removed net, compacted. -/
def wiredOnce : List Edit :=
  [.createBlock "a" { name := "buf", ports := [.output "o" 1] } [], .createPort ⟨0⟩ "o",
    .createPin ⟨0⟩ 0 none .driver, .createNet "x", .removeNet ⟨0⟩, .compact]

/-- A second block comes and goes with its pin, and the first one loses its pin. -/
def unwired : List Edit :=
  [.createBlock "b" { name := "buf", ports := [.output "o" 1] } [], .createPort ⟨1⟩ "o",
    .createPin ⟨1⟩ 0 none .driver, .removeBlock ⟨1⟩, .removePin ⟨0⟩, .removePin ⟨1⟩]

theorem removals_accounted_unwired : ∃ t m rs,
    (Edit.run (.new "top") wiredOnce).Accounted unwired t m rs ∧
      (Edit.log (Edit.run (.new "top") wiredOnce) unwired ++ rs).map Event.report = [
        ⟨.trace, "removed pin", [("pin", .text "pin#1")]⟩,
        ⟨.trace, "removed port", [("port", .text "port#1")]⟩,
        ⟨.trace, "removed block", [("block", .text "block#1")]⟩,
        ⟨.trace, "removed pin", [("pin", .text "pin#0")]⟩,
        ⟨.trace, "removed port", [("port", .text "port#0")]⟩,
        ⟨.trace, "removed block", [("block", .text "block#0")]⟩,
        ⟨.debug, "swept unused entities", [("swept_ports", .number 1), ("swept_blocks", .number 1)]⟩] := by
  obtain ⟨t, m, rs, h⟩ := @removals_accounted "top" wiredOnce unwired (.inr rfl) (by simp [unwired])
  refine ⟨t, m, rs, h, ?_⟩
  have hrs : ((Edit.run (Edit.run (.new "top") wiredOnce) unwired).sweep.toOption.map Prod.snd) =
      some [.removed .port ⟨0⟩, .removed .block ⟨0⟩, .swept 1 1] := by decide +kernel
  rw [h.swept] at hrs
  obtain rfl := Option.some.inj hrs
  decide +kernel

end MappedNetlist.Netlist
