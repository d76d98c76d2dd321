import MappedNetlist.Proofs.Compaction
import MappedNetlist.Proofs.Lockstep
import MappedNetlist.Proofs.Twin.Loss

/-!
# Compaction and twins

What a compaction makes of a swept netlist is a twin of it, under the pairing of the old handles with
the new ones. Sweeping comes first, because a block that lists nothing but dead ports, and would be
swept next time, is not told from one that never had a port once the dead ports are no longer
listed.
-/

namespace MappedNetlist

variable {ρ : Pairing} {n m t u : Netlist} {f : StringId → StringId}

namespace Netlist

/-- The pairing of the live handles with those that compaction gives them. -/
def moves (t : Netlist) : Pairing := fun k h h' => (t.slots k).Moves h h'

/-- Every block that lists ports lists a live one. -/
def Swept (t : Netlist) : Prop :=
  ∀ {b r}, t.store.blocks b = some r → r.ports ≠ [] → ∃ p ∈ r.ports, t.IsLive p

theorem Shrinks.swept (h : n.Shrinks t n.store.unused) : t.Swept := by
  intro b r hr hports
  obtain ⟨-, hnil | ⟨p, hp, q, hq, hbare⟩⟩ :=
    Store.without_unused_blocks_eq_some_iff.1 (h.store ▸ hr)
  · exact absurd hnil hports
  · refine ⟨p, hp, h.consistent.sized.isLive_port_iff.2 ⟨q, ?_⟩⟩
    rw [h.store]
    exact Store.without_unused_ports_eq_some_iff.2 ⟨hq, hbare⟩

section Lists

variable {k : Kind} {l : List (Handle k)}

/-- Live handles move, and the others have no target. -/
theorem forall₂_target? (ht : t.Sized) (l : List (Handle k)) :
    List.Forall₂ (t.moves k) (l.filter (t.IsLive ·))
      (l.filterMap fun x => (t.slots k).renumbering.target? x.index) := by
  induction l with
  | nil => exact .nil
  | cons x l ih =>
    by_cases hx : t.IsLive x
    · obtain ⟨x', hmove⟩ := Slots.exists_moves (ht.placed k) hx
      have htarget : (t.slots k).renumbering.target? x.index = some x' := hmove
      rw [List.filter_cons_of_pos (by simpa using hx), List.filterMap_cons, htarget]
      exact .cons hmove ih
    · have hnone : (t.slots k).renumbering.target? x.index = none := by
        rw [Option.eq_none_iff_forall_ne_some]
        exact fun x' hmove => hx (Slots.Moves.isLive (ht.placed k) hmove)
      rw [List.filter_cons_of_neg (by simpa using hx), List.filterMap_cons, hnone]
      exact ih

theorem rel_relink (ht : t.Sized) {o : Option (Handle k)} (ho : ∀ x, o = some x → t.IsLive x) :
    Option.Rel (t.moves k) o (relink (t.slots k).renumbering o) := by
  cases o with
  | none => exact .none
  | some x =>
    obtain ⟨x', hmove⟩ := Slots.exists_moves (ht.placed k) (ho x rfl)
    rw [hmove.relink_eq]
    exact .some hmove

theorem moves_redirect (ht : t.Sized) {x : Handle k} (hx : t.IsLive x) :
    t.moves k x (redirect (t.slots k).renumbering x) := by
  obtain ⟨x', hmove⟩ := Slots.exists_moves (ht.placed k) hx
  rw [hmove.redirect_eq]
  exact hmove

end Lists

namespace Packs

theorem twin_block (h : t.Packs m f) (ht : t.Consistent) (hswept : t.Swept) {b : BlockId}
    {r : BlockRecord} (hr : t.store.blocks b = some r) :
    r.Twin t.moves t m ((r.renumber t.renumberings).rename f) where
  name := by
    obtain ⟨s, hs⟩ := ht.exists_blockName hr
    exact ⟨s, hs, (h.blockName hr).trans hs⟩
  model := rfl
  table := rfl
  listed c := by
    have hlive : ∀ p' ∈ (r.renumber t.renumberings).listed c, m.IsLive p' := by
      intro p' hp'
      obtain ⟨p, -, hmove⟩ := List.mem_filterMap.1 hp'
      exact (h.isLive_iff ht.sized).2 ⟨p, hmove⟩
    have hall : ((r.renumber t.renumberings).listed c).filter (m.IsLive ·) =
        (r.renumber t.renumberings).listed c :=
      List.filter_eq_self.2 fun p' hp' => decide_eq_true (hlive p' hp')
    rw [Twin.listed_eq_filter ht.sized, Twin.listed_eq_filter h.sized, BlockRecord.rename_listed,
      hall]
    exact forall₂_target? ht.sized (r.listed c)
  ports := by
    have hports : ((r.renumber t.renumberings).rename f).ports =
        r.ports.filterMap fun p => t.ports.slots.renumbering.target? p.index := by
      simp only [BlockRecord.ports, List.filterMap_append]
      rfl
    rw [hports]
    constructor
    · intro hnil
      rw [hnil, List.filterMap_nil]
    · intro hnil
      by_contra hne
      obtain ⟨p, hp, hl⟩ := hswept hr hne
      obtain ⟨p', hmove⟩ := Slots.exists_moves (ht.sized.placed .port) hl
      have htarget : t.ports.slots.renumbering.target? p.index = some p' := hmove
      exact List.ne_nil_of_mem (List.mem_filterMap.2 ⟨p, hp, htarget⟩) hnil

theorem twin_port (h : t.Packs m f) (ht : t.Consistent) {p : PortId} {r : PortRecord}
    (hr : t.store.ports p = some r) :
    r.Twin t.moves t m ((r.renumber t.renumberings).rename f) where
  name := by
    obtain ⟨s, hs⟩ := ht.exists_portName hr
    exact ⟨s, hs, (h.portName hr).trans hs⟩
  owner := by
    obtain ⟨q, hq, -⟩ := ht.coherent.owned hr
    exact moves_redirect ht.sized (Blocks.isLive_of_record? hq)
  width := rfl
  portClass := rfl
  pins := by
    rw [PortRecord.rename_pins, PortRecord.renumber_pins, List.forall₂_map_right_iff,
      List.forall₂_same]
    intro slot hslot
    refine rel_relink ht.sized fun i hi => ?_
    obtain ⟨bit, hbit⟩ := List.mem_iff_getElem?.1 (hi ▸ hslot)
    obtain ⟨q, hq, -⟩ := ht.coherent.filled hr hbit
    exact Pins.isLive_of_record? hq

theorem twin_pin (ht : t.Consistent) {i : PinId} {r : PinRecord} (hr : t.store.pins i = some r) :
    r.Twin t.moves (r.renumber t.renumberings) where
  port := by
    obtain ⟨q, hq, -⟩ := ht.coherent.placed hr
    exact moves_redirect ht.sized (Ports.isLive_of_record? hq)
  bit := rfl
  net := by
    refine rel_relink ht.sized fun e he => ?_
    obtain ⟨q, hq, -⟩ := ht.coherent.connected hr he
    exact Nets.isLive_of_record? hq
  role := rfl

theorem twin_net (h : t.Packs m f) (ht : t.Consistent) {e : NetId} {r : NetRecord}
    (hr : t.store.nets e = some r) :
    r.Twin t.moves t m ((r.renumber t.renumberings).rename f) := by
  have hlive {i : PinId} (hi : some i ∈ r.pins) : t.IsLive i := by
    obtain ⟨slot, hslot⟩ := List.mem_iff_getElem?.1 hi
    obtain ⟨q, hq, -⟩ := ht.coherent.attached hr hslot
    exact Pins.isLive_of_record? hq
  have hall : r.sinks.filter (t.IsLive ·) = r.sinks := by
    refine List.filter_eq_self.2 fun i hi => decide_eq_true (hlive ?_)
    obtain ⟨slot, hslot, rfl⟩ := List.mem_filterMap.1 hi
    exact List.mem_of_mem_tail hslot
  have hsinks : ((r.renumber t.renumberings).rename f).sinks =
      r.sinks.filterMap fun i => t.pins.slots.renumbering.target? i.index := by
    rw [NetRecord.sinks, NetRecord.rename_pins, NetRecord.renumber_pins, relinkNet, List.tail_cons,
      List.filterMap_map, Function.id_comp, List.filterMap_some, NetRecord.sinks,
      List.filterMap_filterMap]
    rfl
  refine ⟨?_, ?_, ?_⟩
  · obtain ⟨s, hs⟩ := ht.exists_netName hr
    exact ⟨s, hs, (h.netName hr).trans hs⟩
  · refine rel_relink ht.sized fun i hi => hlive ?_
    exact List.mem_of_getElem? (NetRecord.driver_eq_some_iff.1 hi)
  · have hmoves := forall₂_target? (k := .pin) ht.sized r.sinks
    rw [hall] at hmoves
    rw [hsinks]
    exact hmoves

/-- A swept netlist and what compaction makes of it are twins. -/
theorem twin (h : t.Packs m f) (ht : t.Consistent) (hm : m.Consistent) (hswept : t.Swept) :
    Twin t.moves t m where
  left := ht
  right := hm
  issued {k x x'} hx := by
    have hlive : t.IsLive x := Slots.Moves.isLive (ht.sized.placed k) hx
    rw [h.slots, Slots.size_ofRenumbering]
    exact ⟨hlive.lt_size, Slots.Moves.index_lt (ht.sized.placed k) hx⟩
  functional := Slots.Moves.unique
  injective {k _ _ _} := Slots.Moves.injective (ht.sized.placed k)
  total {k _} := Slots.exists_moves (ht.sized.placed k)
  surjective := (h.isLive_iff ht.sized).1
  block {b b'} hb := by
    rw [h.block hb]
    cases hr : t.store.blocks b with
    | none => exact .none
    | some r => exact .some (h.twin_block ht hswept hr)
  port {p p'} hp := by
    rw [h.port hp]
    cases hr : t.store.ports p with
    | none => exact .none
    | some r => exact .some (h.twin_port ht hr)
  pin {i i'} hi := by
    rw [h.pin hi]
    cases hr : t.store.pins i with
    | none => exact .none
    | some r => exact .some (twin_pin ht hr)
  net {e e'} he := by
    rw [h.net he]
    cases hr : t.store.nets e with
    | none => exact .none
    | some r => exact .some (h.twin_net ht hr)

end Packs

theorem renumbers_iff {es : List Event} (hsweep : n.sweep = .ok (t, es)) {k : Kind}
    {x x' : Handle k} : n.Renumbers x x' ↔ t.moves k x x' := by
  constructor
  · rintro ⟨u, fs, hu, hmove⟩
    obtain ⟨rfl, -⟩ := Prod.mk.inj (Except.ok.inj (hsweep.symm.trans hu))
    exact hmove
  · exact fun hmove => ⟨t, es, hsweep, hmove⟩

/-- A sweep of a consistent netlist and a compaction of it are twins. -/
theorem exists_twin_compact (hn : n.Consistent) :
    ∃ t es u fs, n.sweep = .ok (t, es) ∧ n.Shrinks t n.store.unused ∧ n.compact = .ok (u, fs) ∧
      Twin (fun _ => n.Renumbers) t u := by
  obtain ⟨t, es, u, fs, f, hsweep, ht, hcompact, hpack, hu⟩ := exists_compact hn
  refine ⟨t, es, u, fs, hsweep, ht, hcompact, ?_⟩
  have hmoves : (fun k => n.Renumbers (k := k)) = t.moves := by
    funext k x x'
    exact propext (renumbers_iff hsweep)
  rw [hmoves]
  exact hpack.twin ht.consistent hu ht.swept

namespace Twin

/-- Compacting twins makes twins, with the handles paired that paired survivors get. -/
theorem compact (h : Twin ρ n m) : ∃ n' m' es fs, n.compact = .ok (n', es) ∧
    m.compact = .ok (m', fs) ∧ Twin (ρ.next n m (.edit .compact) (.edit .compact)) n' m' := by
  obtain ⟨t, -, n', es, -, ht, hn, htwin⟩ := exists_twin_compact h.left
  obtain ⟨u, -, m', fs, -, hu, hm, htwin'⟩ := exists_twin_compact h.right
  refine ⟨n', m', es, fs, hn, hm, ?_⟩
  have hnext : ρ.next n m (.edit .compact) (.edit .compact) =
      Pairing.comp (Pairing.flip fun _ => n.Renumbers) (ρ.comp fun _ => m.Renumbers) := by
    funext k y y'
    refine propext ⟨?_, ?_⟩
    · rintro ⟨x, x', hρ, hx, hx'⟩
      exact ⟨x, hx, x', hρ, hx'⟩
    · rintro ⟨x, hx, x', hρ, hx'⟩
      exact ⟨x, x', hρ, hx, hx'⟩
  rw [hnext]
  exact htwin.symm.trans ((h.shrink ht hu h.paired_unused).trans htwin')

end Twin

end Netlist

end MappedNetlist
