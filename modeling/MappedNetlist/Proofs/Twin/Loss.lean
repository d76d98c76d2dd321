import MappedNetlist.Proofs.Sweeping
import MappedNetlist.Proofs.Twin.Basic

/-!
# Shrinking twins

Twins that suffer paired losses are still twins. What a removal or a sweep takes is said in terms of
the store, so it takes paired entities from twins.
-/

namespace MappedNetlist

section Relations

variable {α β : Type} {R : α → β → Prop} {p : α → Bool} {q : β → Bool}

theorem Rel.filter {o : Option α} {o' : Option β} (h : Option.Rel R o o')
    (hpq : ∀ a b, R a b → p a = q b) : Option.Rel R (o.filter p) (o'.filter q) := by
  rcases h with h | _
  · rw [Option.filter_some, Option.filter_some, hpq _ _ h]
    split
    · exact .some h
    · exact .none
  · exact .none

theorem Rel.any {o : Option α} {o' : Option β} (h : Option.Rel R o o')
    (hpq : ∀ a b, R a b → p a = q b) : o.any p = o'.any q := by
  rcases h with h | _
  · exact hpq _ _ h
  · rfl

theorem Rel.all {o : Option α} {o' : Option β} (h : Option.Rel R o o')
    (hpq : ∀ a b, R a b → p a = q b) : o.all p = o'.all q := by
  rcases h with h | _
  · exact hpq _ _ h
  · rfl

theorem Forall₂.filter {l : List α} {l' : List β} (h : List.Forall₂ R l l')
    (hpq : ∀ a b, R a b → p a = q b) : List.Forall₂ R (l.filter p) (l'.filter q) :=
  List.rel_filter (fun a b hab => Bool.eq_iff_iff.1 (hpq a b hab)) h

theorem Forall₂.all {l : List α} {l' : List β} (h : List.Forall₂ R l l')
    (hpq : ∀ a b, R a b → p a = q b) : l.all p = l'.all q := by
  induction h with
  | nil => rfl
  | cons hab _ ih => rw [List.all_cons, List.all_cons, hpq _ _ hab, ih]

end Relations

/-- The losses take paired entities. -/
structure Loss.Paired (ρ : Pairing) (d d' : Loss) : Prop where
  blocks {b b' : BlockId} : ρ .block b b' → d.blocks b = d'.blocks b' := by exact fun _ => rfl
  ports {p p' : PortId} : ρ .port p p' → d.ports p = d'.ports p' := by exact fun _ => rfl
  pins {i i' : PinId} : ρ .pin i i' → d.pins i = d'.pins i' := by exact fun _ => rfl
  nets {e e' : NetId} : ρ .net e e' → d.nets e = d'.nets e' := by exact fun _ => rfl
  links {i i' : PinId} : ρ .pin i i' → d.links i = d'.links i' := by exact fun _ => rfl

theorem Store.listed_without (s : Store) (d : Loss) (r : BlockRecord) (c : PortClass) :
    (s.without d).listed r c = (s.listed r c).filter fun p => !d.ports p := by
  rw [listed, listed, List.filter_filter]
  refine List.filter_congr fun p _ => ?_
  rw [without_ports]
  cases d.ports p <;> simp

theorem NetRecord.driver_clear (r : NetRecord) (gone : PinId → Bool) :
    (r.clear gone).driver = r.driver.filter fun i => !gone i := by
  rw [driver, driver, clear_pins]
  cases r.pins with
  | nil => rfl
  | cons slot slots => rfl

theorem NetRecord.sinks_clear (r : NetRecord) (gone : PinId → Bool) :
    (r.clear gone).sinks = r.sinks.filter fun i => !gone i := by
  rw [sinks, sinks, clear_pins, MappedNetlist.clear, ← List.map_tail, List.filterMap_map,
    List.filter_filterMap]
  rfl

namespace Netlist

variable {ρ : Pairing} {n n' m m' : Netlist} {d d' : Loss}

namespace Twin

theorem shrink (h : Twin ρ n m) (hn : n.Shrinks n' d) (hm : m.Shrinks m' d')
    (hd : d.Paired ρ d') : Twin ρ n' m' where
  left := hn.consistent
  right := hm.consistent
  issued hx := by
    rw [hn.issued, hm.issued]
    exact h.issued hx
  functional := h.functional
  injective := h.injective
  total hl := h.total (hn.remains.live hl)
  surjective hl := h.surjective (hm.remains.live hl)
  block hb := by
    rw [hn.store, hm.store, Store.without_blocks, Store.without_blocks, hd.blocks hb]
    split
    · exact .none
    · refine Rel.imp (h.block hb) fun r r' hr => ?_
      refine ⟨?_, hr.model, hr.table, fun c => ?_, hr.ports⟩
      · rw [hn.strings, hm.strings]
        exact hr.name
      · rw [hn.store, hm.store, Store.listed_without, Store.listed_without]
        exact Forall₂.filter (hr.listed c) fun p p' hp => by rw [hd.ports hp]
  port hp := by
    rw [hn.store, hm.store, Store.without_ports, Store.without_ports, hd.ports hp]
    split
    · exact .none
    · refine Rel.map (h.port hp) fun r r' _ _ hr => ?_
      refine ⟨?_, hr.owner, hr.width, hr.portClass, ?_⟩
      · rw [hn.strings, hm.strings]
        exact hr.name
      · refine List.rel_map (fun _ _ hslot => ?_) hr.pins
        exact Rel.filter hslot fun i i' hi => by rw [hd.pins hi]
  pin hi := by
    rw [hn.store, hm.store, Store.without_pins, Store.without_pins, hd.pins hi]
    split
    · exact .none
    · refine Rel.map (h.pin hi) fun r r' _ _ hr => ?_
      refine ⟨hr.port, hr.bit, ?_, hr.role⟩
      rw [PinRecord.release_net, PinRecord.release_net, hd.links hi]
      split
      · exact .none
      · exact Rel.filter hr.net fun e e' he => by rw [hd.nets he]
  net he := by
    rw [hn.store, hm.store, Store.without_nets, Store.without_nets, hd.nets he]
    split
    · exact .none
    · have hgone : ∀ i i', ρ .pin i i' → (!(d.pins i || d.links i)) = !(d'.pins i' || d'.links i') :=
        fun i i' hi => by rw [hd.pins hi, hd.links hi]
      refine Rel.map (h.net he) fun r r' _ _ hr => ?_
      refine ⟨?_, ?_, ?_⟩
      · rw [hn.strings, hm.strings]
        exact hr.name
      · rw [NetRecord.driver_clear, NetRecord.driver_clear]
        exact Rel.filter hr.driver hgone
      · rw [NetRecord.sinks_clear, NetRecord.sinks_clear]
        exact Forall₂.filter hr.sinks hgone

/-! ## Paired losses -/

theorem beq_eq (h : Twin ρ n m) {k : Kind} {x x' y y' : Handle k} (hx : ρ k x x')
    (hy : ρ k y y') : (x == y) = (x' == y') := by
  rw [Bool.eq_iff_iff, beq_iff_eq, beq_iff_eq]
  exact h.eq_iff hx hy

theorem paired_ofPin (h : Twin ρ n m) {i i' : PinId} (hi : ρ .pin i i') :
    (Loss.ofPin i).Paired ρ (.ofPin i') where
  pins hj := h.beq_eq hj hi

theorem paired_ofNet (h : Twin ρ n m) {e e' : NetId} (he : ρ .net e e') :
    (Loss.ofNet e).Paired ρ (.ofNet e') where
  nets hx := h.beq_eq hx he

theorem paired_ofLink (h : Twin ρ n m) {i i' : PinId} (hi : ρ .pin i i') :
    (Loss.ofLink i).Paired ρ (.ofLink i') where
  links hj := h.beq_eq hj hi

theorem paired_ofBlocks (h : Twin ρ n m) {b b' : BlockId} (hb : ρ .block b b') :
    (Loss.ofBlocks n.store (· == b)).Paired ρ (.ofBlocks m.store (· == b')) where
  blocks hx := h.beq_eq hx hb
  ports hp := Rel.any (h.port hp) fun _ _ hr => h.beq_eq hr.owner hb
  pins hi := Rel.any (h.pin hi) fun _ _ hr => Rel.any (h.port hr.port) fun _ _ hq =>
    h.beq_eq hq.owner hb

theorem bare_eq {r r' : PortRecord} (hr : r.Twin ρ n m r') : r.bare = r'.bare := by
  refine Forall₂.all hr.pins fun slot slot' hslot => ?_
  rcases hslot with _ | _ <;> rfl

theorem paired_unused (h : Twin ρ n m) : n.store.unused.Paired ρ m.store.unused where
  ports hp := Rel.any (h.port hp) fun _ _ => bare_eq
  blocks hb := by
    refine Rel.any (h.block hb) fun r r' hr => ?_
    have hlive {l : Netlist} (hl : l.Sized) (ps : List PortId) :
        (ps.all fun p => (l.store.ports p).all PortRecord.bare) =
          (ps.filter (l.IsLive ·)).all fun p => (l.store.ports p).all PortRecord.bare := by
      rw [List.all_filter]
      refine congrArg (List.all ps) (funext fun p => ?_)
      cases hp : l.store.ports p with
      | none => simp
      | some r => simp [hl.isLive_port_iff, hp]
    rw [hlive h.left.sized, hlive h.right.sized, decide_eq_decide.2 (not_congr hr.ports)]
    exact congrArg _ (Forall₂.all (h.ports hr) fun p p' hp => Rel.all (h.port hp) fun _ _ => bare_eq)

end Twin

end Netlist

end MappedNetlist
