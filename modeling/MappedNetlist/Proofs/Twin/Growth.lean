import MappedNetlist.Proofs.Creation
import MappedNetlist.Proofs.Twin.Basic

/-!
# Growing twins

Twins that both grow by one entity are twins again, with the two new handles paired, if the new
records are twins. The old records change in the same way on both sides: the block of a new port
lists it, the port and the net of a new pin take it in, and the pins of a new net are on it.
-/

namespace MappedNetlist

variable {ρ σ : Pairing} {n n' m m' : Netlist} {k : Kind}

section Records

theorem SameText.mono {t t' u u' : StringTable} {x y : StringId} (h : SameText t u x y)
    (ht : t'.Extends t) (hu : u'.Extends u) : SameText t' u' x y := by
  obtain ⟨s, hx, hy⟩ := h
  exact ⟨s, ht hx, hu hy⟩

theorem BlockRecord.Twin.mono {r r' : BlockRecord} (h : r.Twin ρ n m r')
    (hρ : ∀ {k h h'}, ρ k h h' → σ k h h') (hn : n'.strings.Extends n.strings)
    (hm : m'.strings.Extends m.strings) (hl : ∀ c, n'.store.listed r c = n.store.listed r c)
    (hl' : ∀ c, m'.store.listed r' c = m.store.listed r' c) : r.Twin σ n' m' r' where
  name := h.name.mono hn hm
  model := h.model
  table := h.table
  listed c := by
    rw [hl, hl']
    exact (h.listed c).imp fun _ _ => hρ
  ports := h.ports

theorem PortRecord.Twin.mono {r r' : PortRecord} (h : r.Twin ρ n m r')
    (hρ : ∀ {k h h'}, ρ k h h' → σ k h h') (hn : n'.strings.Extends n.strings)
    (hm : m'.strings.Extends m.strings) : r.Twin σ n' m' r' where
  name := h.name.mono hn hm
  owner := hρ h.owner
  width := h.width
  portClass := h.portClass
  pins := h.pins.imp fun _ _ hi => Rel.imp hi fun _ _ => hρ

theorem PinRecord.Twin.mono {r r' : PinRecord} (h : r.Twin ρ r')
    (hρ : ∀ {k h h'}, ρ k h h' → σ k h h') : r.Twin σ r' where
  port := hρ h.port
  bit := h.bit
  net := Rel.imp h.net fun _ _ => hρ
  role := h.role

theorem NetRecord.Twin.mono {r r' : NetRecord} (h : r.Twin ρ n m r')
    (hρ : ∀ {k h h'}, ρ k h h' → σ k h h') (hn : n'.strings.Extends n.strings)
    (hm : m'.strings.Extends m.strings) : r.Twin σ n' m' r' where
  name := h.name.mono hn hm
  driver := Rel.imp h.driver fun _ _ => hρ
  sinks := h.sinks.imp fun _ _ => hρ

end Records

namespace Store

variable {s t : Store}

/-- The entity has a record. -/
def Has (s : Store) : {k : Kind} → Handle k → Prop
  | .block, b => ∃ r, s.blocks b = some r
  | .port, p => ∃ r, s.ports p = some r
  | .pin, i => ∃ r, s.pins i = some r
  | .net, e => ∃ r, s.nets e = some r

theorem has_addBlock {b : BlockId} {r : BlockRecord} {g : Handle k} (h : (s.addBlock b r).Has g) :
    s.Has g ∨ (⟨k, g⟩ : (k : Kind) × Handle k) = ⟨.block, b⟩ := by
  cases k
  case block =>
    by_cases hg : g = b
    · exact .inr (by rw [hg])
    · exact .inl (by simpa [Has, hg] using h)
  all_goals exact .inl h

theorem has_addPort {p : PortId} {r : PortRecord} {g : Handle k} (h : (s.addPort p r).Has g) :
    s.Has g ∨ (⟨k, g⟩ : (k : Kind) × Handle k) = ⟨.port, p⟩ := by
  cases k
  case port =>
    by_cases hg : g = p
    · exact .inr (by rw [hg])
    · exact .inl (by simpa [Has, hg] using h)
  case block =>
    obtain ⟨q, hq⟩ := h
    obtain ⟨t, ht, -⟩ := modify_eq_some_iff.1 hq
    exact .inl ⟨t, ht⟩
  all_goals exact .inl h

theorem has_addPin {i : PinId} {r : PinRecord} {g : Handle k} (h : (s.addPin i r).Has g) :
    s.Has g ∨ (⟨k, g⟩ : (k : Kind) × Handle k) = ⟨.pin, i⟩ := by
  cases k
  case pin =>
    by_cases hg : g = i
    · exact .inr (by rw [hg])
    · exact .inl (by simpa [Has, hg] using h)
  case port =>
    obtain ⟨q, hq⟩ := h
    obtain ⟨t, ht, -⟩ := modify_eq_some_iff.1 hq
    exact .inl ⟨t, ht⟩
  case net =>
    obtain ⟨q, hq⟩ := h
    obtain ⟨t, ht, -⟩ := addPin_nets_eq_some_iff.1 hq
    exact .inl ⟨t, ht⟩
  case block => exact .inl h

theorem has_addNet {e : NetId} {r : NetRecord} {g : Handle k} (h : (s.addNet e r).Has g) :
    s.Has g ∨ (⟨k, g⟩ : (k : Kind) × Handle k) = ⟨.net, e⟩ := by
  cases k
  case net =>
    by_cases hg : g = e
    · exact .inr (by rw [hg])
    · exact .inl (by simpa [Has, hg] using h)
  case pin =>
    obtain ⟨q, hq⟩ := h
    obtain ⟨t, ht, -⟩ := Option.map_eq_some_iff.1 hq
    exact .inl ⟨t, ht⟩
  all_goals exact .inl h

theorem listed_congr {r : BlockRecord} {c : PortClass}
    (h : ∀ p ∈ r.listed c, (s.ports p).isSome = (t.ports p).isSome) :
    s.listed r c = t.listed r c :=
  List.filter_congr h

section AddPort

variable {p : PortId} {r : PortRecord} {t : BlockRecord} {c : PortClass}

theorem listed_addPort (h : ∀ x ∈ t.listed c, x ≠ p) :
    (s.addPort p r).listed t c = s.listed t c := by
  refine listed_congr fun x hx => ?_
  rw [addPort_ports, Function.update_of_ne (h x hx)]

/-- The block of a new port lists it as a live one. -/
theorem listed_list_addPort (h : ∀ x ∈ t.listed c, x ≠ p) :
    (s.addPort p r).listed (t.list r.portClass p) c =
      s.listed t c ++ if c = r.portClass then [p] else [] := by
  rw [← listed_addPort h (r := r), listed, listed, BlockRecord.list_listed]
  by_cases hc : c = r.portClass
  · subst hc
    simp
  · simp [hc]

end AddPort

end Store

section AddPin

variable {r : NetRecord} {i : PinId}

theorem NetRecord.driver_plug (hr : r.pins ≠ []) (i : PinId) (role : PinRole) :
    (r.plug i role).driver = if role = .driver then some i else r.driver := by
  obtain ⟨slot, slots, hslots⟩ := List.exists_cons_of_ne_nil hr
  cases role <;> simp [NetRecord.driver, MappedNetlist.plug, hslots]

theorem NetRecord.sinks_plug (hr : r.pins ≠ []) (i : PinId) (role : PinRole) :
    (r.plug i role).sinks = r.sinks ++ if role = .sink then [i] else [] := by
  obtain ⟨slot, slots, hslots⟩ := List.exists_cons_of_ne_nil hr
  cases role <;> simp [NetRecord.sinks, MappedNetlist.plug, hslots]

end AddPin

namespace Netlist

theorem Sized.isLive_iff_has (hn : n.Sized) {h : Handle k} : n.IsLive h ↔ n.store.Has h := by
  cases k
  · exact hn.isLive_block_iff
  · exact hn.isLive_port_iff
  · exact hn.isLive_pin_iff
  · exact hn.isLive_net_iff

namespace Twin

/-- What it takes for grown netlists to be twins: all records of paired entities must be twins. -/
theorem grow (h : Twin ρ n m) (hn : n.Grows n' k) (hm : m.Grows m' k) {x x' : Handle k}
    (hx : x.index = (n.slots k).size) (hx' : x'.index = (m.slots k).size)
    (hlive : ∀ {l : Kind} {g : Handle l}, n'.store.Has g →
      n.store.Has g ∨ (⟨l, g⟩ : (k : Kind) × Handle k) = ⟨k, x⟩)
    (hlive' : ∀ {l : Kind} {g : Handle l}, m'.store.Has g →
      m.store.Has g ∨ (⟨l, g⟩ : (k : Kind) × Handle k) = ⟨k, x'⟩)
    (hblock : ∀ {b b'}, ρ.Add x x' .block b b' → Option.Rel (BlockRecord.Twin (ρ.Add x x') n' m')
      (n'.store.blocks b) (m'.store.blocks b'))
    (hport : ∀ {p p'}, ρ.Add x x' .port p p' → Option.Rel (PortRecord.Twin (ρ.Add x x') n' m')
      (n'.store.ports p) (m'.store.ports p'))
    (hpin : ∀ {i i'}, ρ.Add x x' .pin i i' → Option.Rel (PinRecord.Twin (ρ.Add x x'))
      (n'.store.pins i) (m'.store.pins i'))
    (hnet : ∀ {e e'}, ρ.Add x x' .net e e' → Option.Rel (NetRecord.Twin (ρ.Add x x') n' m')
      (n'.store.nets e) (m'.store.nets e')) :
    Twin (ρ.Add x x') n' m' where
  left := hn.consistent
  right := hm.consistent
  issued := by
    rintro l g g' (hg | _)
    · obtain ⟨hlt, hlt'⟩ := h.issued hg
      rw [hn.issued, hm.issued]
      split <;> omega
    · rw [hn.issued, hm.issued, if_pos rfl, if_pos rfl]
      omega
  functional := by
    rintro l g u' v' (hu | _) (hv | _)
    · exact h.functional hu hv
    · exact absurd hx (Nat.ne_of_lt (h.issued hu).1)
    · exact absurd hx (Nat.ne_of_lt (h.issued hv).1)
    · rfl
  injective := by
    rintro l u v g' (hu | _) (hv | _)
    · exact h.injective hu hv
    · exact absurd hx' (Nat.ne_of_lt (h.issued hu).2)
    · exact absurd hx' (Nat.ne_of_lt (h.issued hv).2)
    · rfl
  total hl := by
    rcases hlive (hn.consistent.sized.isLive_iff_has.1 hl) with hg | hg
    · obtain ⟨g', hg'⟩ := h.total (h.left.sized.isLive_iff_has.2 hg)
      exact ⟨g', .old hg'⟩
    · cases hg
      exact ⟨x', .new⟩
  surjective hl := by
    rcases hlive' (hm.consistent.sized.isLive_iff_has.1 hl) with hg | hg
    · obtain ⟨g, hg⟩ := h.surjective (h.right.sized.isLive_iff_has.2 hg)
      exact ⟨g, .old hg⟩
    · cases hg
      exact ⟨x, .new⟩
  block := hblock
  port := hport
  pin := hpin
  net := hnet

theorem ne_left (h : Twin ρ n m) {g g' x : Handle k} (hg : ρ k g g')
    (hx : x.index = (n.slots k).size) : g ≠ x := by
  rintro rfl
  exact Nat.ne_of_lt (h.issued hg).1 hx

theorem ne_right (h : Twin ρ n m) {g g' x' : Handle k} (hg : ρ k g g')
    (hx' : x'.index = (m.slots k).size) : g' ≠ x' := by
  rintro rfl
  exact Nat.ne_of_lt (h.issued hg).2 hx'

theorem addBlock (h : Twin ρ n m) (hn : n.Grows n' .block) (hm : m.Grows m' .block)
    {x x' : BlockId} (hx : x.index = n.blocks.slots.size) (hx' : x'.index = m.blocks.slots.size)
    {r r' : BlockRecord} (hs : n'.store = n.store.addBlock x r)
    (hs' : m'.store = m.store.addBlock x' r') (hr : r.Twin ρ n' m' r') :
    Twin (ρ.Add x x') n' m' := by
  refine h.grow hn hm hx hx' (fun hg => Store.has_addBlock (hs ▸ hg))
    (fun hg => Store.has_addBlock (hs' ▸ hg)) ?_ ?_ ?_ ?_
  · rintro b b' (hb | _)
    · rw [hs, hs', Store.addBlock_blocks, Store.addBlock_blocks,
        Function.update_of_ne (h.ne_left hb hx), Function.update_of_ne (h.ne_right hb hx')]
      refine Rel.imp (h.block hb) fun _ _ ht => ?_
      exact ht.mono .old hn.strings hm.strings (fun _ => by rw [hs]; rfl) fun _ => by rw [hs']; rfl
    · rw [hs, hs', Store.addBlock_blocks, Store.addBlock_blocks, Function.update_self,
        Function.update_self]
      exact .some (hr.mono .old (.refl _) (.refl _) (fun _ => rfl) fun _ => rfl)
  · rintro p p' (hp | _)
    rw [hs, hs']
    exact Rel.imp (h.port hp) fun _ _ ht => ht.mono .old hn.strings hm.strings
  · rintro i i' (hi | _)
    rw [hs, hs']
    exact Rel.imp (h.pin hi) fun _ _ ht => ht.mono .old
  · rintro e e' (he | _)
    rw [hs, hs']
    exact Rel.imp (h.net he) fun _ _ ht => ht.mono .old hn.strings hm.strings

theorem addPort (h : Twin ρ n m) (hn : n.Grows n' .port) (hm : m.Grows m' .port)
    {x x' : PortId} (hx : x.index = n.ports.slots.size) (hx' : x'.index = m.ports.slots.size)
    {r r' : PortRecord} (hs : n'.store = n.store.addPort x r)
    (hs' : m'.store = m.store.addPort x' r') (hr : r.Twin ρ n' m' r') :
    Twin (ρ.Add x x') n' m' := by
  refine h.grow hn hm hx hx' (fun hg => Store.has_addPort (hs ▸ hg))
    (fun hg => Store.has_addPort (hs' ▸ hg)) ?_ ?_ ?_ ?_
  · rintro b b' (hb | _)
    rw [hs, hs', Store.addPort_blocks, Store.addPort_blocks, modify_apply, modify_apply]
    refine Rel.map (h.block hb) fun t t' ht ht' htt => ?_
    have hold (c : PortClass) : ∀ y ∈ t.listed c, y ≠ x := by
      rintro y hy rfl
      exact Nat.ne_of_lt (h.left.coherent.listed ht hy).1 hx
    have hold' (c : PortClass) : ∀ y ∈ t'.listed c, y ≠ x' := by
      rintro y hy rfl
      exact Nat.ne_of_lt (h.right.coherent.listed ht' hy).1 hx'
    by_cases hbo : b = r.owner
    · rw [if_pos hbo, if_pos ((h.eq_iff hb hr.owner).1 hbo)]
      refine ⟨htt.name.mono hn.strings hm.strings, htt.model, htt.table, fun c => ?_, ?_⟩
      · rw [hs, hs', Store.listed_list_addPort (hold c), Store.listed_list_addPort (hold' c),
          ← hr.portClass]
        refine List.rel_append ((htt.listed c).imp fun _ _ => .old) ?_
        split
        · exact .cons .new .nil
        · exact .nil
      · have hlisted {q : BlockRecord} {c : PortClass} {y : PortId} : (q.list c y).ports ≠ [] := by
          refine List.ne_nil_of_mem (a := y) (BlockRecord.mem_ports_iff.2 ⟨c, ?_⟩)
          exact BlockRecord.mem_listed_list.2 (.inr ⟨rfl, rfl⟩)
        simp only [hlisted]
    · rw [if_neg hbo, if_neg fun hbo' => hbo ((h.eq_iff hb hr.owner).2 hbo')]
      refine htt.mono .old hn.strings hm.strings (fun c => ?_) fun c => ?_
      · rw [hs, Store.listed_addPort (hold c)]
      · rw [hs', Store.listed_addPort (hold' c)]
  · rintro p p' (hp | _)
    · rw [hs, hs', Store.addPort_ports, Store.addPort_ports,
        Function.update_of_ne (h.ne_left hp hx), Function.update_of_ne (h.ne_right hp hx')]
      exact Rel.imp (h.port hp) fun _ _ ht => ht.mono .old hn.strings hm.strings
    · rw [hs, hs', Store.addPort_ports, Store.addPort_ports, Function.update_self,
        Function.update_self]
      exact .some (hr.mono .old (.refl _) (.refl _))
  · rintro i i' (hi | _)
    rw [hs, hs']
    exact Rel.imp (h.pin hi) fun _ _ ht => ht.mono .old
  · rintro e e' (he | _)
    rw [hs, hs']
    exact Rel.imp (h.net he) fun _ _ ht => ht.mono .old hn.strings hm.strings

theorem addPin (h : Twin ρ n m) (hn : n.Grows n' .pin) (hm : m.Grows m' .pin)
    {x x' : PinId} (hx : x.index = n.pins.slots.size) (hx' : x'.index = m.pins.slots.size)
    {r r' : PinRecord} (hs : n'.store = n.store.addPin x r)
    (hs' : m'.store = m.store.addPin x' r') (hr : r.Twin ρ r') :
    Twin (ρ.Add x x') n' m' := by
  have hlisted {s : Store} {i : PinId} {q : PinRecord} (t : BlockRecord) (c : PortClass) :
      (s.addPin i q).listed t c = s.listed t c := by
    refine Store.listed_congr fun y _ => ?_
    rw [Store.addPin_ports, modify_apply, Option.isSome_map]
  refine h.grow hn hm hx hx' (fun hg => Store.has_addPin (hs ▸ hg))
    (fun hg => Store.has_addPin (hs' ▸ hg)) ?_ ?_ ?_ ?_
  · rintro b b' (hb | _)
    rw [hs, hs']
    refine Rel.imp (h.block hb) fun t t' htt => ?_
    exact htt.mono .old hn.strings hm.strings (fun c => hs ▸ hlisted t c) fun c => hs' ▸ hlisted t' c
  · rintro p p' (hp | _)
    rw [hs, hs', Store.addPin_ports, Store.addPin_ports, modify_apply, modify_apply]
    refine Rel.map (h.port hp) fun t t' _ _ htt => ?_
    have hmono : t.Twin (ρ.Add x x') n' m' t' := htt.mono .old hn.strings hm.strings
    by_cases hport : p = r.port
    · rw [if_pos hport, if_pos ((h.eq_iff hp hr.port).1 hport), ← hr.bit]
      exact { hmono with pins := Forall₂.set hmono.pins (.some .new) r.bit }
    · rw [if_neg hport, if_neg fun hport' => hport ((h.eq_iff hp hr.port).2 hport')]
      exact hmono
  · rintro i i' (hi | _)
    · rw [hs, hs', Store.addPin_pins, Store.addPin_pins, Function.update_of_ne (h.ne_left hi hx),
        Function.update_of_ne (h.ne_right hi hx')]
      exact Rel.imp (h.pin hi) fun _ _ ht => ht.mono .old
    · rw [hs, hs', Store.addPin_pins, Store.addPin_pins, Function.update_self, Function.update_self]
      exact .some (hr.mono .old)
  · rintro e e' (he | _)
    rw [hs, hs', Store.addPin_nets_apply, Store.addPin_nets_apply]
    refine Rel.map (h.net he) fun t t' ht ht' htt => ?_
    have hmono : t.Twin (ρ.Add x x') n' m' t' := htt.mono .old hn.strings hm.strings
    by_cases hnet : r.net = some e
    · rw [if_pos hnet, if_pos ((h.eq_some_iff hr.net he).1 hnet), ← hr.role]
      refine ⟨hmono.name, ?_, ?_⟩
      · rw [NetRecord.driver_plug (h.left.coherent.slotted ht),
          NetRecord.driver_plug (h.right.coherent.slotted ht')]
        split
        · exact .some .new
        · exact hmono.driver
      · rw [NetRecord.sinks_plug (h.left.coherent.slotted ht),
          NetRecord.sinks_plug (h.right.coherent.slotted ht')]
        refine List.rel_append hmono.sinks ?_
        split
        · exact .cons .new .nil
        · exact .nil
    · rw [if_neg hnet, if_neg fun hnet' => hnet ((h.eq_some_iff hr.net he).2 hnet')]
      exact hmono

theorem addNet (h : Twin ρ n m) (hn : n.Grows n' .net) (hm : m.Grows m' .net)
    {x x' : NetId} (hx : x.index = n.nets.slots.size) (hx' : x'.index = m.nets.slots.size)
    {r r' : NetRecord} (hs : n'.store = n.store.addNet x r)
    (hs' : m'.store = m.store.addNet x' r') (hr : r.Twin ρ n' m' r')
    (hmem : ∀ {i i'}, ρ .pin i i' → (some i ∈ r.pins ↔ some i' ∈ r'.pins)) :
    Twin (ρ.Add x x') n' m' := by
  refine h.grow hn hm hx hx' (fun hg => Store.has_addNet (hs ▸ hg))
    (fun hg => Store.has_addNet (hs' ▸ hg)) ?_ ?_ ?_ ?_
  · rintro b b' (hb | _)
    rw [hs, hs']
    refine Rel.imp (h.block hb) fun t t' htt => ?_
    exact htt.mono .old hn.strings hm.strings (fun _ => by rw [hs]; rfl) fun _ => by rw [hs']; rfl
  · rintro p p' (hp | _)
    rw [hs, hs']
    exact Rel.imp (h.port hp) fun _ _ ht => ht.mono .old hn.strings hm.strings
  · rintro i i' (hi | _)
    rw [hs, hs', Store.addNet_pins, Store.addNet_pins]
    refine Rel.map (h.pin hi) fun t t' _ _ htt => ?_
    have hmono : t.Twin (ρ.Add x x') t' := htt.mono .old
    refine { hmono with net := ?_ }
    rw [PinRecord.join_net, PinRecord.join_net]
    by_cases hi' : some i ∈ r.pins
    · rw [if_pos hi', if_pos ((hmem hi).1 hi')]
      exact .some .new
    · rw [if_neg hi', if_neg fun h' => hi' ((hmem hi).2 h')]
      exact hmono.net
  · rintro e e' (he | _)
    · rw [hs, hs', Store.addNet_nets, Store.addNet_nets, Function.update_of_ne (h.ne_left he hx),
        Function.update_of_ne (h.ne_right he hx')]
      exact Rel.imp (h.net he) fun _ _ ht => ht.mono .old hn.strings hm.strings
    · rw [hs, hs', Store.addNet_nets, Store.addNet_nets, Function.update_self, Function.update_self]
      exact .some (hr.mono .old (.refl _) (.refl _))

end Twin

end Netlist

end MappedNetlist
