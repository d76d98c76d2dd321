import MappedNetlist.Proofs.Twin.Answers
import MappedNetlist.Proofs.Twin.Compaction
import MappedNetlist.Proofs.Twin.Growth

/-!
# Editing twins

The same edit of twins, with paired handles, is refused on both sides for the same reason, finds
paired entities, or changes both sides in the same way and leaves twins.
-/

namespace MappedNetlist

/-- Two operations are refused for one reason about paired handles, or both succeed with related
results. -/
inductive Paced {α β : Type} (ρ : Pairing) (R : α → β → Prop) :
    Except Failure α → Except Failure β → Prop
  | error {e e' : EditError} (he : e.Paired ρ e') :
    Paced ρ R (.error (.refused e)) (.error (.refused e'))
  | ok {a : α} {b : β} (hab : R a b) : Paced ρ R (.ok a) (.ok b)

namespace Paced

variable {α β : Type} {ρ : Pairing} {R : α → β → Prop} {x : Except Failure α} {y : Except Failure β}

theorem refused {e e' : EditError} (hx : x = .error (.refused e)) (hy : y = .error (.refused e'))
    (he : e.Paired ρ e') : Paced ρ R x y := by
  subst hx hy
  exact .error he

theorem done {a : α} {b : β} (hx : x = .ok a) (hy : y = .ok b) (hab : R a b) : Paced ρ R x y := by
  subst hx hy
  exact .ok hab

theorem cases (h : Paced ρ R x y) :
    (∃ e e', x = .error (.refused e) ∧ y = .error (.refused e') ∧ e.Paired ρ e') ∨
      ∃ a b, x = .ok a ∧ y = .ok b ∧ R a b := by
  rcases h with he | hab
  · exact .inl ⟨_, _, rfl, rfl, he⟩
  · exact .inr ⟨_, _, rfl, rfl, hab⟩

end Paced

namespace Netlist

variable {ρ : Pairing} {n m : Netlist}

/-- Both found or created an entity, and are twins with the two paired. -/
def Made (ρ : Pairing) (n m : Netlist) {k : Kind} (r r' : Handle k × Netlist) : Prop :=
  ρ.fresh n m k r.1 r'.1 ∧ Twin (ρ.Add r.1 r'.1) r.2 r'.2

namespace Twin

theorem made_of_rel (h : Twin ρ n m) {k : Kind} {x x' : Handle k} (hx : ρ k x x') :
    Made ρ n m (x, n) (x', m) := by
  refine ⟨.inl hx, ?_⟩
  rw [Pairing.add_of_rel hx]
  exact h

/-! ## Creation -/

theorem createBlock (h : Twin ρ n m) (name : String) (model : Model) (table : TruthTable) :
    Made ρ n m (n.createBlock name model table) (m.createBlock name model table) := by
  have hfound := h.block? name
  cases hb : n.block? name with
  | some b =>
    rw [hb, rel_some_left_iff] at hfound
    obtain ⟨b', hb', hbb⟩ := hfound
    rw [createBlock_of_some hb, createBlock_of_some hb']
    exact h.made_of_rel hbb
  | none =>
    rw [hb, rel_none_left_iff] at hfound
    obtain ⟨n', x, hcreate, hn, hs, hx⟩ := createBlock_of_none h.left hb model table
    obtain ⟨m', x', hcreate', hm, hs', hx'⟩ := createBlock_of_none h.right hfound model table
    rw [hcreate, hcreate']
    refine ⟨.inr ⟨rfl, rfl⟩, h.addBlock hn hm rfl rfl hs hs' ?_⟩
    exact ⟨⟨name, hx, hx'⟩, rfl, rfl, fun _ => .nil, Iff.rfl⟩

theorem createPort (h : Twin ρ n m) {b b' : BlockId} (hb : ρ .block b b') (name : String) :
    Paced ρ (Made ρ n m) (n.createPort b name) (m.createPort b' name) := by
  rcases h.block_cases hb with ⟨hd, hd'⟩ | ⟨r, r', hr, hr', ht⟩
  · exact .refused (createPort_of_dead hd name) (createPort_of_dead hd' name) (.invalidHandle hb)
  have hfound := h.indexedPort? hb name
  cases hp : n.indexedPort? b name with
  | some p =>
    rw [hp, rel_some_left_iff] at hfound
    obtain ⟨p', hp', hpp⟩ := hfound
    exact .done (createPort_of_some (Blocks.isLive_of_record? hr) hp)
      (createPort_of_some (Blocks.isLive_of_record? hr') hp') (h.made_of_rel hpp)
  | none =>
    rw [hp, rel_none_left_iff] at hfound
    cases hdecl : r.model.port? name with
    | none =>
      have hrefused := createPort_of_undeclared hr' hfound (ht.model ▸ hdecl)
      rw [← ht.model] at hrefused
      exact .refused (createPort_of_undeclared hr hp hdecl) hrefused (.unknownModelPort _ _)
    | some decl =>
      obtain ⟨n', x, hcreate, hn, hs, hx⟩ := createPort_of_none h.left hr hp hdecl
      obtain ⟨m', x', hcreate', hm, hs', hx'⟩ :=
        createPort_of_none h.right hr' hfound (ht.model ▸ hdecl)
      refine .done hcreate hcreate' ⟨.inr ⟨rfl, rfl⟩, h.addPort hn hm rfl rfl hs hs' ?_⟩
      refine ⟨⟨name, hx, hx'⟩, hb, rfl, rfl, List.forall₂_same.2 fun slot hslot => ?_⟩
      rw [List.eq_of_mem_replicate hslot]
      exact .none

theorem vacant (h : Twin ρ n m) {net net' : Option NetId} (hnet : Option.Rel (ρ .net) net net')
    {role : PinRole} (hv : n.Vacant net role) : m.Vacant net' role := by
  rintro e' t' rfl ht' hrole
  obtain ⟨e, rfl, he⟩ := rel_some_right_iff.1 hnet
  obtain ⟨t, ht, htt⟩ := rel_some_right_iff.1 (ht' ▸ h.net he)
  have hdriver := htt.driver
  rw [(NetRecord.driver_eq_none_iff (h.left.coherent.slotted ht)).2 (hv rfl ht hrole),
    rel_none_left_iff] at hdriver
  exact (NetRecord.driver_eq_none_iff (h.right.coherent.slotted ht')).1 hdriver

theorem createPin_of_live (h : Twin ρ n m) {p p' : PortId} {r r' : PortRecord} {bit : Nat}
    {net net' : Option NetId} (hp : ρ .port p p') (hr : n.store.ports p = some r)
    (hr' : m.store.ports p' = some r') (hbit : bit < r.width) (hbit' : bit < r'.width)
    (hnet : Option.Rel (ρ .net) net net') (hlive : ∀ e, net = some e → n.IsLive e)
    (hlive' : ∀ e, net' = some e → m.IsLive e) (role : PinRole) :
    Paced ρ (Made ρ n m) (n.createPin p bit net role) (m.createPin p' bit net' role) := by
  have hfound := h.index_pins hp bit
  cases hi : n.index.pins[BitKey.mk p bit]? with
  | some i =>
    rw [hi, rel_some_left_iff] at hfound
    obtain ⟨i', hi', hii⟩ := hfound
    exact .done (createPin_of_some hr hbit hlive hi role)
      (createPin_of_some hr' hbit' hlive' hi' role) (h.made_of_rel hii)
  | none =>
    rw [hi, rel_none_left_iff] at hfound
    by_cases hv : n.Vacant net role
    · obtain ⟨n', hcreate, hn, hs, -⟩ := createPin_of_none h.left hr hbit hlive hi hv
      obtain ⟨m', hcreate', hm, hs', -⟩ :=
        createPin_of_none h.right hr' hbit' hlive' hfound (h.vacant hnet hv)
      refine .done hcreate hcreate' ⟨.inr ⟨rfl, rfl⟩, h.addPin hn hm rfl rfl hs hs' ?_⟩
      exact ⟨hp, rfl, hnet, rfl⟩
    · obtain ⟨rfl, e, t, j, rfl, ht, hj⟩ := h.left.exists_driver hv
      obtain ⟨e', rfl, he⟩ := rel_some_left_iff.1 hnet
      obtain ⟨t', ht', htt⟩ := rel_some_left_iff.1 (ht ▸ h.net he)
      have hdriver := htt.driver
      rw [NetRecord.driver_eq_some_iff.2 hj, rel_some_left_iff] at hdriver
      obtain ⟨j', hj', hjj⟩ := hdriver
      exact .refused (createPin_of_driven hr hbit hi ht hj)
        (createPin_of_driven hr' hbit' hfound ht' (NetRecord.driver_eq_some_iff.1 hj'))
        (.driverConflict he hjj)

theorem createPin (h : Twin ρ n m) {p p' : PortId} (hp : ρ .port p p') (bit : Nat)
    {net net' : Option NetId} (hnet : Option.Rel (ρ .net) net net') (role : PinRole) :
    Paced ρ (Made ρ n m) (n.createPin p bit net role) (m.createPin p' bit net' role) := by
  rcases h.port_cases hp with ⟨hd, hd'⟩ | ⟨r, r', hr, hr', ht⟩
  · exact .refused (createPin_of_dead hd bit net role) (createPin_of_dead hd' bit net' role)
      (.invalidHandle hp)
  by_cases hbit : bit < r.width
  · have hbit' : bit < r'.width := ht.width ▸ hbit
    rcases hnet with he | _
    · rename_i e e'
      by_cases hl : n.IsLive e
      · refine h.createPin_of_live hp hr hr' hbit hbit' (.some he) ?_ ?_ role
        · rintro x ⟨⟩
          exact hl
        · rintro x ⟨⟩
          exact h.isLive he hl
      · have hl' : ¬m.IsLive e' := fun hl' => hl ((h.isLive_iff he).2 hl')
        exact .refused (createPin_of_deadNet hr hbit hl role)
          (createPin_of_deadNet hr' hbit' hl' role) (.invalidHandle he)
    · exact h.createPin_of_live hp hr hr' hbit hbit' .none (by simp) (by simp) role
  · have hle : r.width ≤ bit := Nat.not_lt.1 hbit
    have hrefused := createPin_of_width_le hr' (ht.width ▸ hle) net' role
    rw [← ht.width] at hrefused
    exact .refused (createPin_of_width_le hr hle net role) hrefused (.bitOutOfRange hp bit r.width)

theorem createNet (h : Twin ρ n m) (name : String) :
    Made ρ n m (n.createNet name) (m.createNet name) := by
  have hfound := h.net? name
  cases he : n.net? name with
  | some e =>
    rw [he, rel_some_left_iff] at hfound
    obtain ⟨e', he', hee⟩ := hfound
    rw [createNet_of_some he, createNet_of_some he']
    exact h.made_of_rel hee
  | none =>
    rw [he, rel_none_left_iff] at hfound
    obtain ⟨n', x, hcreate, hn, hs, hx⟩ := createNet_of_none h.left he
    obtain ⟨m', x', hcreate', hm, hs', hx'⟩ := createNet_of_none h.right hfound
    rw [hcreate, hcreate']
    refine ⟨.inr ⟨rfl, rfl⟩, h.addNet hn hm rfl rfl hs hs' ⟨⟨name, hx, hx'⟩, .none, .nil⟩ ?_⟩
    simp

/-- Paired pins are free for a new net on both sides, or refused on both. -/
theorem demandFree (h : Twin ρ n m) {pins pins' : List (PinId × PinRole)}
    (hpins : List.Forall₂ (fun a a' => ρ .pin a.1 a'.1 ∧ a.2 = a'.2) pins pins')
    {earlier earlier' : List PinId} (hearlier : List.Forall₂ (ρ .pin) earlier earlier') :
    Paced ρ (fun _ _ => True) (n.demandFree earlier pins) (m.demandFree earlier' pins') := by
  induction hpins generalizing earlier earlier' with
  | nil => exact .ok trivial
  | @cons a a' pins pins' ha _ ih =>
    obtain ⟨i, role⟩ := a
    obtain ⟨i', role'⟩ := a'
    obtain ⟨hi, rfl⟩ : ρ .pin i i' ∧ role = role' := ha
    rcases h.pin_cases hi with ⟨hd, hd'⟩ | ⟨r, r', hr, hr', ht⟩
    · exact .refused (demandFree_cons_of_dead hd) (demandFree_cons_of_dead hd') (.invalidHandle hi)
    by_cases hrole : r.role = role
    · have hrole' : r'.role = role := ht.role ▸ hrole
      have hrel := ht.net
      cases hnet : r.net with
      | some e =>
        rw [hnet, rel_some_left_iff] at hrel
        obtain ⟨e', hnet', he⟩ := hrel
        exact .refused (demandFree_cons_of_connected hr hrole hnet)
          (demandFree_cons_of_connected hr' hrole' hnet') (.pinAlreadyConnected hi he)
      | none =>
        rw [hnet, rel_none_left_iff] at hrel
        by_cases hmem : i ∈ earlier
        · exact .refused (demandFree_cons_of_mem hr hrole hnet hmem)
            (demandFree_cons_of_mem hr' hrole' hrel ((h.mem_iff hearlier hi).1 hmem))
            (.duplicatePin hi)
        · rw [demandFree_cons_of_free hr hrole hnet hmem, demandFree_cons_of_free hr' hrole' hrel
            fun hmem' => hmem ((h.mem_iff hearlier hi).2 hmem')]
          exact ih (.cons hi hearlier)
    · exact .refused (demandFree_cons_of_role hr hrole)
        (demandFree_cons_of_role hr' (ht.role ▸ hrole)) (.roleMismatch hi)

theorem addNet_edit (h : Twin ρ n m) (name : String) {driver driver' : Option PinId}
    {sinks sinks' : List PinId} (hdriver : Option.Rel (ρ .pin) driver driver')
    (hsinks : List.Forall₂ (ρ .pin) sinks sinks') :
    Paced ρ (Made ρ n m) (n.addNet name driver sinks) (m.addNet name driver' sinks') := by
  have hfound := h.net? name
  cases he : n.net? name with
  | some e =>
    rw [he, rel_some_left_iff] at hfound
    obtain ⟨e', he', -⟩ := hfound
    exact .refused (addNet_of_some he driver sinks) (addNet_of_some he' driver' sinks')
      (.duplicateNet name)
  | none =>
    rw [he, rel_none_left_iff] at hfound
    have hasked : List.Forall₂ (fun a a' : PinId × PinRole => ρ .pin a.1 a'.1 ∧ a.2 = a'.2)
        (asked driver sinks) (asked driver' sinks') :=
      List.rel_append (List.rel_map (fun _ _ hi => ⟨hi, rfl⟩) (Rel.toList hdriver))
        (List.rel_map (fun _ _ hi => ⟨hi, rfl⟩) hsinks)
    rcases (h.demandFree hasked .nil).cases with ⟨err, err', hn, hm, herr⟩ | ⟨_, _, hn, hm, -⟩
    · exact .refused (addNet_of_refused he hn) (addNet_of_refused hfound hm) herr
    · obtain ⟨n', x, hadd, hgrow, hs, hx⟩ :=
        addNet_of_none h.left he (free_of_demandFree h.left hn)
      obtain ⟨m', x', hadd', hgrow', hs', hx'⟩ :=
        addNet_of_none h.right hfound (free_of_demandFree h.right hm)
      have hsame {l : List PinId} : (l.map some).filterMap id = l := by
        rw [List.filterMap_map, Function.id_comp, List.filterMap_some]
      refine .done hadd hadd' ⟨.inr ⟨rfl, rfl⟩, h.addNet hgrow hgrow' rfl rfl hs hs' ?_ ?_⟩
      · refine ⟨⟨name, hx, hx'⟩, hdriver, ?_⟩
        rw [NetRecord.sinks, NetRecord.sinks, List.tail_cons, List.tail_cons, hsame, hsame]
        exact hsinks
      · intro i i' hi
        rw [mem_slots_iff, mem_slots_iff]
        exact h.mem_iff (List.rel_append (Rel.toList hdriver) hsinks) hi

/-! ## Removal -/

theorem removeBlock (h : Twin ρ n m) {b b' : BlockId} (hb : ρ .block b b') :
    Paced ρ (fun r r' => Twin ρ r.1 r'.1) (n.removeBlock b) (m.removeBlock b') := by
  by_cases hl : n.IsLive b
  · obtain ⟨n', es, hremove, hn⟩ := exists_removeBlock h.left hl
    obtain ⟨m', fs, hremove', hm⟩ := exists_removeBlock h.right (h.isLive hb hl)
    exact .done hremove hremove' (h.shrink hn hm (h.paired_ofBlocks hb))
  · have hl' : ¬m.IsLive b' := fun hl' => hl ((h.isLive_iff hb).2 hl')
    exact .refused (removeBlock_of_dead hl) (removeBlock_of_dead hl') (.invalidHandle hb)

theorem removePin (h : Twin ρ n m) {i i' : PinId} (hi : ρ .pin i i') :
    Paced ρ (fun r r' => Twin ρ r.1 r'.1) (n.removePin i) (m.removePin i') := by
  by_cases hl : n.IsLive i
  · obtain ⟨n', es, hremove, hn⟩ := exists_removePin h.left hl
    obtain ⟨m', fs, hremove', hm⟩ := exists_removePin h.right (h.isLive hi hl)
    exact .done hremove hremove' (h.shrink hn hm (h.paired_ofPin hi))
  · have hl' : ¬m.IsLive i' := fun hl' => hl ((h.isLive_iff hi).2 hl')
    exact .refused (removePin_of_dead hl) (removePin_of_dead hl') (.invalidHandle hi)

theorem removeNet (h : Twin ρ n m) {e e' : NetId} (he : ρ .net e e') :
    Paced ρ (fun r r' => Twin ρ r.1 r'.1) (n.removeNet e) (m.removeNet e') := by
  by_cases hl : n.IsLive e
  · obtain ⟨n', es, hremove, hn⟩ := exists_removeNet h.left hl
    obtain ⟨m', fs, hremove', hm⟩ := exists_removeNet h.right (h.isLive he hl)
    exact .done hremove hremove' (h.shrink hn hm (h.paired_ofNet he))
  · have hl' : ¬m.IsLive e' := fun hl' => hl ((h.isLive_iff he).2 hl')
    exact .refused (removeNet_of_dead hl) (removeNet_of_dead hl') (.invalidHandle he)

theorem removeNetPin (h : Twin ρ n m) {e e' : NetId} {i i' : PinId} (he : ρ .net e e')
    (hi : ρ .pin i i') : Paced ρ (Twin ρ) (n.removeNetPin e i) (m.removeNetPin e' i') := by
  by_cases hl : n.IsLive e
  swap
  · have hl' : ¬m.IsLive e' := fun hl' => hl ((h.isLive_iff he).2 hl')
    exact .refused (removeNetPin_of_deadNet hl i) (removeNetPin_of_deadNet hl' i')
      (.invalidHandle he)
  have hl' := h.isLive he hl
  rcases h.pin_cases hi with ⟨hd, hd'⟩ | ⟨r, r', hr, hr', ht⟩
  · exact .refused (removeNetPin_of_deadPin hl hd) (removeNetPin_of_deadPin hl' hd')
      (.invalidHandle hi)
  by_cases hnet : r.net = some e
  · obtain ⟨n', hremove, hn⟩ := exists_removeNetPin h.left hr hnet
    obtain ⟨m', hremove', hm⟩ :=
      exists_removeNetPin h.right hr' ((h.eq_some_iff ht.net he).1 hnet)
    exact .done hremove hremove' (h.shrink hn hm (h.paired_ofLink hi))
  · have hnet' : r'.net ≠ some e' := fun hnet' => hnet ((h.eq_some_iff ht.net he).2 hnet')
    exact .refused (removeNetPin_of_apart hl hr hnet) (removeNetPin_of_apart hl' hr' hnet')
      (.pinNotOnNet hi he)

theorem sweep (h : Twin ρ n m) : ∃ n' m' es fs, n.sweep = .ok (n', es) ∧ m.sweep = .ok (m', fs) ∧
    Twin ρ n' m' := by
  obtain ⟨n', es, hsweep, hn⟩ := exists_sweep h.left
  obtain ⟨m', fs, hsweep', hm⟩ := exists_sweep h.right
  exact ⟨n', m', es, fs, hsweep, hsweep', h.shrink hn hm h.paired_unused⟩

/-! ## All edits -/

section Outcome

variable {e e' : Edit}

/-- What has to hold of paired edits: they have corresponding outcomes and leave twins. -/
def EditsTwin (ρ : Pairing) (n m : Netlist) (e e' : Edit) : Prop :=
  Corresponds ρ (Answer.Alike (ρ.fresh n m) n m) ((Call.edit e).outcome n)
      ((Call.edit e').outcome m) ∧
    Twin (ρ.next n m (.edit e) (.edit e')) (e.after n) (e'.after m)

theorem next_edit (he : e ≠ .compact) : ρ.next n m (.edit e) (.edit e') = fun k h h' =>
    ρ k h h' ∨ e.found? n = some ⟨k, h⟩ ∧ e'.found? m = some ⟨k, h'⟩ := by
  unfold Pairing.next
  split
  · next heq _ => exact absurd (Call.edit.inj heq) he
  · next heq heq' => rw [Call.edit.inj heq, Call.edit.inj heq']
  · next hne => exact absurd rfl (hne e e' rfl)

theorem editsTwin_of_error (h : Twin ρ n m) (hne : e ≠ .compact) {err err' : EditError}
    (hn : e.apply n = .error (.refused err)) (hm : e'.apply m = .error (.refused err'))
    (herr : err.Paired ρ err') : EditsTwin ρ n m e e' := by
  refine ⟨?_, ?_⟩
  · rw [Call.outcome, Call.outcome, hn, hm]
    exact .error (.refused herr)
  · rw [next_edit hne, Edit.after, Edit.after, hn, hm]
    simpa [Edit.found?, hn] using h

theorem editsTwin_of_made (h : Twin ρ n m) (hne : e ≠ .compact) {k : Kind}
    {x : Except Failure (Handle k × Netlist)} {y : Except Failure (Handle k × Netlist)}
    (hn : e.apply n = x >>= fun r => pure (.ofFound r))
    (hm : e'.apply m = y >>= fun r => pure (.ofFound r)) (hxy : Paced ρ (Made ρ n m) x y) :
    EditsTwin ρ n m e e' := by
  rcases hxy.cases with ⟨err, err', rfl, rfl, herr⟩ | ⟨r, r', rfl, rfl, hfresh, htwin⟩
  · exact editsTwin_of_error h hne hn hm herr
  · rw [ok_bind, pure_eq_ok] at hn hm
    refine ⟨?_, ?_⟩
    · rw [Call.outcome, Call.outcome, hn, hm]
      exact .ok (.handle (.some hfresh))
    · have hnext : ρ.next n m (.edit e) (.edit e') = ρ.Add r.1 r'.1 := by
        rw [next_edit hne, Edit.found?, Edit.found?, hn, hm]
        funext l g g'
        refine propext ⟨?_, ?_⟩
        · rintro (hg | ⟨hg, hg'⟩)
          · exact .old hg
          · cases hg
            cases hg'
            exact .new
        · rintro (hg | _)
          · exact .inl hg
          · exact .inr ⟨rfl, rfl⟩
      rw [hnext, Edit.after, Edit.after, hn, hm]
      exact htwin

theorem editsTwin_of_left (h : Twin ρ n m) (hne : e ≠ .compact) {α : Type}
    {x y : Except Failure α} {f : α → Edited} (hf : ∀ a, (f a).found = none)
    (hn : e.apply n = x >>= fun a => pure (f a)) (hm : e'.apply m = y >>= fun a => pure (f a))
    (hxy : Paced ρ (fun a b => Twin ρ (f a).netlist (f b).netlist) x y) :
    EditsTwin ρ n m e e' := by
  rcases hxy.cases with ⟨err, err', rfl, rfl, herr⟩ | ⟨a, b, rfl, rfl, htwin⟩
  · exact editsTwin_of_error h hne hn hm herr
  · rw [ok_bind, pure_eq_ok] at hn hm
    refine ⟨?_, ?_⟩
    · rw [Call.outcome, Call.outcome, hn, hm]
      simp only [ok_bind, hf]
      exact .ok .done
    · rw [next_edit hne, Edit.after, Edit.after, hn, hm]
      simpa [Edit.found?, hn, hf] using htwin

theorem editsTwin_compact (h : Twin ρ n m) : EditsTwin ρ n m .compact .compact := by
  obtain ⟨n', m', es, fs, hn, hm, htwin⟩ := h.compact
  have happly {l l' : Netlist} {gs : List Event} (hl : l.compact = .ok (l', gs)) :
      Edit.compact.apply l = .ok (.ofEvents (l', gs)) := by
    rw [Edit.apply, hl]
    rfl
  refine ⟨?_, ?_⟩
  · rw [Call.outcome, Call.outcome, happly hn, happly hm]
    exact .ok .done
  · rw [Edit.after, Edit.after, happly hn, happly hm]
    exact htwin

/-- The same edit of twins, with paired handles, has corresponding outcomes and leaves twins. -/
theorem edit (h : Twin ρ n m) (he : e.Paired ρ e') : EditsTwin ρ n m e e' := by
  cases he with
  | createBlock name model table =>
    exact editsTwin_of_made h (by simp) (x := .ok _) (y := .ok _) rfl rfl
      (.ok (h.createBlock name model table))
  | createPort hb name => exact editsTwin_of_made h (by simp) rfl rfl (h.createPort hb name)
  | createPin hp bit hnet role =>
    exact editsTwin_of_made h (by simp) rfl rfl (h.createPin hp bit hnet role)
  | createNet name =>
    exact editsTwin_of_made h (by simp) (x := .ok _) (y := .ok _) rfl rfl (.ok (h.createNet name))
  | addNet name hdriver hsinks =>
    exact editsTwin_of_made h (by simp) rfl rfl (h.addNet_edit name hdriver hsinks)
  | removeBlock hb => exact editsTwin_of_left h (by simp) (fun _ => rfl) rfl rfl (h.removeBlock hb)
  | removePin hi => exact editsTwin_of_left h (by simp) (fun _ => rfl) rfl rfl (h.removePin hi)
  | removeNet he => exact editsTwin_of_left h (by simp) (fun _ => rfl) rfl rfl (h.removeNet he)
  | removeNetPin he hi =>
    exact editsTwin_of_left h (by simp) (fun _ => rfl) rfl rfl (h.removeNetPin he hi)
  | sweep =>
    obtain ⟨n', m', es, fs, hn, hm, htwin⟩ := h.sweep
    refine editsTwin_of_left h (by simp) (f := Edited.ofEvents) (x := .ok (n', es))
      (y := .ok (m', fs)) (fun _ => rfl) ?_ ?_ (.ok htwin)
    · rw [Edit.apply, hn]
      rfl
    · rw [Edit.apply, hm]
      rfl
  | compact => exact h.editsTwin_compact

end Outcome

/-- The same call of twins, with paired handles, has corresponding outcomes and leaves twins. -/
theorem call (h : Twin ρ n m) {c c' : Call} (hc : c.Paired ρ c') :
    Corresponds ρ (Answer.Alike (ρ.answered n m c) n m) (c.outcome n) (c'.outcome m) ∧
      Twin (ρ.next n m c c') (c.after n) (c'.after m) := by
  cases hc with
  | edit he => exact h.edit he
  | query hq => exact ⟨h.ask hq, h⟩

theorem lockstep (h : Twin ρ n m) (calls : List (Call × Call)) :
    Lockstep Answer.Alike ρ n m calls := by
  induction calls generalizing ρ n m with
  | nil => trivial
  | cons pair calls ih =>
    intro hc
    obtain ⟨houtcome, htwin⟩ := h.call hc
    exact ⟨houtcome, ih htwin⟩

end Twin

end Netlist

end MappedNetlist
