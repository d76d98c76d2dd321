import MappedNetlist.Proofs.Invariance

/-!
# Removals are confluent

What removals leave of a consistent netlist is determined, in all its columns, by which entities are
still live and which nets their pins are on (`Shrinks.eq`). Each removal is a loss that can be read off
the netlist it begins with (`Edit.loss`), refused removals being no loss. Among removals of single
entities those losses do not depend on what was removed before, so they can be collected in advance
(`Edit.losses`), in any order. A sweep does depend on what was removed before, but it takes no pin and
no net.
-/

namespace MappedNetlist

/-! ## What is left is determined -/

theorem Column.eq_of_getElem? {α : Type} (k : Kind) {x y : Column α}
    (h : ∀ a : Handle k, x[a.index]? = y[a.index]?) : x = y :=
  Array.ext_getElem? fun i => h ⟨i⟩

namespace Netlist

variable {n m l : Netlist} {d e : Loss}

/-- The live entities of a netlist are those of its store. -/
theorem Sized.isLive_iff_of_store (hm : m.Sized) (hl : l.Sized) (h : m.store = l.store) {k : Kind}
    {x : Handle k} : m.IsLive x ↔ l.IsLive x := by
  cases k with
  | block => rw [hm.isLive_block_iff, hl.isLive_block_iff, h]
  | port => rw [hm.isLive_port_iff, hl.isLive_port_iff, h]
  | pin => rw [hm.isLive_pin_iff, hl.isLive_pin_iff, h]
  | net => rw [hm.isLive_net_iff, hl.isLive_net_iff, h]

namespace Remains

section

variable (hm : n.Remains m) (hl : n.Remains l) (cm : m.Consistent) (cl : l.Consistent)
  (hstore : m.store = l.store)
include hm hl cm cl hstore

theorem ports_pins_eq : m.ports.pins = l.ports.pins := by
  refine Column.eq_of_getElem? .port fun p => ?_
  by_cases hp : n.IsLive p
  · by_cases hpm : m.IsLive p
    · obtain ⟨r, hr⟩ := cm.sized.isLive_port_iff.1 hpm
      rw [(Ports.record?_eq_some_iff.1 hr).2.2.2.2.2,
        (Ports.record?_eq_some_iff.1 (hstore ▸ hr)).2.2.2.2.2]
    · have hpl : ¬l.IsLive p := mt (cm.sized.isLive_iff_of_store cl.sized hstore).2 hpm
      obtain ⟨gone, hrow, hgone⟩ := hm.port hp
      obtain ⟨gone', hrow', hgone'⟩ := hl.port hp
      rw [hrow, hrow', hgone.resolve_left hpm, hgone'.resolve_left hpl]
  · rw [hm.oldPort hp, hl.oldPort hp]

theorem pins_nets_eq : m.pins.nets = l.pins.nets := by
  refine Column.eq_of_getElem? .pin fun i => ?_
  by_cases hi : n.IsLive i
  · by_cases him : m.IsLive i
    · obtain ⟨r, hr⟩ := cm.sized.isLive_pin_iff.1 him
      rw [(Pins.record?_eq_some_iff.1 hr).2.2.2.1,
        (Pins.record?_eq_some_iff.1 (hstore ▸ hr)).2.2.2.1]
    · have hil : ¬l.IsLive i := mt (cm.sized.isLive_iff_of_store cl.sized hstore).2 him
      rw [hm.pin hi him, hl.pin hi hil]
  · rw [hm.oldPin hi, hl.oldPin hi]

theorem nets_pins_eq : m.nets.pins = l.nets.pins := by
  refine Column.eq_of_getElem? .net fun e => ?_
  by_cases he : n.IsLive e
  · by_cases hem : m.IsLive e
    · obtain ⟨r, hr⟩ := cm.sized.isLive_net_iff.1 hem
      rw [(Nets.record?_eq_some_iff.1 hr).2.2, (Nets.record?_eq_some_iff.1 (hstore ▸ hr)).2.2]
    · have hel : ¬l.IsLive e := mt (cm.sized.isLive_iff_of_store cl.sized hstore).2 hem
      rw [hm.net he hem, hl.net he hel]
  · rw [hm.oldNet he, hl.oldNet he]

end

end Remains

/-- Two netlists left of the same netlist are equal if they have the same entities, with their pins on
the same nets. -/
theorem Shrinks.eq (hn : n.Consistent) (hm : n.Shrinks m d) (hl : n.Shrinks l e)
    (h : m.store.Likewise l.store) : m = l := by
  have hstore : m.store = l.store := by
    rw [hm.store, hl.store]
    rw [hm.store, hl.store] at h
    exact hn.coherent.without_eq h
  have hslots (k : Kind) : m.slots k = l.slots k :=
    Slots.Placed.ext (hm.consistent.sized.placed k) (hl.consistent.sized.placed k)
      ((hm.issued k).trans (hl.issued k).symm)
      fun _ => hm.consistent.sized.isLive_iff_of_store hl.consistent.sized hstore
  have hblocks : m.blocks.slots = l.blocks.slots := hslots .block
  have hports : m.ports.slots = l.ports.slots := hslots .port
  have hpins : m.pins.slots = l.pins.slots := hslots .pin
  have hnets : m.nets.slots = l.nets.slots := hslots .net
  have hportPins := hm.remains.ports_pins_eq hl.remains hm.consistent hl.consistent hstore
  have hpinNets := hm.remains.pins_nets_eq hl.remains hm.consistent hl.consistent hstore
  have hnetPins := hm.remains.nets_pins_eq hl.remains hm.consistent hl.consistent hstore
  have hdirty : m.dirty = l.dirty := by
    rcases hm.changed with rfl | ⟨hd, hlost⟩
    · rcases hl.changed with rfl | ⟨-, hlost'⟩
      · rfl
      · exact absurd h hlost'
    · rcases hl.changed with rfl | ⟨hd', -⟩
      · exact absurd (hstore ▸ Store.Likewise.refl _) hlost
      · rw [hd, hd']
  ext1
  · rw [hm.remains.name, hl.remains.name]
  · exact hdirty
  · rw [hm.remains.blocks, hl.remains.blocks, hblocks]
  · rw [hm.remains.ports, hl.remains.ports, hports, hportPins]
  · rw [hm.remains.pins, hl.remains.pins, hpins, hpinNets]
  · rw [hm.remains.nets, hl.remains.nets, hnets, hnetPins]
  · rw [hm.strings, hl.strings]
  · exact Index.Exact.eq (hstore ▸ hm.consistent.indexed) hl.consistent.indexed

end Netlist

/-! ## Removals as losses -/

namespace Edit

/-- The edit only removes. -/
def Removes : Edit → Prop
  | removeBlock _ | removePin _ | removeNet _ | removeNetPin _ _ | sweep => True
  | _ => False

/-- All edits of the run succeed. -/
def Accepted (n : Netlist) : List Edit → Prop
  | [] => True
  | e :: es => (∃ r, e.apply n = .ok r) ∧ Accepted (e.after n) es

/-- What a removal takes from a store. -/
def loss (s : Store) : Edit → Loss
  | removeBlock b => .ofBlocks s (· == b)
  | removePin i => .ofPin i
  | removeNet e => .ofNet e
  | removeNetPin e i => { links := fun j => j == i && (s.pins i).any (·.net = some e) }
  | sweep => s.unused
  | _ => {}

/-- What removals take from a store, each of them by itself. -/
def losses (s : Store) (es : List Edit) : Loss where
  blocks b := es.any fun e => (e.loss s).blocks b
  ports p := es.any fun e => (e.loss s).ports p
  pins i := es.any fun e => (e.loss s).pins i
  nets x := es.any fun e => (e.loss s).nets x
  links i := es.any fun e => (e.loss s).links i

theorem losses_cons (s : Store) (e : Edit) (es : List Edit) :
    losses s (e :: es) = e.loss s ∪ losses s es := rfl

theorem losses_append (s : Store) (es fs : List Edit) :
    losses s (es ++ fs) = losses s es ∪ losses s fs := by
  ext1
  all_goals
    funext x
    exact List.any_append

theorem losses_singleton (s : Store) (e : Edit) : losses s [e] = e.loss s := by
  ext1
  all_goals
    funext x
    exact Bool.or_false _

theorem losses_removePins (s : Store) (is : List PinId) :
    losses s (is.map removePin) = { pins := fun i => decide (i ∈ is) } := by
  induction is with
  | nil => rfl
  | cons j is ih =>
    rw [List.map_cons, losses_cons, ih]
    refine Loss.ext rfl rfl (funext fun i => ?_) rfl rfl
    rw [Loss.pins_union, Bool.eq_iff_iff]
    simp [loss, Loss.ofPin]

theorem losses_removeNetPins (s : Store) (x : NetId) (is : List PinId) :
    losses s (is.map (removeNetPin x)) =
      { links := fun i => decide (i ∈ is) && (s.pins i).any (·.net = some x) } := by
  induction is with
  | nil => rfl
  | cons j is ih =>
    rw [List.map_cons, losses_cons, ih]
    refine Loss.ext rfl rfl rfl rfl (funext fun i => ?_)
    by_cases hij : i = j
    · subst hij
      simp [loss]
    · simp [loss, hij]

theorem losses_perm (s : Store) {es fs : List Edit} (h : es.Perm fs) :
    losses s es = losses s fs := by
  ext1
  all_goals
    funext x
    exact h.any_eq

end Edit

/-! ## What an earlier loss changes in a later one -/

section Later

variable {s : Store} {issued : Nat} {d : Loss}

theorem Edit.loss_nets (s t : Store) (e : Edit) : (e.loss s).nets = (e.loss t).nets := by
  cases e <;> rfl

/-- What else is lost with an entity is said by its record, which an earlier loss leaves. -/
theorem Edit.loss_without_pins (hs : (s.without d).Coherent issued) (e : Edit) {i : PinId}
    {r : PinRecord} (hr : (s.without d).pins i = some r) :
    (e.loss (s.without d)).pins i = (e.loss s).pins i := by
  cases e with
  | removeBlock b =>
    obtain ⟨t, ht, -⟩ := hs.placed hr
    obtain ⟨-, q, hq, rfl⟩ := Store.without_pins_eq_some_iff.1 hr
    obtain ⟨-, u, hu, rfl⟩ := Store.without_ports_eq_some_iff.1 ht
    simp only [PinRecord.release_port] at ht hu
    simp only [loss, Loss.ofBlocks, hr, hq, Option.any_some, PinRecord.release_port, ht, hu,
      PortRecord.clear_owner]
  | _ => rfl

theorem Edit.loss_without_links (e : Edit) {i : PinId} {r : PinRecord} {x : NetId}
    (hr : (s.without d).pins i = some r) (hx : r.net = some x) :
    (e.loss (s.without d)).links i = (e.loss s).links i := by
  cases e with
  | removeNetPin y j =>
    obtain ⟨-, q, hq, rfl⟩ := Store.without_pins_eq_some_iff.1 hr
    have hnet : q.net = some x := by
      rw [PinRecord.release_net] at hx
      split at hx
      · cases hx
      · exact (Option.filter_eq_some_iff.1 hx).1
    by_cases hij : i = j
    · subst hij
      simp only [loss, hr, hq, hx, hnet, Option.any_some]
    · simp only [loss, beq_eq_false_iff_ne.2 hij, Bool.false_and]
  | _ => rfl

theorem Edit.loss_without_ports {e : Edit} (he : e ≠ .sweep) {p : PortId} {r : PortRecord}
    (hr : (s.without d).ports p = some r) :
    (e.loss (s.without d)).ports p = (e.loss s).ports p := by
  cases e with
  | removeBlock b =>
    obtain ⟨-, q, hq, rfl⟩ := Store.without_ports_eq_some_iff.1 hr
    simp only [loss, Loss.ofBlocks, hr, hq, Option.any_some, PortRecord.clear_owner]
  | sweep => exact absurd rfl he
  | _ => rfl

theorem Edit.loss_blocks {e : Edit} (he : e ≠ .sweep) (s t : Store) :
    (e.loss s).blocks = (e.loss t).blocks := by
  cases e with
  | sweep => exact absurd rfl he
  | _ => rfl

/-- Read off before or after an earlier loss, removals cut the same wires. -/
theorem Edit.sameWires_losses (hs : (s.without d).Coherent issued) (es : List Edit) :
    ((s.without d).without (losses (s.without d) es)).SameWires
      ((s.without d).without (losses s es)) :=
  Store.sameWires_without (fun hr => List.any_congr rfl fun e => e.loss_without_pins hs hr)
    (fun hr hx => List.any_congr rfl fun e => e.loss_without_links hr hx)
    fun x => List.any_congr rfl fun e => congrFun (e.loss_nets _ _) x

/-- Without a sweep among them, they take the same entities. -/
theorem Edit.likewise_losses (hs : (s.without d).Coherent issued) {es : List Edit}
    (hes : .sweep ∉ es) : ((s.without d).without (losses (s.without d) es)).Likewise
      ((s.without d).without (losses s es)) := by
  have hany {f g : Edit → Bool} (h : ∀ e, e ≠ .sweep → f e = g e) : es.any f = es.any g := by
    rw [Bool.eq_iff_iff, List.any_eq_true, List.any_eq_true]
    refine exists_congr fun e => and_congr_right fun he => ?_
    rw [h e fun hsweep => hes (hsweep ▸ he)]
  refine ⟨sameWires_losses hs es, fun b => ?_, fun p => ?_⟩
  · have hblocks : (losses (s.without d) es).blocks b = (losses s es).blocks b :=
      hany fun e he => congrFun (loss_blocks he _ _) b
    simp only [Store.without_blocks, hblocks]
  · have hports {r : PortRecord} (hr : (s.without d).ports p = some r) :
        (losses (s.without d) es).ports p = (losses s es).ports p :=
      hany fun e he => loss_without_ports he hr
    generalize s.without d = t at hports ⊢
    rw [Store.without_ports, Store.without_ports]
    cases hr : t.ports p with
    | none => simp
    | some r =>
      rw [hports hr]
      split <;> rfl

end Later

namespace Netlist

variable {n m l : Netlist} {d e : Loss}

/-- A removal takes its loss, also where it is refused, since there the loss is none. -/
theorem Consistent.shrinks_after (hn : n.Consistent) {e : Edit} (he : e.Removes) :
    n.Shrinks (e.after n) (e.loss n.store) := by
  cases e with
  | removeBlock b =>
    by_cases hb : n.IsLive b
    · obtain ⟨m, es, hremove, hm⟩ := exists_removeBlock hn hb
      rwa [Edit.after_of_ok (r := .ofEvents (m, es)) (by rw [Edit.apply, hremove]; rfl)]
    · rw [Edit.after_of_error (by rw [Edit.apply, removeBlock_of_dead hb]; rfl)]
      have hblock {c : BlockId} {r : BlockRecord} (hc : n.store.blocks c = some r) : c ≠ b := by
        rintro rfl
        exact hb (Blocks.isLive_of_record? hc)
      have howner {p : PortId} {q : PortRecord} (hp : n.store.ports p = some q) : q.owner ≠ b := by
        obtain ⟨t, ht, -⟩ := hn.coherent.owned hp
        exact hblock ht
      refine (Shrinks.refl hn).congr hn ⟨fun hc => ?_, fun hp => ?_, fun hi => ?_, fun _ => rfl,
        fun _ => rfl⟩
      · simp [Edit.loss, Loss.ofBlocks, hblock hc]
      · simp [Edit.loss, Loss.ofBlocks, hp, howner hp]
      · obtain ⟨t, ht, -⟩ := hn.coherent.placed hi
        simp [Edit.loss, Loss.ofBlocks, hi, ht, howner ht]
  | removePin i =>
    by_cases hi : n.IsLive i
    · obtain ⟨m, es, hremove, hm⟩ := exists_removePin hn hi
      rwa [Edit.after_of_ok (r := .ofEvents (m, es)) (by rw [Edit.apply, hremove]; rfl)]
    · rw [Edit.after_of_error (by rw [Edit.apply, removePin_of_dead hi]; rfl)]
      refine (Shrinks.refl hn).congr hn ⟨fun _ => rfl, fun _ => rfl, fun {j r} hj => ?_,
        fun _ => rfl, fun _ => rfl⟩
      have hji : j ≠ i := by
        rintro rfl
        exact hi (Pins.isLive_of_record? hj)
      simp [Edit.loss, Loss.ofPin, hji]
  | removeNet e =>
    by_cases he : n.IsLive e
    · obtain ⟨m, es, hremove, hm⟩ := exists_removeNet hn he
      rwa [Edit.after_of_ok (r := .ofEvents (m, es)) (by rw [Edit.apply, hremove]; rfl)]
    · rw [Edit.after_of_error (by rw [Edit.apply, removeNet_of_dead he]; rfl)]
      refine (Shrinks.refl hn).congr hn ⟨fun _ => rfl, fun _ => rfl, fun _ => rfl,
        fun {x r} hx => ?_, fun _ => rfl⟩
      have hxe : x ≠ e := by
        rintro rfl
        exact he (Nets.isLive_of_record? hx)
      simp [Edit.loss, Loss.ofNet, hxe]
  | removeNetPin e i =>
    by_cases hon : ∃ r, n.store.pins i = some r ∧ r.net = some e
    · obtain ⟨r, hr, hnet⟩ := hon
      obtain ⟨m, hremove, hm⟩ := exists_removeNetPin hn hr hnet
      rw [Edit.after_of_ok (r := { netlist := m }) (by rw [Edit.apply, hremove]; rfl)]
      refine hm.congr hn ⟨fun _ => rfl, fun _ => rfl, fun _ => rfl, fun _ => rfl, fun _ => ?_⟩
      simp [Edit.loss, Loss.ofLink, hr, hnet]
    · have hrefused : ∃ err, n.removeNetPin e i = .error err := by
        by_cases he : n.IsLive e
        · by_cases hi : n.IsLive i
          · obtain ⟨r, hr⟩ := hn.sized.isLive_pin_iff.1 hi
            exact ⟨_, removeNetPin_of_apart he hr fun hnet => hon ⟨r, hr, hnet⟩⟩
          · exact ⟨_, removeNetPin_of_deadPin he hi⟩
        · exact ⟨_, removeNetPin_of_deadNet he i⟩
      obtain ⟨err, hrefused⟩ := hrefused
      rw [Edit.after_of_error (by rw [Edit.apply, hrefused]; rfl)]
      refine (Shrinks.refl hn).congr hn ⟨fun _ => rfl, fun _ => rfl, fun _ => rfl, fun _ => rfl,
        fun {j r} hj => ?_⟩
      have hapart : (n.store.pins i).any (·.net = some e) = false := by
        cases hi : n.store.pins i with
        | none => rfl
        | some r => simpa using fun hnet => hon ⟨r, hi, hnet⟩
      simp [Edit.loss, hapart]
  | sweep =>
    obtain ⟨m, es, hsweep, hm⟩ := exists_sweep hn
    rwa [Edit.after_of_ok (r := .ofEvents (m, es)) (by rw [Edit.apply, hsweep]; rfl)]
  | _ => exact he.elim

/-- Removals in a row are one loss. Which wires are left after them can be told from the netlist that
they begin with, and if none of them is a sweep, also which entities. -/
theorem Consistent.exists_shrinks_run (hn : n.Consistent) {es : List Edit}
    (hes : ∀ e ∈ es, e.Removes) : ∃ d, n.Shrinks (Edit.run n es) d ∧
      (n.store.without d).SameWires (n.store.without (Edit.losses n.store es)) ∧
      (.sweep ∉ es → (n.store.without d).Likewise (n.store.without (Edit.losses n.store es))) := by
  induction es generalizing n with
  | nil =>
    have hsame : (n.store.without {}).Likewise (n.store.without (Edit.losses n.store [])) :=
      .refl _
    exact ⟨{}, Shrinks.refl hn, hsame.toSameWires, fun _ => hsame⟩
  | cons e es ih =>
    obtain ⟨he, hes⟩ := List.forall_mem_cons.1 hes
    have hm := hn.shrinks_after he
    have hs := hm.consistent.coherent
    obtain ⟨d, hl, hwires, hlikewise⟩ := ih hm.consistent hes
    rw [hm.store] at hs hwires hlikewise
    refine ⟨_, hm.trans hl, ?_, fun hsweep => ?_⟩
    · rw [Edit.losses_cons, ← Store.without_without, ← Store.without_without]
      exact hwires.trans (Edit.sameWires_losses hs es)
    · obtain ⟨-, hsweep⟩ := not_or.1 (mt List.mem_cons.2 hsweep)
      rw [Edit.losses_cons, ← Store.without_without, ← Store.without_without]
      exact (hlikewise hsweep).trans (Edit.likewise_losses hs hsweep)

/-- Removals of single entities that would lose the same, each by itself, leave the same. -/
theorem Consistent.run_eq_of_likewise (hn : n.Consistent) {es fs : List Edit}
    (hes : ∀ e ∈ es, e.Removes) (hfs : ∀ e ∈ fs, e.Removes) (hes' : .sweep ∉ es)
    (hfs' : .sweep ∉ fs) (h : (n.store.without (Edit.losses n.store es)).Likewise
      (n.store.without (Edit.losses n.store fs))) : Edit.run n es = Edit.run n fs := by
  obtain ⟨d, hd, -, hsame⟩ := hn.exists_shrinks_run hes
  obtain ⟨d', hd', -, hsame'⟩ := hn.exists_shrinks_run hfs
  refine Shrinks.eq hn hd hd' ?_
  rw [hd.store, hd'.store]
  exact ((hsame hes').trans h).trans (hsame' hfs').symm

theorem isSome_eq_of_exists_iff {α β : Type} {x : Option α} {y : Option β}
    (h : (∃ a, x = some a) ↔ ∃ b, y = some b) : x.isSome = y.isSome := by
  rw [Bool.eq_iff_iff, Option.isSome_iff_exists, Option.isSome_iff_exists, h]

theorem likewise_of_sameWires (hm : m.Sized) (hl : l.Sized) (h : m.store.SameWires l.store)
    (hblocks : ∀ b : BlockId, m.IsLive b ↔ l.IsLive b)
    (hports : ∀ p : PortId, m.IsLive p ↔ l.IsLive p) : m.store.Likewise l.store where
  toSameWires := h
  block b := isSome_eq_of_exists_iff (by rw [← hm.isLive_block_iff, ← hl.isLive_block_iff, hblocks])
  port p := isSome_eq_of_exists_iff (by rw [← hm.isLive_port_iff, ← hl.isLive_port_iff, hports])

theorem sameWires_of_pinNet (hm : m.Sized) (hl : l.Sized)
    (hpins : ∀ i : PinId, m.IsLive i ↔ l.IsLive i) (hnets : ∀ e : NetId, m.IsLive e ↔ l.IsLive e)
    (hnet : ∀ i : PinId, m.IsLive i → m.pinNet i = l.pinNet i) : m.store.SameWires l.store where
  pin i := by
    by_cases hi : m.IsLive i
    · obtain ⟨r, hr⟩ := hm.isLive_pin_iff.1 hi
      obtain ⟨q, hq⟩ := hl.isLive_pin_iff.1 ((hpins i).1 hi)
      have hsame := hnet i hi
      rw [pinNet_eq_ok hr, pinNet_eq_ok hq, Except.ok.injEq] at hsame
      rw [hr, hq, Option.map_some, Option.map_some, hsame]
    · have hi' := mt (hpins i).2 hi
      rw [hm.isLive_pin_iff, ← Option.isSome_iff_exists, Option.not_isSome_iff_eq_none] at hi
      rw [hl.isLive_pin_iff, ← Option.isSome_iff_exists, Option.not_isSome_iff_eq_none] at hi'
      rw [hi, hi', Option.map_none]
  net e := isSome_eq_of_exists_iff (by rw [← hm.isLive_net_iff, ← hl.isLive_net_iff, hnets])

/-! ## Orders of removals -/

namespace Consistent

variable (hn : n.Consistent)
include hn

theorem run_eq_of_pinNet {es fs : List Edit} (hes : ∀ e ∈ es, e.Removes)
    (hfs : ∀ e ∈ fs, e.Removes)
    (hlive : ∀ (k : Kind) (x : Handle k), (Edit.run n es).IsLive x ↔ (Edit.run n fs).IsLive x)
    (hnet : ∀ i : PinId, (Edit.run n es).IsLive i →
      (Edit.run n es).pinNet i = (Edit.run n fs).pinNet i) :
    Edit.run n es = Edit.run n fs := by
  obtain ⟨d, hd, -⟩ := hn.exists_shrinks_run hes
  obtain ⟨d', hd', -⟩ := hn.exists_shrinks_run hfs
  have hm := hd.consistent.sized
  have hl := hd'.consistent.sized
  refine Shrinks.eq hn hd hd' (likewise_of_sameWires hm hl ?_ (hlive .block) (hlive .port))
  exact sameWires_of_pinNet hm hl (hlive .pin) (hlive .net) hnet

theorem run_perm {es fs : List Edit} (hperm : es.Perm fs) (hes : ∀ e ∈ es, e.Removes)
    (h : .sweep ∉ es ∨ (∀ b : BlockId, (Edit.run n es).IsLive b ↔ (Edit.run n fs).IsLive b) ∧
      ∀ p : PortId, (Edit.run n es).IsLive p ↔ (Edit.run n fs).IsLive p) :
    Edit.run n es = Edit.run n fs := by
  have hfs : ∀ e ∈ fs, e.Removes := fun e he => hes e (hperm.mem_iff.2 he)
  rcases h with hsweep | ⟨hblocks, hports⟩
  · refine hn.run_eq_of_likewise hes hfs hsweep (mt hperm.mem_iff.2 hsweep) ?_
    rw [Edit.losses_perm _ hperm]
    exact .refl _
  · obtain ⟨d, hd, hwires, -⟩ := hn.exists_shrinks_run hes
    obtain ⟨d', hd', hwires', -⟩ := hn.exists_shrinks_run hfs
    rw [Edit.losses_perm _ hperm] at hwires
    refine Shrinks.eq hn hd hd' (likewise_of_sameWires hd.consistent.sized hd'.consistent.sized ?_
      hblocks hports)
    rw [hd.store, hd'.store]
    exact hwires.trans hwires'.symm

/-- A removal absorbs earlier ones if it takes what they take. -/
theorem run_absorb {es : List Edit} {e : Edit} (hes : ∀ f ∈ es, f.Removes ∧ f ≠ .sweep)
    (he : e.Removes ∧ e ≠ .sweep)
    (h : (n.store.without (Edit.losses n.store es ∪ e.loss n.store)).Likewise
      (n.store.without (e.loss n.store))) : Edit.run n (es ++ [e]) = Edit.run n [e] := by
  have hall : ∀ f ∈ es ++ [e], f.Removes ∧ f ≠ .sweep := by
    simpa only [List.forall_mem_append, List.forall_mem_singleton] using ⟨hes, he⟩
  refine hn.run_eq_of_likewise (fun f hf => (hall f hf).1) ?_ (fun hf => (hall _ hf).2 rfl) ?_ ?_
  · exact List.forall_mem_singleton.2 he.1
  · exact fun hf => he.2 (List.mem_singleton.1 hf).symm
  · rwa [Edit.losses_append, Edit.losses_singleton]

/-- The loss of a block covers that of its pins. -/
theorem run_removePins_removeBlock {b : BlockId} {is : List PinId}
    (his : ∀ i ∈ is, n.pinBlock i = .ok b) :
    Edit.run n (is.map .removePin ++ [.removeBlock b]) = Edit.run n [.removeBlock b] := by
  have hcovered {i : PinId} (hi : i ∈ is) : (Loss.ofBlocks n.store (· == b)).pins i = true := by
    have hblock := his i hi
    by_cases hl : n.IsLive i
    · obtain ⟨r, hr⟩ := hn.sized.isLive_pin_iff.1 hl
      obtain ⟨q, hq, -⟩ := hn.coherent.placed hr
      rw [pinBlock_eq_ok hr hq, Except.ok.injEq] at hblock
      simp [Loss.ofBlocks, hr, hq, hblock]
    · rw [pinBlock, pinPort, require_of_dead hl] at hblock
      cases hblock
  have hloss : Edit.losses n.store (is.map .removePin) ∪ (Edit.removeBlock b).loss n.store =
      (Edit.removeBlock b).loss n.store := by
    rw [Edit.losses_removePins]
    refine Loss.ext rfl rfl (funext fun i => ?_) rfl rfl
    by_cases hi : i ∈ is
    · simp [Edit.loss, hcovered hi]
    · simp [hi]
  refine hn.run_absorb (List.forall_mem_map.2 fun i _ => ⟨trivial, by simp⟩) ⟨trivial, by simp⟩ ?_
  rw [hloss]
  exact .refl _

/-- The loss of a net covers that of its links. -/
theorem run_removeNetPins_removeNet (e : NetId) (is : List PinId) :
    Edit.run n (is.map (.removeNetPin e) ++ [.removeNet e]) = Edit.run n [.removeNet e] := by
  refine hn.run_absorb (List.forall_mem_map.2 fun i _ => ⟨trivial, by simp⟩) ⟨trivial, by simp⟩ ?_
  rw [Edit.losses_removeNetPins]
  refine ⟨⟨fun i => ?_, fun x => ?_⟩, fun _ => rfl, fun _ => rfl⟩
  · rw [Store.map_net_without, Store.map_net_without]
    cases hr : n.store.pins i with
    | none => rfl
    | some r =>
      cases hx : r.net with
      | none => simp [Edit.loss, Loss.ofNet, hx]
      | some x =>
        -- A pin that was taken off the net before would lose the net now.
        by_cases hxe : x = e <;> simp [Edit.loss, Loss.ofNet, hr, hx, hxe, Option.filter]
  · by_cases hxe : x = e <;> simp [Edit.loss, Loss.ofNet, hxe]

end Consistent

/-- Removals of whatever kind and order that leave the same entities, with the pins on the same nets,
leave the same netlist: what they make of removed entities, of the index and of the mark of change is
the same too. So the order of removals makes no difference, unless a sweep among them finds other
ports or blocks unused, and the removal of a block or net is not affected by earlier removals of its
pins. Refused removals count as none. -/
theorem removals_confluent {n : Netlist} (hn : n.Reachable) :
    (∀ es fs : List Edit, (∀ e ∈ es, e.Removes) → (∀ e ∈ fs, e.Removes) →
      (∀ (k : Kind) (x : Handle k), (Edit.run n es).IsLive x ↔ (Edit.run n fs).IsLive x) →
      (∀ i : PinId, (Edit.run n es).IsLive i →
        (Edit.run n es).pinNet i = (Edit.run n fs).pinNet i) →
      Edit.run n es = Edit.run n fs) ∧
    (∀ es fs : List Edit, es.Perm fs → (∀ e ∈ es, e.Removes) →
      (.sweep ∉ es ∨ (∀ b : BlockId, (Edit.run n es).IsLive b ↔ (Edit.run n fs).IsLive b) ∧
        ∀ p : PortId, (Edit.run n es).IsLive p ↔ (Edit.run n fs).IsLive p) →
      Edit.run n es = Edit.run n fs) ∧
    (∀ (b : BlockId) (is : List PinId), (∀ i ∈ is, n.pinBlock i = .ok b) →
      Edit.run n (is.map .removePin ++ [.removeBlock b]) = Edit.run n [.removeBlock b]) ∧
    ∀ (e : NetId) (is : List PinId),
      Edit.run n (is.map (.removeNetPin e) ++ [.removeNet e]) = Edit.run n [.removeNet e] := by
  have hc := hn.consistent
  refine ⟨fun es fs => hc.run_eq_of_pinNet, fun es fs => hc.run_perm, fun b is => ?_, ?_⟩
  · exact hc.run_removePins_removeBlock
  · exact hc.run_removeNetPins_removeNet

/-- A block with one port, whose one pin is the sink of a net. -/
def oneWire : List Edit :=
  [.createBlock "a" { name := "buf", ports := [.input "in" 1] } [], .createPort ⟨0⟩ "in",
    .createPin ⟨0⟩ 0 none .sink, .addNet "x" none [⟨0⟩]]

theorem removals_confluent_oneWire :
    Edit.run (.new "top") (oneWire ++ [.removeNet ⟨0⟩, .removeBlock ⟨0⟩]) =
        Edit.run (.new "top") (oneWire ++ [.removePin ⟨0⟩, .sweep, .removeNet ⟨0⟩]) ∧
      Edit.run (.new "top") (oneWire ++ [.removePin ⟨0⟩, .removeNet ⟨0⟩]) =
        Edit.run (.new "top") (oneWire ++ [.removeNet ⟨0⟩, .removePin ⟨0⟩]) ∧
      Edit.run (.new "top") (oneWire ++ [.removePin ⟨0⟩, .removeBlock ⟨0⟩]) =
        Edit.run (.new "top") (oneWire ++ [.removeBlock ⟨0⟩]) := by
  simp only [Edit.run_append]
  have h := removals_confluent ((Reachable.new "top").run oneWire)
  refine ⟨h.1 _ _ ?_ ?_ (fun _ _ => Iff.rfl) fun _ _ => rfl, h.2.1 _ _ (.swap ..) ?_ (.inl ?_),
    h.2.2.1 ⟨0⟩ [⟨0⟩] ?_⟩
  · simp [Edit.Removes]
  · simp [Edit.Removes]
  · simp [Edit.Removes]
  · simp
  · intro i hi
    obtain rfl := List.mem_singleton.1 hi
    rfl

/-- With a sweep among the removals their order matters: one that comes after the removal of a pin
may take the port and block that the pin leaves unused. -/
theorem not_removals_commute : ¬ ∀ n : Netlist, n.Reachable → ∀ es fs : List Edit,
    (∀ e ∈ es, e.Removes) → es.Perm fs → Edit.Accepted n es → Edit.Accepted n fs →
    Edit.run n es = Edit.run n fs := by
  intro h
  have heq := h _ ((Reachable.new "top").run oneWire) [.removePin ⟨0⟩, .sweep]
    [.sweep, .removePin ⟨0⟩] (by simp [Edit.Removes]) (.swap ..)
    ⟨⟨_, rfl⟩, ⟨_, rfl⟩, trivial⟩ ⟨⟨_, rfl⟩, ⟨_, rfl⟩, trivial⟩
  have hgone : ¬(Edit.run (Edit.run (.new "top") oneWire) [.removePin ⟨0⟩, .sweep]).IsLive
    (⟨0⟩ : BlockId) := by decide
  have hkept : (Edit.run (Edit.run (.new "top") oneWire) [.sweep, .removePin ⟨0⟩]).IsLive
    (⟨0⟩ : BlockId) := by decide
  exact hgone (heq ▸ hkept)

end Netlist

end MappedNetlist
