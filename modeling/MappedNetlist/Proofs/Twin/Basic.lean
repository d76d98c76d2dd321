import Mathlib.Data.List.Forall2
import MappedNetlist.Proofs.Query

/-!
# Twin netlists

Two netlists are twins if they have the same live entities under different handles. Which handle
stands for which is said by a `Pairing`. It may pair handles that are dead on both sides, so that a
caller can go on using them; every live entity has its counterpart, and the records of the two have
the same names and numbers, with paired handles in them. What removed entities have left behind is
not compared: a block may list more dead ports than its twin, a net may have other empty slots, and
a name may be interned under another handle.
-/

namespace MappedNetlist

section Relations

variable {α β γ : Type} {R S : α → β → Prop} {T : β → γ → Prop} {o : Option α} {o' : Option β}
  {o'' : Option γ} {l : List α} {l' : List β} {l'' : List γ}

theorem rel_some_left_iff {a : α} : Option.Rel R (some a) o' ↔ ∃ b, o' = some b ∧ R a b := by
  constructor
  · rintro (h | h)
    exact ⟨_, rfl, h⟩
  · rintro ⟨b, rfl, h⟩
    exact .some h

theorem rel_some_right_iff {b : β} : Option.Rel R o (some b) ↔ ∃ a, o = some a ∧ R a b := by
  constructor
  · rintro (h | h)
    exact ⟨_, rfl, h⟩
  · rintro ⟨a, rfl, h⟩
    exact .some h

theorem rel_none_left_iff : Option.Rel R none o' ↔ o' = none := by
  constructor
  · rintro (h | h)
    rfl
  · rintro rfl
    exact .none

theorem Rel.imp (h : Option.Rel R o o') (hRS : ∀ a b, R a b → S a b) : Option.Rel S o o' := by
  rcases h with h | _
  · exact .some (hRS _ _ h)
  · exact .none

theorem Rel.map {α' β' : Type} {S : α' → β' → Prop} {f : α → α'} {g : β → β'}
    (h : Option.Rel R o o') (hfg : ∀ a b, o = some a → o' = some b → R a b → S (f a) (g b)) :
    Option.Rel S (o.map f) (o'.map g) := by
  rcases h with h | _
  · exact .some (hfg _ _ rfl rfl h)
  · exact .none

theorem Rel.flip (h : Option.Rel R o o') : Option.Rel (flip R) o' o := by
  rcases h with h | _
  · exact .some h
  · exact .none

theorem Rel.comp (h : Option.Rel R o o') (h' : Option.Rel T o' o'') :
    Option.Rel (fun a c => ∃ b, R a b ∧ T b c) o o'' := by
  rcases h with h | _
  · obtain ⟨c, rfl, hc⟩ := rel_some_left_iff.1 h'
    exact .some ⟨_, h, hc⟩
  · rw [rel_none_left_iff.1 h']
    exact .none

theorem Rel.toList (h : Option.Rel R o o') : List.Forall₂ R o.toList o'.toList := by
  rcases h with h | _
  · exact .cons h .nil
  · exact .nil

theorem Forall₂.comp (h : List.Forall₂ R l l') (h' : List.Forall₂ T l' l'') :
    List.Forall₂ (fun a c => ∃ b, R a b ∧ T b c) l l'' := by
  induction h generalizing l'' with
  | nil =>
    rw [List.forall₂_nil_left_iff.1 h']
    exact .nil
  | cons hab _ ih =>
    obtain ⟨c, u, hbc, hu, rfl⟩ := List.forall₂_cons_left_iff.1 h'
    exact .cons ⟨_, hab, hbc⟩ (ih hu)

/-- Lists that are related entry by entry have related entries at every position. -/
theorem Forall₂.getElem? (h : List.Forall₂ R l l') (i : Nat) : Option.Rel R l[i]? l'[i]? := by
  induction h generalizing i with
  | nil => exact .none
  | cons hab _ ih =>
    cases i with
    | zero => exact .some hab
    | succ i => exact ih i

theorem Forall₂.exists_of_mem (h : List.Forall₂ R l l') {a : α} (ha : a ∈ l) : ∃ b ∈ l', R a b := by
  obtain ⟨i, hi⟩ := List.mem_iff_getElem?.1 ha
  obtain ⟨b, hb, hab⟩ := rel_some_left_iff.1 (hi ▸ Forall₂.getElem? h i)
  exact ⟨b, List.mem_of_getElem? hb, hab⟩

theorem Forall₂.set {a : α} {b : β} (h : List.Forall₂ R l l') (hab : R a b) (i : Nat) :
    List.Forall₂ R (l.set i a) (l'.set i b) := by
  induction h generalizing i with
  | nil => exact .nil
  | cons hcd hl ih =>
    cases i with
    | zero => exact .cons hab hl
    | succ i => exact .cons hcd (ih i)

end Relations

/-- Which handles of one netlist stand for which handles of another one. -/
abbrev Pairing := (k : Kind) → Handle k → Handle k → Prop

namespace Pairing

variable {ρ σ : Pairing}

def flip (ρ : Pairing) : Pairing := fun k h h' => ρ k h' h

def comp (ρ σ : Pairing) : Pairing := fun k h h'' => ∃ h', ρ k h h' ∧ σ k h' h''

/-- One more pair. -/
inductive Add (ρ : Pairing) {k : Kind} (h h' : Handle k) : Pairing
  | old {l : Kind} {g g' : Handle l} : ρ l g g' → Add ρ h h' l g g'
  | new : Add ρ h h' k h h'

/-- Adding a pair that is there changes nothing. -/
theorem add_of_rel {k : Kind} {h h' : Handle k} (hh : ρ k h h') : Add ρ h h' = ρ := by
  funext l g g'
  refine propext ⟨?_, .old⟩
  rintro (hg | _)
  · exact hg
  · exact hh

end Pairing

/-- Both names stand for one text. -/
def SameText (t u : StringTable) (x y : StringId) : Prop :=
  ∃ s, t.text? x = some s ∧ u.text? y = some s

namespace SameText

variable {t u v : StringTable} {x y z : StringId}

theorem symm (h : SameText t u x y) : SameText u t y x := by
  obtain ⟨s, hx, hy⟩ := h
  exact ⟨s, hy, hx⟩

theorem trans (h : SameText t u x y) (h' : SameText u v y z) : SameText t v x z := by
  obtain ⟨s, hx, hy⟩ := h
  obtain ⟨s', hy', hz⟩ := h'
  obtain rfl : s = s' := Option.some.inj (hy.symm.trans hy')
  exact ⟨s, hx, hz⟩

/-- Twin names stand for the same texts. -/
theorem text_iff (h : SameText t u x y) {s : String} :
    t.text? x = some s ↔ u.text? y = some s := by
  obtain ⟨s', hx, hy⟩ := h
  rw [hx, hy]

end SameText

/-! ## Twin records -/

/-- The live ports that a block lists under a class. -/
def Store.listed (s : Store) (r : BlockRecord) (c : PortClass) : List PortId :=
  (r.listed c).filter fun p => (s.ports p).isSome

/-- The pin in the slot for the driver. -/
def NetRecord.driver (r : NetRecord) : Option PinId := r.pins.head?.join

theorem NetRecord.driver_eq_some_iff {r : NetRecord} {i : PinId} :
    r.driver = some i ↔ r.pins[0]? = some (some i) := by
  rw [driver, Option.join_eq_some_iff, List.head?_eq_getElem?]

theorem NetRecord.driver_eq_none_iff {r : NetRecord} (hr : r.pins ≠ []) :
    r.driver = none ↔ r.pins[0]? = some none := by
  obtain ⟨slot, slots, hslots⟩ := List.exists_cons_of_ne_nil hr
  simp [driver, hslots]

/-- The pins in the other slots. -/
def NetRecord.sinks (r : NetRecord) : List PinId := r.pins.tail.filterMap id

structure BlockRecord.Twin (ρ : Pairing) (n m : Netlist) (r r' : BlockRecord) : Prop where
  name : SameText n.strings m.strings r.name r'.name
  model : r.model = r'.model
  table : r.table = r'.table
  listed (c : PortClass) : List.Forall₂ (ρ .port) (n.store.listed r c) (m.store.listed r' c)
  ports : r.ports = [] ↔ r'.ports = []

structure PortRecord.Twin (ρ : Pairing) (n m : Netlist) (r r' : PortRecord) : Prop where
  name : SameText n.strings m.strings r.name r'.name
  owner : ρ .block r.owner r'.owner
  width : r.width = r'.width
  portClass : r.portClass = r'.portClass
  pins : List.Forall₂ (Option.Rel (ρ .pin)) r.pins r'.pins

structure PinRecord.Twin (ρ : Pairing) (r r' : PinRecord) : Prop where
  port : ρ .port r.port r'.port
  bit : r.bit = r'.bit
  net : Option.Rel (ρ .net) r.net r'.net
  role : r.role = r'.role

structure NetRecord.Twin (ρ : Pairing) (n m : Netlist) (r r' : NetRecord) : Prop where
  name : SameText n.strings m.strings r.name r'.name
  driver : Option.Rel (ρ .pin) r.driver r'.driver
  sinks : List.Forall₂ (ρ .pin) r.sinks r'.sinks

section Records

variable {ρ σ : Pairing} {n m l : Netlist}

theorem BlockRecord.Twin.symm {r r' : BlockRecord} (h : r.Twin ρ n m r') :
    r'.Twin ρ.flip m n r where
  name := h.name.symm
  model := h.model.symm
  table := h.table.symm
  listed c := (h.listed c).flip
  ports := h.ports.symm

theorem PortRecord.Twin.symm {r r' : PortRecord} (h : r.Twin ρ n m r') :
    r'.Twin ρ.flip m n r where
  name := h.name.symm
  owner := h.owner
  width := h.width.symm
  portClass := h.portClass.symm
  pins := (h.pins.imp fun _ _ => Rel.flip).flip

theorem PinRecord.Twin.symm {r r' : PinRecord} (h : r.Twin ρ r') : r'.Twin ρ.flip r where
  port := h.port
  bit := h.bit.symm
  net := Rel.flip h.net
  role := h.role.symm

theorem NetRecord.Twin.symm {r r' : NetRecord} (h : r.Twin ρ n m r') :
    r'.Twin ρ.flip m n r where
  name := h.name.symm
  driver := Rel.flip h.driver
  sinks := h.sinks.flip

theorem BlockRecord.Twin.trans {r r' r'' : BlockRecord} (h : r.Twin ρ n m r')
    (h' : r'.Twin σ m l r'') : r.Twin (ρ.comp σ) n l r'' where
  name := h.name.trans h'.name
  model := h.model.trans h'.model
  table := h.table.trans h'.table
  listed c := Forall₂.comp (h.listed c) (h'.listed c)
  ports := h.ports.trans h'.ports

theorem PortRecord.Twin.trans {r r' r'' : PortRecord} (h : r.Twin ρ n m r')
    (h' : r'.Twin σ m l r'') : r.Twin (ρ.comp σ) n l r'' where
  name := h.name.trans h'.name
  owner := ⟨_, h.owner, h'.owner⟩
  width := h.width.trans h'.width
  portClass := h.portClass.trans h'.portClass
  pins := (Forall₂.comp h.pins h'.pins).imp fun _ _ ⟨_, hab, hbc⟩ => Rel.comp hab hbc

theorem PinRecord.Twin.trans {r r' r'' : PinRecord} (h : r.Twin ρ r') (h' : r'.Twin σ r'') :
    r.Twin (ρ.comp σ) r'' where
  port := ⟨_, h.port, h'.port⟩
  bit := h.bit.trans h'.bit
  net := Rel.comp h.net h'.net
  role := h.role.trans h'.role

theorem NetRecord.Twin.trans {r r' r'' : NetRecord} (h : r.Twin ρ n m r')
    (h' : r'.Twin σ m l r'') : r.Twin (ρ.comp σ) n l r'' where
  name := h.name.trans h'.name
  driver := Rel.comp h.driver h'.driver
  sinks := Forall₂.comp h.sinks h'.sinks

end Records

namespace Netlist

variable {ρ σ : Pairing} {n m l : Netlist}

/-- The live entities of both netlists are the same under paired handles. -/
structure Twin (ρ : Pairing) (n m : Netlist) : Prop where
  left : n.Consistent
  right : m.Consistent
  /-- Only handles that were issued are paired. -/
  issued {k : Kind} {h h' : Handle k} : ρ k h h' →
    h.index < (n.slots k).size ∧ h'.index < (m.slots k).size
  functional {k : Kind} {h h' g' : Handle k} : ρ k h h' → ρ k h g' → h' = g'
  injective {k : Kind} {h g h' : Handle k} : ρ k h h' → ρ k g h' → h = g
  total {k : Kind} {h : Handle k} : n.IsLive h → ∃ h', ρ k h h'
  surjective {k : Kind} {h' : Handle k} : m.IsLive h' → ∃ h, ρ k h h'
  block {b b' : BlockId} : ρ .block b b' →
    Option.Rel (BlockRecord.Twin ρ n m) (n.store.blocks b) (m.store.blocks b')
  port {p p' : PortId} : ρ .port p p' →
    Option.Rel (PortRecord.Twin ρ n m) (n.store.ports p) (m.store.ports p')
  pin {i i' : PinId} : ρ .pin i i' →
    Option.Rel (PinRecord.Twin ρ) (n.store.pins i) (m.store.pins i')
  net {e e' : NetId} : ρ .net e e' →
    Option.Rel (NetRecord.Twin ρ n m) (n.store.nets e) (m.store.nets e')

namespace Twin

theorem symm (h : Twin ρ n m) : Twin ρ.flip m n where
  left := h.right
  right := h.left
  issued hh := (h.issued hh).symm
  functional := h.injective
  injective := h.functional
  total := h.surjective
  surjective := h.total
  block hb := Rel.imp (Rel.flip (h.block hb)) fun _ _ => BlockRecord.Twin.symm
  port hp := Rel.imp (Rel.flip (h.port hp)) fun _ _ => PortRecord.Twin.symm
  pin hi := Rel.imp (Rel.flip (h.pin hi)) fun _ _ => PinRecord.Twin.symm
  net he := Rel.imp (Rel.flip (h.net he)) fun _ _ => NetRecord.Twin.symm

/-- A live handle is paired with a live one. -/
theorem isLive (h : Twin ρ n m) {k : Kind} {x x' : Handle k} (hx : ρ k x x') (hl : n.IsLive x) :
    m.IsLive x' := by
  cases k with
  | block =>
    obtain ⟨r, hr⟩ := h.left.sized.isLive_block_iff.1 hl
    obtain ⟨r', hr', -⟩ := rel_some_left_iff.1 (hr ▸ h.block hx)
    exact h.right.sized.isLive_block_iff.2 ⟨r', hr'⟩
  | port =>
    obtain ⟨r, hr⟩ := h.left.sized.isLive_port_iff.1 hl
    obtain ⟨r', hr', -⟩ := rel_some_left_iff.1 (hr ▸ h.port hx)
    exact h.right.sized.isLive_port_iff.2 ⟨r', hr'⟩
  | pin =>
    obtain ⟨r, hr⟩ := h.left.sized.isLive_pin_iff.1 hl
    obtain ⟨r', hr', -⟩ := rel_some_left_iff.1 (hr ▸ h.pin hx)
    exact h.right.sized.isLive_pin_iff.2 ⟨r', hr'⟩
  | net =>
    obtain ⟨r, hr⟩ := h.left.sized.isLive_net_iff.1 hl
    obtain ⟨r', hr', -⟩ := rel_some_left_iff.1 (hr ▸ h.net hx)
    exact h.right.sized.isLive_net_iff.2 ⟨r', hr'⟩

theorem isLive_iff (h : Twin ρ n m) {k : Kind} {x x' : Handle k} (hx : ρ k x x') :
    n.IsLive x ↔ m.IsLive x' :=
  ⟨h.isLive hx, h.symm.isLive hx⟩

theorem eq_iff (h : Twin ρ n m) {k : Kind} {x x' y y' : Handle k} (hx : ρ k x x')
    (hy : ρ k y y') : x = y ↔ x' = y' := by
  constructor
  · rintro rfl
    exact h.functional hx hy
  · rintro rfl
    exact h.injective hx hy

theorem eq_some_iff (h : Twin ρ n m) {k : Kind} {o o' : Option (Handle k)} {x x' : Handle k}
    (ho : Option.Rel (ρ k) o o') (hx : ρ k x x') : o = some x ↔ o' = some x' := by
  rcases ho with hy | _
  · rw [Option.some_inj, Option.some_inj]
    exact h.eq_iff hy hx
  · simp

theorem mem_iff (h : Twin ρ n m) {k : Kind} {l l' : List (Handle k)} {x x' : Handle k}
    (hl : List.Forall₂ (ρ k) l l') (hx : ρ k x x') : x ∈ l ↔ x' ∈ l' := by
  have hunique : Relator.BiUnique (ρ k) := ⟨fun _ _ _ => h.injective, fun _ _ _ => h.functional⟩
  exact List.rel_mem hunique hx hl

theorem block_cases (h : Twin ρ n m) {b b' : BlockId} (hb : ρ .block b b') :
    (¬n.IsLive b ∧ ¬m.IsLive b') ∨ ∃ r r', n.store.blocks b = some r ∧
      m.store.blocks b' = some r' ∧ r.Twin ρ n m r' := by
  by_cases hl : n.IsLive b
  · obtain ⟨r, hr⟩ := h.left.sized.isLive_block_iff.1 hl
    obtain ⟨r', hr', ht⟩ := rel_some_left_iff.1 (hr ▸ h.block hb)
    exact .inr ⟨r, r', hr, hr', ht⟩
  · exact .inl ⟨hl, fun hl' => hl ((h.isLive_iff hb).2 hl')⟩

theorem port_cases (h : Twin ρ n m) {p p' : PortId} (hp : ρ .port p p') :
    (¬n.IsLive p ∧ ¬m.IsLive p') ∨ ∃ r r', n.store.ports p = some r ∧
      m.store.ports p' = some r' ∧ r.Twin ρ n m r' := by
  by_cases hl : n.IsLive p
  · obtain ⟨r, hr⟩ := h.left.sized.isLive_port_iff.1 hl
    obtain ⟨r', hr', ht⟩ := rel_some_left_iff.1 (hr ▸ h.port hp)
    exact .inr ⟨r, r', hr, hr', ht⟩
  · exact .inl ⟨hl, fun hl' => hl ((h.isLive_iff hp).2 hl')⟩

theorem pin_cases (h : Twin ρ n m) {i i' : PinId} (hi : ρ .pin i i') :
    (¬n.IsLive i ∧ ¬m.IsLive i') ∨ ∃ r r', n.store.pins i = some r ∧
      m.store.pins i' = some r' ∧ r.Twin ρ r' := by
  by_cases hl : n.IsLive i
  · obtain ⟨r, hr⟩ := h.left.sized.isLive_pin_iff.1 hl
    obtain ⟨r', hr', ht⟩ := rel_some_left_iff.1 (hr ▸ h.pin hi)
    exact .inr ⟨r, r', hr, hr', ht⟩
  · exact .inl ⟨hl, fun hl' => hl ((h.isLive_iff hi).2 hl')⟩

theorem net_cases (h : Twin ρ n m) {e e' : NetId} (he : ρ .net e e') :
    (¬n.IsLive e ∧ ¬m.IsLive e') ∨ ∃ r r', n.store.nets e = some r ∧
      m.store.nets e' = some r' ∧ r.Twin ρ n m r' := by
  by_cases hl : n.IsLive e
  · obtain ⟨r, hr⟩ := h.left.sized.isLive_net_iff.1 hl
    obtain ⟨r', hr', ht⟩ := rel_some_left_iff.1 (hr ▸ h.net he)
    exact .inr ⟨r, r', hr, hr', ht⟩
  · exact .inl ⟨hl, fun hl' => hl ((h.isLive_iff he).2 hl')⟩

theorem listed_eq_filter (hn : n.Sized) (r : BlockRecord) (c : PortClass) :
    n.store.listed r c = (r.listed c).filter (n.IsLive ·) := by
  refine List.filter_congr fun p _ => ?_
  rw [Bool.eq_iff_iff, decide_eq_true_iff, hn.isLive_port_iff, Option.isSome_iff_exists]

theorem filter_ports (hn : n.Sized) (r : BlockRecord) : r.ports.filter (n.IsLive ·) =
    n.store.listed r .input ++ n.store.listed r .output ++ n.store.listed r .clock := by
  rw [BlockRecord.ports, List.filter_append, List.filter_append, listed_eq_filter hn,
    listed_eq_filter hn, listed_eq_filter hn]

theorem ports (h : Twin ρ n m) {r r' : BlockRecord} (ht : r.Twin ρ n m r') :
    List.Forall₂ (ρ .port) (r.ports.filter (n.IsLive ·)) (r'.ports.filter (m.IsLive ·)) := by
  rw [filter_ports h.left.sized, filter_ports h.right.sized]
  exact List.rel_append (List.rel_append (ht.listed .input) (ht.listed .output)) (ht.listed .clock)

theorem trans (h : Twin ρ n m) (h' : Twin σ m l) : Twin (ρ.comp σ) n l where
  left := h.left
  right := h'.right
  issued := by
    rintro k x z ⟨y, hxy, hyz⟩
    exact ⟨(h.issued hxy).1, (h'.issued hyz).2⟩
  functional := by
    rintro k x z w ⟨y, hxy, hyz⟩ ⟨v, hxv, hvw⟩
    obtain rfl := h.functional hxy hxv
    exact h'.functional hyz hvw
  injective := by
    rintro k x w z ⟨y, hxy, hyz⟩ ⟨v, hwv, hvz⟩
    obtain rfl := h'.injective hyz hvz
    exact h.injective hxy hwv
  total hl := by
    obtain ⟨y, hxy⟩ := h.total hl
    obtain ⟨z, hyz⟩ := h'.total (h.isLive hxy hl)
    exact ⟨z, y, hxy, hyz⟩
  surjective hl := by
    obtain ⟨y, hyz⟩ := h'.surjective hl
    obtain ⟨x, hxy⟩ := h.surjective (h'.symm.isLive hyz hl)
    exact ⟨x, y, hxy, hyz⟩
  block := by
    rintro x z ⟨y, hxy, hyz⟩
    refine Rel.imp (Rel.comp (h.block hxy) (h'.block hyz)) ?_
    rintro r r'' ⟨r', hr, hr'⟩
    exact hr.trans hr'
  port := by
    rintro x z ⟨y, hxy, hyz⟩
    refine Rel.imp (Rel.comp (h.port hxy) (h'.port hyz)) ?_
    rintro r r'' ⟨r', hr, hr'⟩
    exact hr.trans hr'
  pin := by
    rintro x z ⟨y, hxy, hyz⟩
    refine Rel.imp (Rel.comp (h.pin hxy) (h'.pin hyz)) ?_
    rintro r r'' ⟨r', hr, hr'⟩
    exact hr.trans hr'
  net := by
    rintro x z ⟨y, hxy, hyz⟩
    refine Rel.imp (Rel.comp (h.net hxy) (h'.net hyz)) ?_
    rintro r r'' ⟨r', hr, hr'⟩
    exact hr.trans hr'

end Twin

end Netlist

end MappedNetlist
