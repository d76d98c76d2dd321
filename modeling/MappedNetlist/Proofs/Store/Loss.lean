import MappedNetlist.Proofs.Consistency

/-!
# Shrinking stores

What removal does to a store. A `Loss` says which entities go and which pins only leave their nets.
Whatever refers to a lost pin or net forgets it; the lists of blocks alone keep lost ports. Losses
add up, so that a removal in many steps is one loss, and a store stays coherent if with every block
its ports are lost and with every port its pins.
-/

namespace MappedNetlist

/-- The entities that are lost, and the pins that leave their nets. -/
@[ext] structure Loss where
  blocks : BlockId → Bool := fun _ => false
  ports : PortId → Bool := fun _ => false
  pins : PinId → Bool := fun _ => false
  nets : NetId → Bool := fun _ => false
  links : PinId → Bool := fun _ => false

instance : Union Loss where
  union d e := {
    blocks := fun b => d.blocks b || e.blocks b
    ports := fun p => d.ports p || e.ports p
    pins := fun i => d.pins i || e.pins i
    nets := fun e' => d.nets e' || e.nets e'
    links := fun i => d.links i || e.links i }

namespace Loss

variable {d e : Loss}

@[simp] theorem blocks_union : (d ∪ e).blocks = fun b => d.blocks b || e.blocks b := rfl

@[simp] theorem ports_union : (d ∪ e).ports = fun p => d.ports p || e.ports p := rfl

@[simp] theorem pins_union : (d ∪ e).pins = fun i => d.pins i || e.pins i := rfl

@[simp] theorem nets_union : (d ∪ e).nets = fun x => d.nets x || e.nets x := rfl

@[simp] theorem links_union : (d ∪ e).links = fun i => d.links i || e.links i := rfl

def ofBlock (b : BlockId) : Loss := { blocks := (· == b) }

def ofPort (p : PortId) : Loss := { ports := (· == p) }

def ofPin (i : PinId) : Loss := { pins := (· == i) }

def ofNet (e : NetId) : Loss := { nets := (· == e) }

def ofLink (i : PinId) : Loss := { links := (· == i) }

/-- The loss of ports with their pins. -/
def ofPorts (s : Store) (ports : PortId → Bool) : Loss where
  ports := ports
  pins i := (s.pins i).any fun r => ports r.port

/-- The loss of blocks with their ports and the pins of these. -/
def ofBlocks (s : Store) (blocks : BlockId → Bool) : Loss where
  blocks := blocks
  ports p := (s.ports p).any fun r => blocks r.owner
  pins i := (s.pins i).any fun r => (s.ports r.port).any fun q => blocks q.owner

/-- Whether the entity of a handle is lost. -/
def takes (d : Loss) : {k : Kind} → Handle k → Bool
  | .block, b => d.blocks b
  | .port, p => d.ports p
  | .pin, i => d.pins i
  | .net, e => d.nets e

end Loss

/-- A list of slots with the pins that are gone taken out of it. -/
def clear (gone : PinId → Bool) (slots : List (Option PinId)) : List (Option PinId) :=
  slots.map (Option.filter fun i => !gone i)

section Clear

variable {f g : PinId → Bool} {slots : List (Option PinId)}

@[simp] theorem length_clear : (clear f slots).length = slots.length :=
  List.length_map ..

@[simp] theorem clear_eq_nil_iff : clear f slots = [] ↔ slots = [] :=
  List.map_eq_nil_iff

theorem getElem?_clear_eq_some_iff {k : Nat} {i : PinId} :
    (clear f slots)[k]? = some (some i) ↔ slots[k]? = some (some i) ∧ f i = false := by
  rw [clear, List.getElem?_map, Option.map_eq_some_iff]
  constructor
  · rintro ⟨slot, hslot, hi⟩
    obtain ⟨rfl, hf⟩ := Option.filter_eq_some_iff.1 hi
    exact ⟨hslot, by simpa using hf⟩
  · rintro ⟨hslot, hf⟩
    exact ⟨_, hslot, Option.filter_eq_some_iff.2 ⟨rfl, by simp [hf]⟩⟩

theorem clear_clear : clear g (clear f slots) = clear (fun i => f i || g i) slots := by
  rw [clear, clear, List.map_map, clear]
  congr 1
  funext slot
  cases slot with
  | none => rfl
  | some i => cases hf : f i <;> simp [Option.filter, hf]

theorem clear_congr (h : ∀ i, some i ∈ slots → f i = g i) : clear f slots = clear g slots := by
  refine List.map_congr_left fun slot hslot => ?_
  cases slot with
  | none => rfl
  | some i => simp [Option.filter, h i hslot]

theorem clear_eq_self (h : ∀ i, some i ∈ slots → f i = false) : clear f slots = slots := by
  have hnone : clear (fun _ => false) slots = slots := by
    rw [clear, List.map_congr_left (g := id), List.map_id]
    intro slot _
    cases slot <;> rfl
  rw [clear_congr h, hnone]

end Clear

/-- The record of a port whose pins are gone in part. -/
@[simps] def PortRecord.clear (r : PortRecord) (gone : PinId → Bool) : PortRecord :=
  { r with pins := MappedNetlist.clear gone r.pins }

/-- The record of a net whose pins are gone in part. -/
@[simps] def NetRecord.clear (r : NetRecord) (gone : PinId → Bool) : NetRecord :=
  { r with pins := MappedNetlist.clear gone r.pins }

/-- The record of a pin that may have left its net, or whose net may be gone. -/
@[simps] def PinRecord.release (r : PinRecord) (left : Bool) (gone : NetId → Bool) : PinRecord :=
  { r with net := if left then none else r.net.filter fun e => !gone e }

/-- A family of records with one of them taken away. -/
theorem ite_beq_none {α : Type} {k : Kind} (f : Handle k → Option α) (h : Handle k) :
    (fun x => if (x == h) = true then none else f x) = Function.update f h none := by
  funext x
  by_cases hx : x = h
  · simp [hx]
  · simp [hx]

@[simp] theorem PortRecord.clear_none (r : PortRecord) : (r.clear fun _ => false) = r :=
  PortRecord.ext rfl rfl rfl rfl (clear_eq_self fun _ _ => rfl)

@[simp] theorem NetRecord.clear_none (r : NetRecord) : (r.clear fun _ => false) = r :=
  NetRecord.ext rfl (clear_eq_self fun _ _ => rfl)

@[simp] theorem PinRecord.release_none (r : PinRecord) : r.release false (fun _ => false) = r := by
  refine PinRecord.ext rfl rfl ?_ rfl
  cases hnet : r.net <;> simp [hnet, Option.filter]

namespace Store

variable {s : Store} {issued : Nat} {d e : Loss}

/-- What is left of a store after a loss. -/
@[simps] def without (s : Store) (d : Loss) : Store where
  blocks b := if d.blocks b then none else s.blocks b
  ports p := if d.ports p then none else (s.ports p).map (·.clear d.pins)
  pins i := if d.pins i then none else (s.pins i).map (·.release (d.links i) d.nets)
  nets x := if d.nets x then none else (s.nets x).map (·.clear fun i => d.pins i || d.links i)

theorem without_blocks_eq_some_iff {b : BlockId} {r : BlockRecord} :
    (s.without d).blocks b = some r ↔ d.blocks b = false ∧ s.blocks b = some r := by
  cases h : d.blocks b <;> simp [h]

theorem without_ports_eq_some_iff {p : PortId} {r : PortRecord} :
    (s.without d).ports p = some r ↔
      d.ports p = false ∧ ∃ q, s.ports p = some q ∧ q.clear d.pins = r := by
  cases h : d.ports p <;> simp [h]

theorem without_pins_eq_some_iff {i : PinId} {r : PinRecord} :
    (s.without d).pins i = some r ↔
      d.pins i = false ∧ ∃ q, s.pins i = some q ∧ q.release (d.links i) d.nets = r := by
  cases h : d.pins i <;> simp [h]

theorem without_nets_eq_some_iff {x : NetId} {r : NetRecord} :
    (s.without d).nets x = some r ↔
      d.nets x = false ∧ ∃ q, s.nets x = some q ∧
        q.clear (fun i => d.pins i || d.links i) = r := by
  cases h : d.nets x <;> simp [h]

theorem without_nothing : s.without {} = s := by
  ext1
  · rfl
  · funext p
    simp
  · funext i
    simp
  · funext x
    simp

theorem without_ofBlock (b : BlockId) :
    s.without (.ofBlock b) = { s with blocks := Function.update s.blocks b none } := by
  ext1
  · exact ite_beq_none s.blocks b
  · funext x
    simp [Loss.ofBlock]
  · funext x
    simp [Loss.ofBlock]
  · funext x
    simp [Loss.ofBlock]

theorem without_ofPort (p : PortId) :
    s.without (.ofPort p) = { s with ports := Function.update s.ports p none } := by
  ext1
  · rfl
  · refine Eq.trans ?_ (ite_beq_none s.ports p)
    funext q
    simp [Loss.ofPort]
  · funext x
    simp [Loss.ofPort]
  · funext x
    simp [Loss.ofPort]

theorem without_ofPin (i : PinId) : s.without (.ofPin i) =
    { s with
      ports := fun p => (s.ports p).map (·.clear (· == i))
      pins := Function.update s.pins i none
      nets := fun e => (s.nets e).map (·.clear (· == i)) } := by
  ext1
  · rfl
  · rfl
  · refine Eq.trans ?_ (ite_beq_none s.pins i)
    funext j
    simp [Loss.ofPin]
  · funext e
    simp [Loss.ofPin]

theorem without_ofNet (e : NetId) : s.without (.ofNet e) =
    { s with
      pins := fun i => (s.pins i).map (·.release false (· == e))
      nets := Function.update s.nets e none } := by
  ext1
  · rfl
  · funext x
    simp [Loss.ofNet]
  · rfl
  · refine Eq.trans ?_ (ite_beq_none s.nets e)
    funext x
    simp [Loss.ofNet]

theorem without_ofLink (i : PinId) : s.without (.ofLink i) =
    { s with
      pins := fun j => (s.pins j).map (·.release (j == i) fun _ => false)
      nets := fun e => (s.nets e).map (·.clear (· == i)) } := by
  ext1
  · rfl
  · funext x
    simp [Loss.ofLink]
  · rfl
  · funext e
    simp [Loss.ofLink]

/-- Two losses in turn are one loss. -/
theorem without_without : (s.without d).without e = s.without (d ∪ e) := by
  ext1
  · funext b
    cases hd : d.blocks b <;> cases he : e.blocks b <;> simp [hd, he]
  · funext p
    cases hd : d.ports p <;> cases he : e.ports p <;>
      simp [hd, he, Function.comp_def, PortRecord.clear, clear_clear]
  · funext i
    have hrelease (r : PinRecord) : (r.release (d.links i) d.nets).release (e.links i) e.nets =
        r.release ((d ∪ e).links i) (d ∪ e).nets := by
      refine PinRecord.ext rfl rfl ?_ rfl
      cases hd : d.links i <;> cases he : e.links i <;> simp [hd, he]
    cases hd : d.pins i <;> cases he : e.pins i <;>
      simp [hd, he, Function.comp_def, hrelease]
  · funext x
    have hclear (r : NetRecord) : (r.clear fun i => d.pins i || d.links i).clear
        (fun i => e.pins i || e.links i) = r.clear fun i => (d ∪ e).pins i || (d ∪ e).links i := by
      refine NetRecord.ext rfl (clear_clear.trans (clear_congr fun i _ => ?_))
      simp only [Loss.pins_union, Loss.links_union, Bool.or_assoc, Bool.or_left_comm]
    cases hd : d.nets x <;> cases he : e.nets x <;> simp [hd, he, Function.comp_def, hclear]

end Store

/-- With every lost block its ports are lost, and with every lost port its pins. -/
structure Loss.Closed (d : Loss) (s : Store) : Prop where
  port {p : PortId} {r : PortRecord} : s.ports p = some r → d.blocks r.owner = true →
    d.ports p = true
  pin {i : PinId} {r : PinRecord} : s.pins i = some r → d.ports r.port = true → d.pins i = true

namespace Store

variable {s : Store} {issued : Nat} {d : Loss}

theorem Coherent.without (hs : s.Coherent issued) (hd : d.Closed s) :
    (s.without d).Coherent issued where
  listed {b r} hr c p hp := by
    obtain ⟨-, hr⟩ := without_blocks_eq_some_iff.1 hr
    obtain ⟨hlt, hlisted⟩ := hs.listed hr hp
    refine ⟨hlt, fun t ht => ?_⟩
    obtain ⟨-, q, hq, rfl⟩ := without_ports_eq_some_iff.1 ht
    exact hlisted q hq
  owned {p r} hr := by
    obtain ⟨hp, q, hq, rfl⟩ := without_ports_eq_some_iff.1 hr
    obtain ⟨b, hb, hmem⟩ := hs.owned hq
    refine ⟨b, without_blocks_eq_some_iff.2 ⟨?_, hb⟩, hmem⟩
    by_contra h
    simp [hd.port hq (by simpa using h)] at hp
  width hr := by
    obtain ⟨-, q, hq, rfl⟩ := without_ports_eq_some_iff.1 hr
    simpa using hs.width hq
  filled {p r} hr bit i hi := by
    obtain ⟨-, q, hq, rfl⟩ := without_ports_eq_some_iff.1 hr
    obtain ⟨hi, hkept⟩ := getElem?_clear_eq_some_iff.1 hi
    obtain ⟨t, ht, hplace⟩ := hs.filled hq hi
    exact ⟨_, without_pins_eq_some_iff.2 ⟨hkept, t, ht, rfl⟩, hplace⟩
  placed {i r} hr := by
    obtain ⟨hi, q, hq, rfl⟩ := without_pins_eq_some_iff.1 hr
    obtain ⟨p, hp, hbit, hget⟩ := hs.placed hq
    refine ⟨_, without_ports_eq_some_iff.2 ⟨?_, p, hp, rfl⟩, hbit,
      getElem?_clear_eq_some_iff.2 ⟨hget, hi⟩⟩
    by_contra h
    simp [hd.pin hq (by simpa using h)] at hi
  connected {i r} hr x hx := by
    obtain ⟨hi, q, hq, rfl⟩ := without_pins_eq_some_iff.1 hr
    rw [PinRecord.release_net] at hx
    split at hx
    · simp at hx
    · next hlink =>
      obtain ⟨hnet, hkept⟩ := Option.filter_eq_some_iff.1 hx
      obtain ⟨t, ht, slot, hslot, hrole⟩ := hs.connected hq hnet
      refine ⟨_, without_nets_eq_some_iff.2 ⟨by simpa using hkept, t, ht, rfl⟩, slot, ?_, hrole⟩
      exact getElem?_clear_eq_some_iff.2 ⟨hslot, by simpa [hi] using hlink⟩
  slotted hr := by
    obtain ⟨-, q, hq, rfl⟩ := without_nets_eq_some_iff.1 hr
    simpa using hs.slotted hq
  once hr i j k hj hk := by
    obtain ⟨-, q, hq, rfl⟩ := without_nets_eq_some_iff.1 hr
    exact hs.once hq (getElem?_clear_eq_some_iff.1 hj).1 (getElem?_clear_eq_some_iff.1 hk).1
  attached {x r} hr slot i hi := by
    obtain ⟨hx, q, hq, rfl⟩ := without_nets_eq_some_iff.1 hr
    obtain ⟨hi, hkept⟩ := getElem?_clear_eq_some_iff.1 hi
    obtain ⟨hpin, hlink⟩ := Bool.or_eq_false_iff.1 hkept
    obtain ⟨t, ht, hnet, hrole⟩ := hs.attached hq hi
    refine ⟨_, without_pins_eq_some_iff.2 ⟨hpin, t, ht, rfl⟩, ?_, hrole⟩
    simp [hlink, hnet, hx]

/-- Two losses agree on the entities of a store. -/
structure Agree (s : Store) (d e : Loss) : Prop where
  blocks {b : BlockId} {r : BlockRecord} : s.blocks b = some r → d.blocks b = e.blocks b
  ports {p : PortId} {r : PortRecord} : s.ports p = some r → d.ports p = e.ports p
  pins {i : PinId} {r : PinRecord} : s.pins i = some r → d.pins i = e.pins i
  nets {x : NetId} {r : NetRecord} : s.nets x = some r → d.nets x = e.nets x
  links {i : PinId} {r : PinRecord} : s.pins i = some r → d.links i = e.links i

/-- In a coherent store only what happens to its own entities matters. -/
theorem Coherent.without_congr (hs : s.Coherent issued) (h : s.Agree d e) :
    s.without d = s.without e := by
  ext1
  · funext b
    cases hb : s.blocks b with
    | none => simp [hb]
    | some r => simp [hb, h.blocks hb]
  · funext p
    cases hp : s.ports p with
    | none => simp [hp]
    | some r =>
      have hpins : r.clear d.pins = r.clear e.pins := by
        refine PortRecord.ext rfl rfl rfl rfl (clear_congr fun i hi => ?_)
        obtain ⟨bit, hbit⟩ := List.mem_iff_getElem?.1 hi
        obtain ⟨q, hq, -⟩ := hs.filled hp hbit
        exact h.pins hq
      simp [hp, h.ports hp, hpins]
  · funext i
    cases hi : s.pins i with
    | none => simp [hi]
    | some r =>
      have hnet : r.release (d.links i) d.nets = r.release (e.links i) e.nets := by
        refine PinRecord.ext rfl rfl ?_ rfl
        rw [PinRecord.release_net, PinRecord.release_net, h.links hi]
        split
        · rfl
        · cases hx : r.net with
          | none => rfl
          | some x =>
            obtain ⟨t, ht, -⟩ := hs.connected hi hx
            simp [Option.filter, h.nets ht]
      simp [hi, h.pins hi, hnet]
  · funext x
    cases hx : s.nets x with
    | none => simp [hx]
    | some r =>
      have hpins : r.clear (fun i => d.pins i || d.links i) =
          r.clear fun i => e.pins i || e.links i := by
        refine NetRecord.ext rfl (clear_congr fun i hi => ?_)
        obtain ⟨slot, hslot⟩ := List.mem_iff_getElem?.1 hi
        obtain ⟨q, hq, -⟩ := hs.attached hx hslot
        rw [h.pins hq, h.links hq]
      simp [hx, h.nets hx, hpins]

end Store

end MappedNetlist
