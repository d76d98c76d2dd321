import MappedNetlist.Proofs.Store.Growth
import MappedNetlist.Proofs.Store.Loss

/-!
# Exact lookups

A lookup stays exact if a fresh key is inserted for a handle without one, or the key of a handle is
erased. A lookup built from a list of distinct keys finds each key at its position.
-/

namespace MappedNetlist

section Keys

variable {α κ : Type} {k : Kind} {f : Handle k → Option α} {h : Handle k} {key : α → κ}

/-- Updating a family of records updates the family of their keys. -/
theorem map_update (v : Option α) : (fun x => (Function.update f h v x).map key) =
    Function.update (fun x => (f x).map key) h (v.map key) := by
  funext x
  by_cases hx : x = h
  · subst hx
    simp
  · simp [hx]

/-- A change of records that keeps their keys. -/
theorem map_modify {g : α → α} (hg : ∀ a, key (g a) = key a) :
    (fun x => (modify f h g x).map key) = fun x => (f x).map key := by
  funext x
  by_cases hx : x = h
  · subst hx
    simp [Function.comp_def, hg]
  · rw [modify_of_ne f g hx]

/-- Keys by position are distinct if no two positions have the same key. -/
theorem nodup_keys {keyOf : Handle k → Option κ} {keys : List κ}
    (hkeys : ∀ i, keys[i]? = keyOf ⟨i⟩)
    (hinj : ∀ {g h : Handle k} {key : κ}, keyOf g = some key → keyOf h = some key → g = h) :
    keys.Nodup := by
  rw [List.Nodup, List.pairwise_iff_getElem]
  intro i j hi hj hlt heq
  have hgi := (hkeys i).symm.trans (List.getElem?_eq_getElem hi)
  have hgj := (hkeys j).symm.trans (List.getElem?_eq_getElem hj)
  have hij := hinj (hgi.trans (congrArg some heq)) hgj
  exact Nat.ne_of_lt hlt (congrArg Handle.index hij)

end Keys

namespace Lookup

variable {κ : Type} [Ord κ] [Std.TransOrd κ] {k : Kind} {m : Lookup κ k}
  {keyOf : Handle k → Option κ}

/-- Two live handles with one key are the same. -/
theorem Exact.injective (hm : m.Exact keyOf) {key : κ} {g h : Handle k} (hg : keyOf g = some key)
    (hh : keyOf h = some key) : g = h :=
  Option.some.inj (((hm key g).2 hg).symm.trans ((hm key h).2 hh))

variable [Std.LawfulEqOrd κ]

theorem getElem?_insert_of_ne (m : Lookup κ k) {key key' : κ} (h : Handle k) (hk : key ≠ key') :
    (m.insert key h)[key']? = m[key']? := by
  have hcmp : compare key key' ≠ .eq := fun heq => hk (Std.compare_eq_iff_eq.1 heq)
  rw [Std.ExtTreeMap.getElem?_insert, if_neg hcmp]

theorem getElem?_erase_of_ne (m : Lookup κ k) {key key' : κ} (hk : key ≠ key') :
    (m.erase key)[key']? = m[key']? := by
  have hcmp : compare key key' ≠ .eq := fun heq => hk (Std.compare_eq_iff_eq.1 heq)
  rw [Std.ExtTreeMap.getElem?_erase, if_neg hcmp]

theorem Exact.insert (hm : m.Exact keyOf) {key : κ} {h : Handle k} (hh : keyOf h = none)
    (hkey : m[key]? = none) :
    Lookup.Exact (m.insert key h) (Function.update keyOf h (some key)) := by
  intro key' h'
  by_cases hk : key = key'
  · subst hk
    rw [Std.ExtTreeMap.getElem?_insert_self]
    by_cases hh' : h' = h
    · subst hh'
      simp
    · have hne : ¬keyOf h' = some key := by
        rw [← hm key h', hkey]
        simp
      simp [hh', Ne.symm hh', hne]
  · rw [getElem?_insert_of_ne m h hk, hm key' h']
    by_cases hh' : h' = h
    · subst hh'
      simp [hh, hk]
    · simp [hh']

theorem Exact.erase (hm : m.Exact keyOf) {key : κ} {h : Handle k} (hh : keyOf h = some key) :
    Lookup.Exact (m.erase key) (Function.update keyOf h none) := by
  intro key' h'
  by_cases hk : key = key'
  · subst hk
    rw [Std.ExtTreeMap.getElem?_erase_self]
    by_cases hh' : h' = h
    · subst hh'
      simp
    · have hne : ¬keyOf h' = some key := fun h'' => hh' (hm.injective h'' hh)
      simp [hh', hne]
  · rw [getElem?_erase_of_ne m hk, hm key' h']
    by_cases hh' : h' = h
    · subst hh'
      simp [hh, hk]
    · simp [hh']

/-! ## Lookups of keys by position -/

theorem getElem?_foldl_insert {keys : List κ} (hkeys : keys.Nodup) (m : Lookup κ k) (i : Nat)
    (key : κ) (h : Handle k) :
    ((keys.zipIdx i).foldl (fun m (key, i) => m.insert key ⟨i⟩) m)[key]? = some h ↔
      (i ≤ h.index ∧ keys[h.index - i]? = some key) ∨ (key ∉ keys ∧ m[key]? = some h) := by
  induction keys generalizing m i with
  | nil => simp
  | cons a keys ih =>
    obtain ⟨ha, hkeys⟩ := List.nodup_cons.1 hkeys
    obtain ⟨j⟩ := h
    rw [List.zipIdx_cons, List.foldl_cons, ih hkeys]
    have hlater : i + 1 ≤ j ∧ keys[j - (i + 1)]? = some key ↔
        i < j ∧ (a :: keys)[j - i]? = some key := by
      refine and_congr_right fun hij => ?_
      obtain ⟨d, rfl⟩ := Nat.exists_eq_add_of_lt hij
      rw [show i + d + 1 - i = d + 1 by omega, List.getElem?_cons_succ,
        show i + d + 1 - (i + 1) = d by omega]
    rw [hlater]
    by_cases hk : a = key
    · subst hk
      have hfirst : i ≤ j ∧ (a :: keys)[j - i]? = some a ↔ i = j := by
        constructor
        · rintro ⟨hij, hget⟩
          by_contra hne
          exact ha (List.mem_of_getElem? (hlater.2 ⟨Nat.lt_of_le_of_ne hij hne, hget⟩).2)
        · rintro rfl
          simp
      have hlt : ¬(i < j ∧ (a :: keys)[j - i]? = some a) :=
        fun h => ha (List.mem_of_getElem? (hlater.2 h).2)
      rw [Std.ExtTreeMap.getElem?_insert_self, hfirst]
      simp only [hlt, ha, Option.some.injEq, Handle.mk.injEq, List.mem_cons_self]
      simp
    · have hne : (a :: keys)[j - i]? = some key → i ≠ j := by
        rintro hget rfl
        simp [hk] at hget
      rw [getElem?_insert_of_ne m _ hk, List.mem_cons, not_or]
      simp only [Ne.symm hk, not_false_eq_true, true_and]
      refine or_congr_left (and_congr_left fun hget => ?_)
      exact ⟨Nat.le_of_lt, fun hij => Nat.lt_of_le_of_ne hij (hne hget)⟩

/-- A lookup built from the keys by position finds the position of each key, if no two positions have
the same key. -/
theorem exact_ofKeys {keys : List κ} (hkeys : ∀ i, keys[i]? = keyOf ⟨i⟩)
    (hinj : ∀ {g h : Handle k} {key : κ}, keyOf g = some key → keyOf h = some key → g = h) :
    Lookup.Exact (Lookup.ofKeys keys : Lookup κ k) keyOf := by
  intro key h
  rw [Lookup.ofKeys, getElem?_foldl_insert (nodup_keys hkeys hinj)]
  simp [hkeys]

theorem size_foldl_insert {keys : List κ} (hkeys : keys.Nodup) (m : Lookup κ k) (i : Nat)
    (hnew : ∀ key ∈ keys, key ∉ m) :
    ((keys.zipIdx i).foldl (fun m (key, i) => m.insert key ⟨i⟩) m).size = m.size + keys.length := by
  induction keys generalizing m i with
  | nil => rfl
  | cons a keys ih =>
    obtain ⟨ha, hkeys⟩ := List.nodup_cons.1 hkeys
    obtain ⟨hm, hnew⟩ := List.forall_mem_cons.1 hnew
    have hlater : ∀ key ∈ keys, key ∉ m.insert a ⟨i⟩ := by
      intro key hkey
      rw [Std.ExtTreeMap.mem_insert, Std.compare_eq_iff_eq, not_or]
      exact ⟨fun heq => ha (heq ▸ hkey), hnew key hkey⟩
    have hsize : (m.insert a ⟨i⟩).size = m.size + 1 := by
      rw [Std.ExtTreeMap.size_insert]
      exact if_neg hm
    rw [List.zipIdx_cons, List.foldl_cons, ih hkeys _ _ hlater, hsize, List.length_cons, Nat.add_assoc,
      Nat.add_comm 1]

/-- A lookup built from distinct keys has an entry for each. -/
theorem size_ofKeys {keys : List κ} (hkeys : keys.Nodup) :
    (Lookup.ofKeys keys : Lookup κ k).size = keys.length := by
  rw [Lookup.ofKeys, size_foldl_insert hkeys _ _ fun key _ => Std.ExtTreeMap.not_mem_empty,
    Std.ExtTreeMap.size_empty, Nat.zero_add]

end Lookup

/-! ## The index of a changed store -/

namespace Index.Exact

variable {x : Index} {s : Store}

theorem addBlock (hx : x.Exact s) {b : BlockId} {r : BlockRecord} (hb : s.blocks b = none)
    (hkey : x.blocks[r.name]? = none) :
    Exact { x with blocks := x.blocks.insert r.name b } (s.addBlock b r) where
  blocks := by
    rw [Store.addBlock_blocks, map_update]
    exact hx.blocks.insert (by simp [hb]) hkey
  ports := hx.ports
  pins := hx.pins
  nets := hx.nets

theorem addPort (hx : x.Exact s) {p : PortId} {r : PortRecord} (hp : s.ports p = none)
    (hkey : x.ports[r.key]? = none) :
    Exact { x with ports := x.ports.insert r.key p } (s.addPort p r) where
  blocks := by
    rw [Store.addPort_blocks, map_modify]
    · exact hx.blocks
    · exact fun _ => rfl
  ports := by
    rw [Store.addPort_ports, map_update]
    exact hx.ports.insert (by simp [hp]) hkey
  pins := hx.pins
  nets := hx.nets

theorem addPin (hx : x.Exact s) {i : PinId} {r : PinRecord} (hi : s.pins i = none)
    (hkey : x.pins[r.key]? = none) :
    Exact { x with pins := x.pins.insert r.key i } (s.addPin i r) where
  blocks := hx.blocks
  ports := by
    rw [Store.addPin_ports, map_modify]
    · exact hx.ports
    · exact fun _ => rfl
  pins := by
    rw [Store.addPin_pins, map_update]
    exact hx.pins.insert (by simp [hi]) hkey
  nets := by
    rw [Store.addPin_nets]
    cases r.net with
    | none => exact hx.nets
    | some e =>
      dsimp only
      rw [map_modify]
      · exact hx.nets
      · exact fun _ => rfl

theorem addNet (hx : x.Exact s) {e : NetId} {r : NetRecord} (he : s.nets e = none)
    (hkey : x.nets[r.name]? = none) :
    Exact { x with nets := x.nets.insert r.name e } (s.addNet e r) where
  blocks := hx.blocks
  ports := hx.ports
  pins := by
    simp only [Store.addNet_pins, Option.map_map]
    exact hx.pins
  nets := by
    rw [Store.addNet_nets, map_update]
    exact hx.nets.insert (by simp [he]) hkey

/-- The index keeps up with a loss if the keys of what is lost are taken out of it. -/
theorem without {d : Loss} {y : Index}
    (hb : y.blocks.Exact fun b => if d.blocks b then none else (s.blocks b).map BlockRecord.name)
    (hp : y.ports.Exact fun p => if d.ports p then none else (s.ports p).map PortRecord.key)
    (hi : y.pins.Exact fun i => if d.pins i then none else (s.pins i).map PinRecord.key)
    (he : y.nets.Exact fun e => if d.nets e then none else (s.nets e).map NetRecord.name) :
    y.Exact (s.without d) where
  blocks := by
    simp only [Store.without_blocks, apply_ite (Option.map _), Option.map_none]
    exact hb
  ports := by
    simp only [Store.without_ports, apply_ite (Option.map _), Option.map_none, Option.map_map]
    exact hp
  pins := by
    simp only [Store.without_pins, apply_ite (Option.map _), Option.map_none, Option.map_map]
    exact hi
  nets := by
    simp only [Store.without_nets, apply_ite (Option.map _), Option.map_none, Option.map_map]
    exact he

end Index.Exact

end MappedNetlist
