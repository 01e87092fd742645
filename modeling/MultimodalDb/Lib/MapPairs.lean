import Mathlib.Data.List.AList

/-!
# Maps and the pairs they are written as

A map is written to a file as the list of its pairs and read back by inserting them one by one, so
that of two pairs with one key the later counts. Written the oldest pair first it is read back as it
was (`fill_reverse`); written in any order it is read back with the same values
(`lookup_fill_of_perm`).
-/

namespace MultimodalDb

namespace MapPairs

variable {K V : Type} [DecidableEq K]

/-! ## Lookups as a function -/

theorem lookup_insert_eq_update (m : AList (fun _ : K => V)) (k : K) (v : V) :
    (fun j => (m.insert k v).lookup j) = Function.update (fun j => m.lookup j) k (some v) := by
  funext j
  by_cases hj : j = k
  · subst hj
    simp
  · rw [AList.lookup_insert_ne hj, Function.update_of_ne hj]

theorem lookup_erase_eq_update (m : AList (fun _ : K => V)) (k : K) :
    (fun j => (m.erase k).lookup j) = Function.update (fun j => m.lookup j) k none := by
  funext j
  by_cases hj : j = k
  · subst hj
    simp
  · rw [AList.lookup_erase_ne hj, Function.update_of_ne hj]

/-! ## Pairs -/

/-- The pairs of a map, the newest first. -/
def pairs (m : AList (fun _ : K => V)) : List (K × V) := m.entries.map fun e => (e.1, e.2)

/-- The map that takes pairs in one by one. -/
def fill (list : List (K × V)) : AList (fun _ : K => V) :=
  list.foldl (fun m p => m.insert p.1 p.2) ∅

theorem mem_pairs {m : AList (fun _ : K => V)} {k : K} {v : V} :
    (k, v) ∈ pairs m ↔ m.lookup k = some v := by
  rw [← Option.mem_def, AList.mem_lookup_iff, pairs, List.mem_map]
  constructor
  · rintro ⟨⟨a, b⟩, hMem, hEq⟩
    simp only [Prod.mk.injEq] at hEq
    obtain ⟨rfl, rfl⟩ := hEq
    exact hMem
  · intro h
    exact ⟨⟨k, v⟩, h, rfl⟩

omit [DecidableEq K] in
theorem keys_pairs (m : AList (fun _ : K => V)) : (pairs m).map Prod.fst = m.keys := by
  rw [pairs, List.map_map]
  rfl

omit [DecidableEq K] in
theorem nodup_keys_pairs (m : AList (fun _ : K => V)) : ((pairs m).map Prod.fst).Nodup :=
  keys_pairs m ▸ m.keys_nodup

theorem fill_reverse (m : AList (fun _ : K => V)) : fill (pairs m).reverse = m := by
  obtain ⟨entries, hKeys⟩ := m
  rw [fill, List.foldl_reverse, pairs]
  induction entries with
  | nil => rfl
  | cons e rest ih =>
    have hRest := List.nodupKeys_cons.mp hKeys
    rw [List.map_cons, List.foldr_cons, ih hRest.2]
    exact (AList.mk_cons_eq_insert e rest hKeys).symm

theorem mem_fill {list : List (K × V)} {k : K} : k ∈ fill list ↔ k ∈ list.map Prod.fst := by
  have hFrom : ∀ m : AList (fun _ : K => V),
      k ∈ list.foldl (fun m p => m.insert p.1 p.2) m ↔ k ∈ list.map Prod.fst ∨ k ∈ m := by
    induction list with
    | nil => simp
    | cons p rest ih =>
      intro m
      rw [List.foldl_cons, ih, AList.mem_insert, List.map_cons, List.mem_cons]
      tauto
  rw [fill, hFrom]
  simp

/-- A value that is read was written under its key. -/
theorem mem_of_lookup_fill {list : List (K × V)} {k : K} {v : V}
    (h : (fill list).lookup k = some v) :
    (k, v) ∈ list := by
  have hFrom : ∀ m : AList (fun _ : K => V),
      (list.foldl (fun m p => m.insert p.1 p.2) m).lookup k = some v → (k, v) ∈ list ∨
        m.lookup k = some v := by
    clear h
    induction list with
    | nil => exact fun m hAt => Or.inr hAt
    | cons p rest ih =>
      intro m hAt
      obtain ⟨a, b⟩ := p
      rcases ih _ hAt with hMem | hHead
      · exact Or.inl (List.mem_cons_of_mem _ hMem)
      · rcases eq_or_ne k a with rfl | hNe
        · rw [AList.lookup_insert, Option.some.injEq] at hHead
          exact Or.inl (hHead ▸ List.mem_cons_self)
        · rw [AList.lookup_insert_ne hNe] at hHead
          exact Or.inr hHead
  exact (hFrom ∅ h).resolve_right (by simp)

theorem lookup_foldl_insert {list : List (K × V)} (hKeys : (list.map Prod.fst).Nodup)
    (m : AList (fun _ : K => V)) (k : K) (v : V) :
    (list.foldl (fun m p => m.insert p.1 p.2) m).lookup k = some v ↔
      (k, v) ∈ list ∨ k ∉ list.map Prod.fst ∧ m.lookup k = some v := by
  induction list generalizing m with
  | nil => simp
  | cons p rest ih =>
    obtain ⟨a, b⟩ := p
    obtain ⟨hNew, hRest⟩ := List.nodup_cons.mp hKeys
    rw [List.foldl_cons, ih hRest]
    have hAbsent : ∀ v, (a, v) ∉ rest := fun v hMem => hNew (List.mem_map.mpr ⟨(a, v), hMem, rfl⟩)
    rcases eq_or_ne k a with rfl | hNe
    · rw [AList.lookup_insert]
      simp [hAbsent, hNew, eq_comm]
    · rw [AList.lookup_insert_ne hNe]
      simp [hNe]

theorem lookup_fill {list : List (K × V)} (hKeys : (list.map Prod.fst).Nodup) {k : K} {v : V} :
    (fill list).lookup k = some v ↔ (k, v) ∈ list := by
  rw [fill, lookup_foldl_insert hKeys]
  simp

theorem lookup_fill_of_perm {list : List (K × V)} {m : AList (fun _ : K => V)}
    (h : list.Perm (pairs m)) (k : K) :
    (fill list).lookup k = m.lookup k := by
  have hKeys : (list.map Prod.fst).Nodup := (h.map Prod.fst).nodup_iff.mpr (nodup_keys_pairs m)
  refine Option.ext fun v => ?_
  rw [lookup_fill hKeys, h.mem_iff, mem_pairs]

/-- Values that are made from others are read as these. -/
theorem lookup_fill_map {ι W : Type} (key : ι → K) (value : ι → V) (f : V → W)
    (list : List ι) (k : K) :
    (fill (list.map fun i => (key i, f (value i)))).lookup k =
      ((fill (list.map fun i => (key i, value i))).lookup k).map f := by
  have hFrom : ∀ (m : AList (fun _ : K => V)) (m' : AList (fun _ : K => W)),
      (m'.lookup k = (m.lookup k).map f) →
      ((list.map fun i => (key i, f (value i))).foldl (fun m p => m.insert p.1 p.2) m').lookup k =
        (((list.map fun i => (key i, value i)).foldl (fun m p => m.insert p.1 p.2) m).lookup k).map
          f := by
    induction list with
    | nil => exact fun _ _ h => h
    | cons i rest ih =>
      intro m m' h
      refine ih _ _ ?_
      rcases eq_or_ne k (key i) with rfl | hNe
      · rw [AList.lookup_insert, AList.lookup_insert, Option.map_some]
      · rw [AList.lookup_insert_ne hNe, AList.lookup_insert_ne hNe, h]
  exact hFrom ∅ ∅ (by rw [AList.lookup_empty, AList.lookup_empty, Option.map_none])

/-- The keys of a map are told by those that it took in. -/
theorem keys_fill_congr {W : Type} {list : List (K × V)} {list' : List (K × W)}
    (h : list.map Prod.fst = list'.map Prod.fst) : (fill list).keys = (fill list').keys := by
  have hFrom : ∀ (m : AList (fun _ : K => V)) (m' : AList (fun _ : K => W)), m.keys = m'.keys →
      (list.foldl (fun m p => m.insert p.1 p.2) m).keys =
        (list'.foldl (fun m p => m.insert p.1 p.2) m').keys := by
    induction list generalizing list' with
    | nil =>
      obtain rfl := List.map_eq_nil_iff.mp h.symm
      exact fun _ _ hKeys => hKeys
    | cons p rest ih =>
      obtain ⟨p', rest', rfl, hHead, hRest⟩ := List.map_eq_cons_iff.mp h.symm
      intro m m' hKeys
      refine ih hRest.symm _ _ ?_
      rw [AList.keys_insert, AList.keys_insert, hKeys, hHead]
  exact hFrom ∅ ∅ rfl

/-- Keys with values of their own. -/
theorem lookup_fill_of_key (value : K → V) (list : List K) (k : K) :
    (fill (list.map fun k => (k, value k))).lookup k = if k ∈ list then some (value k)
      else none := by
  have hKeys : (list.map fun k => (k, value k)).map Prod.fst = list := by
    rw [List.map_map]
    exact List.map_id list
  split
  · next hMem =>
    obtain ⟨v, hAt⟩ :=
      Option.isSome_iff_exists.mp (AList.lookup_isSome.mpr (mem_fill.mpr (hKeys.symm ▸ hMem)))
    obtain ⟨k', -, hEq⟩ := List.mem_map.mp (mem_of_lookup_fill hAt)
    obtain ⟨rfl, rfl⟩ := Prod.mk.inj hEq
    exact hAt
  · next hNot =>
    rw [AList.lookup_eq_none, mem_fill, hKeys]
    exact hNot

/-- What is read key by key is read pair by pair. -/
theorem filterMap_keys {β : Type} (m : AList (fun _ : K => V)) (f : K → V → β) :
    (m.keys.filterMap fun k => (m.lookup k).map (f k)) = (pairs m).map fun p => f p.1 p.2 := by
  rw [← keys_pairs, List.filterMap_map, ← List.filterMap_eq_map]
  refine List.filterMap_congr fun p hp => ?_
  have hAt := mem_pairs.mp hp
  simp only [Function.comp_apply, hAt, Option.map_some]

end MapPairs

end MultimodalDb
