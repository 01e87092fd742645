import Mathlib.Data.List.AList
import Mathlib.Data.Sym.Sym2
import Mathlib.Data.Finset.Image
import Mathlib.Algebra.BigOperators.Group.Finset.Basic
import Mathlib.Algebra.GroupWithZero.Nat

/-!
# Neighbor lists

An undirected graph kept as a map from each node to the list of its neighbors: an edge stands in the
list of both of its endpoints. A list that loses its last neighbor leaves the map.

What the map says is its set of edges, unordered pairs of nodes. Adding an edge inserts its pair
(`edges_pushEdge`), dropping a node removes the pairs with it (`edges_dropEdgesOf`), and half the
sum of the lengths is the number of pairs (`edgeCount_eq_card`).
-/

namespace MultimodalDb

abbrev NeighborLists (Id : Type) := AList (fun _ : Id => List Id)

namespace NeighborLists

variable {Id : Type} [DecidableEq Id]

/-- The neighbors of a node: none for a node that has no entry. -/
def neighbors (m : NeighborLists Id) (id : Id) : List Id := (m.lookup id).getD []

/-- `entry(a).or_default().push(b)`. -/
def push (m : NeighborLists Id) (a b : Id) : NeighborLists Id := m.insert a (m.neighbors a ++ [b])

/-- An edge goes under both of its endpoints. -/
def pushEdge (m : NeighborLists Id) (a b : Id) : NeighborLists Id := (m.push a b).push b a

/-- An edge that is there already is not added. -/
def addEdge (m : NeighborLists Id) (a b : Id) : NeighborLists Id :=
  if b ∈ m.neighbors a then m else m.pushEdge a b

def ofEdges (edges : List (Id × Id)) : NeighborLists Id :=
  edges.foldl (fun m e => m.pushEdge e.1 e.2) ∅

/-- A node forgets the neighbor `id`, and goes when that was its last. -/
def forget (id : Id) (m : NeighborLists Id) (node : Id) : NeighborLists Id :=
  match m.lookup node with
  | none => m
  | some back =>
    let rest := back.filter (· ≠ id)
    if rest.isEmpty then m.erase node else m.insert node rest

/-- Every edge touching `id` goes; with the number of them. -/
def dropEdgesOf (m : NeighborLists Id) (id : Id) : Nat × NeighborLists Id :=
  match m.lookup id with
  | none => (0, m)
  | some found => (found.length, found.foldl (forget id) (m.erase id))

def degreeSum (m : NeighborLists Id) : Nat := (m.entries.map (fun e => e.2.length)).sum

def edgeCount (m : NeighborLists Id) : Nat := m.degreeSum / 2

/-! ## Neighbors -/

@[simp] theorem neighbors_empty (id : Id) : neighbors (∅ : NeighborLists Id) id = [] := rfl

theorem neighbors_insert (m : NeighborLists Id) (node : Id) (list : List Id) (id : Id) :
    neighbors (m.insert node list) id = if id = node then list else m.neighbors id := by
  unfold neighbors
  split
  · next h => rw [h, AList.lookup_insert, Option.getD_some]
  · next h => rw [AList.lookup_insert_ne h]

theorem neighbors_erase (m : NeighborLists Id) (node id : Id) :
    neighbors (m.erase node) id = if id = node then [] else m.neighbors id := by
  unfold neighbors
  split
  · next h => rw [h, AList.lookup_erase, Option.getD_none]
  · next h => rw [AList.lookup_erase_ne h]

theorem neighbors_push (m : NeighborLists Id) (a b id : Id) :
    (m.push a b).neighbors id = if id = a then m.neighbors a ++ [b] else m.neighbors id :=
  neighbors_insert ..

theorem neighbors_pushEdge (m : NeighborLists Id) {a b : Id} (h : a ≠ b) (id : Id) :
    (m.pushEdge a b).neighbors id =
      if id = a then m.neighbors a ++ [b] else if id = b then m.neighbors b ++ [a]
        else m.neighbors id := by
  rw [pushEdge, neighbors_push, neighbors_push, neighbors_push, if_neg h.symm]
  split
  · next hb => rw [if_neg (hb ▸ h.symm)]
  · rfl

theorem neighbors_forget (id : Id) (m : NeighborLists Id) (node other : Id) :
    (m.forget id node).neighbors other =
      if other = node then (m.neighbors other).filter (· ≠ id) else m.neighbors other := by
  unfold forget
  cases hFound : m.lookup node with
  | none =>
    have hNone : m.neighbors node = [] := by rw [neighbors, hFound, Option.getD_none]
    dsimp only
    split
    · next h => rw [h, hNone, List.filter_nil]
    · rfl
  | some back =>
    have hBack : m.neighbors node = back := by rw [neighbors, hFound, Option.getD_some]
    dsimp only
    split
    · next hEmpty =>
      rw [neighbors_erase]
      split
      · next h => rw [h, hBack, List.isEmpty_iff.mp hEmpty]
      · rfl
    · rw [neighbors_insert]
      split
      · next h => rw [h, hBack]
      · rfl

theorem neighbors_forgetAll (id : Id) (m : NeighborLists Id) (nodes : List Id) (other : Id) :
    (nodes.foldl (forget id) m).neighbors other =
      if other ∈ nodes then (m.neighbors other).filter (· ≠ id) else m.neighbors other := by
  induction nodes generalizing m with
  | nil => simp
  | cons node nodes ih =>
    rw [List.foldl_cons, ih, neighbors_forget]
    by_cases hNode : other = node <;> by_cases hIn : other ∈ nodes <;> simp [hNode, hIn]

theorem neighbors_dropEdgesOf (m : NeighborLists Id) (id other : Id) :
    (m.dropEdgesOf id).2.neighbors other =
      if other = id then []
      else if other ∈ m.neighbors id then (m.neighbors other).filter (· ≠ id)
      else m.neighbors other := by
  unfold dropEdgesOf
  cases hFound : m.lookup id with
  | none =>
    have hNone : m.neighbors id = [] := by rw [neighbors, hFound, Option.getD_none]
    dsimp only
    split
    · next h => rw [h, hNone]
    · rw [hNone, if_neg List.not_mem_nil]
  | some found =>
    have hBack : m.neighbors id = found := by rw [neighbors, hFound, Option.getD_some]
    dsimp only
    rw [neighbors_forgetAll, neighbors_erase, hBack]
    by_cases hSelf : other = id
    · simp [hSelf]
    · simp [hSelf]

theorem dropEdgesOf_of_not_mem {m : NeighborLists Id} {id : Id} (h : id ∉ m) :
    m.dropEdgesOf id = (0, m) := by
  rw [dropEdgesOf, AList.lookup_eq_none.mpr h]

/-! ## Simple graphs -/

/-- Every edge stands under both of its endpoints, once, and no node is its own neighbor. -/
structure Simple (m : NeighborLists Id) : Prop where
  symm : ∀ {a b}, b ∈ m.neighbors a → a ∈ m.neighbors b
  nodup : ∀ a, (m.neighbors a).Nodup
  irrefl : ∀ a, a ∉ m.neighbors a

theorem simple_empty : Simple (∅ : NeighborLists Id) where
  symm h := by cases h
  nodup _ := List.nodup_nil
  irrefl _ := List.not_mem_nil

variable {m : NeighborLists Id}

theorem mem_neighbors_pushEdge {a b : Id} (h : a ≠ b) {x y : Id} :
    y ∈ (m.pushEdge a b).neighbors x ↔ y ∈ m.neighbors x ∨ (x = a ∧ y = b) ∨ (x = b ∧ y = a) := by
  rw [neighbors_pushEdge m h]
  by_cases hA : x = a
  · subst hA
    simp [h]
  · by_cases hB : x = b
    · subst hB
      simp [hA]
    · simp [hA, hB]

theorem Simple.pushEdge (hm : Simple m) {a b : Id} (h : a ≠ b) (hNew : b ∉ m.neighbors a) :
    Simple (m.pushEdge a b) where
  symm {x y} hMem := by
    rw [mem_neighbors_pushEdge h] at hMem ⊢
    rcases hMem with hOld | ⟨rfl, rfl⟩ | ⟨rfl, rfl⟩
    · exact Or.inl (hm.symm hOld)
    · exact Or.inr (Or.inr ⟨rfl, rfl⟩)
    · exact Or.inr (Or.inl ⟨rfl, rfl⟩)
  nodup x := by
    rw [neighbors_pushEdge m h]
    split
    · exact (hm.nodup a).append (List.nodup_singleton b) (by simpa using hNew)
    · split
      · have hBack : a ∉ m.neighbors b := fun hMem => hNew (hm.symm hMem)
        exact (hm.nodup b).append (List.nodup_singleton a) (by simpa using hBack)
      · exact hm.nodup x
  irrefl x hMem := by
    rw [mem_neighbors_pushEdge h] at hMem
    rcases hMem with hOld | ⟨rfl, hEq⟩ | ⟨rfl, hEq⟩
    · exact hm.irrefl x hOld
    · exact h hEq
    · exact h hEq.symm

theorem Simple.mem_neighbors_dropEdgesOf (hm : Simple m) {id x y : Id} :
    y ∈ (m.dropEdgesOf id).2.neighbors x ↔ y ∈ m.neighbors x ∧ x ≠ id ∧ y ≠ id := by
  rw [neighbors_dropEdgesOf]
  by_cases hX : x = id
  · simp [hX]
  · rw [if_neg hX]
    split
    · simp [hX]
    · next hOther =>
      refine ⟨fun hMem => ⟨hMem, hX, ?_⟩, fun hMem => hMem.1⟩
      rintro rfl
      exact hOther (hm.symm hMem)

theorem Simple.dropEdgesOf (hm : Simple m) (id : Id) : Simple (m.dropEdgesOf id).2 where
  symm hMem := by
    rw [hm.mem_neighbors_dropEdgesOf] at hMem ⊢
    exact ⟨hm.symm hMem.1, hMem.2.2, hMem.2.1⟩
  nodup x := by
    rw [neighbors_dropEdgesOf]
    split
    · exact List.nodup_nil
    · split
      · exact (hm.nodup x).filter _
      · exact hm.nodup x
  irrefl x hMem := by
    rw [hm.mem_neighbors_dropEdgesOf] at hMem
    exact hm.irrefl x hMem.1

/-! ## The set of edges -/

/-- Every edge from each of its ends. -/
def darts (m : NeighborLists Id) : List (Id × Id) :=
  m.entries.flatMap (fun e => e.2.map (fun b => (e.1, b)))

/-- The unordered pairs that are joined. -/
def edges (m : NeighborLists Id) : Finset (Sym2 Id) := m.darts.toFinset.image (fun e => s(e.1, e.2))

theorem mem_darts {a b : Id} : (a, b) ∈ m.darts ↔ b ∈ m.neighbors a := by
  have hFound (list : List Id) : ⟨a, list⟩ ∈ m.entries ↔ m.lookup a = some list := by
    rw [AList.lookup, ← Option.mem_def, List.mem_dlookup_iff m.nodupKeys]
  constructor
  · intro h
    rw [darts, List.mem_flatMap] at h
    obtain ⟨⟨node, list⟩, hEntry, hMem⟩ := h
    simp only [List.mem_map, Prod.mk.injEq] at hMem
    obtain ⟨found, hMem, rfl, rfl⟩ := hMem
    rw [hFound] at hEntry
    rw [neighbors, hEntry, Option.getD_some]
    exact hMem
  · intro h
    rw [neighbors] at h
    cases hLookup : m.lookup a with
    | none =>
      rw [hLookup] at h
      cases h
    | some list =>
      rw [hLookup, Option.getD_some] at h
      rw [darts, List.mem_flatMap]
      exact ⟨⟨a, list⟩, (hFound list).mpr hLookup, List.mem_map.mpr ⟨b, h, rfl⟩⟩

omit [DecidableEq Id] in
theorem length_darts (m : NeighborLists Id) : m.darts.length = m.degreeSum := by
  simp [darts, degreeSum, List.length_flatMap]

theorem Simple.nodup_darts (hm : Simple m) : m.darts.Nodup := by
  have hKeys : (m.entries.map Sigma.fst).Nodup := m.nodupKeys
  rw [darts, List.nodup_flatMap]
  constructor
  · rintro ⟨node, list⟩ hEntry
    have hLookup : m.lookup node = some list := by
      rw [AList.lookup, ← Option.mem_def, List.mem_dlookup_iff m.nodupKeys]
      exact hEntry
    have hNodup := hm.nodup node
    rw [neighbors, hLookup, Option.getD_some] at hNodup
    exact hNodup.map fun x y h => (Prod.mk.inj h).2
  · rw [List.Nodup, List.pairwise_map] at hKeys
    refine hKeys.imp fun {e f} hNe => ?_
    intro p hE hF
    simp only [List.mem_map] at hE hF
    obtain ⟨x, -, rfl⟩ := hE
    obtain ⟨y, -, hEq⟩ := hF
    exact hNe (Prod.mk.inj hEq).1.symm

theorem Simple.mem_edges (hm : Simple m) {a b : Id} : s(a, b) ∈ m.edges ↔ b ∈ m.neighbors a := by
  simp only [edges, Finset.mem_image, List.mem_toFinset]
  constructor
  · rintro ⟨⟨x, y⟩, hMem, hEq⟩
    rw [mem_darts] at hMem
    rw [Sym2.eq_iff] at hEq
    rcases hEq with ⟨rfl, rfl⟩ | ⟨rfl, rfl⟩
    · exact hMem
    · exact hm.symm hMem
  · intro h
    exact ⟨(a, b), mem_darts.mpr h, rfl⟩

/-- **Counting edges.** Half the sum of the lengths is the number of pairs joined. -/
theorem Simple.edgeCount_eq_card (hm : Simple m) : m.edgeCount = m.edges.card := by
  have hDarts : m.darts.toFinset.card = m.degreeSum := by
    rw [List.toFinset_card_of_nodup hm.nodup_darts, length_darts]
  -- a pair is seen from its two ends
  have hTwo (e : Sym2 Id) (he : e ∈ m.edges) :
      {d ∈ m.darts.toFinset | s(d.1, d.2) = e}.card = 2 := by
    induction e with
    | _ a b =>
      rw [hm.mem_edges] at he
      have hNe : a ≠ b := by
        rintro rfl
        exact hm.irrefl a he
      have hEnds : {d ∈ m.darts.toFinset | s(d.1, d.2) = s(a, b)} = {(a, b), (b, a)} := by
        ext ⟨x, y⟩
        simp only [Finset.mem_filter, List.mem_toFinset, mem_darts, Sym2.eq_iff, Finset.mem_insert,
          Finset.mem_singleton, Prod.mk.injEq]
        constructor
        · exact fun h => h.2
        · rintro (⟨rfl, rfl⟩ | ⟨rfl, rfl⟩)
          · exact ⟨he, Or.inl ⟨rfl, rfl⟩⟩
          · exact ⟨hm.symm he, Or.inr ⟨rfl, rfl⟩⟩
      rw [hEnds, Finset.card_pair]
      intro h
      exact hNe (Prod.mk.inj h).1
  have hSum : m.degreeSum = m.edges.card * 2 := by
    rw [← hDarts, Finset.card_eq_sum_card_image (fun d => s(d.1, d.2)), ← edges,
      Finset.sum_congr rfl hTwo, Finset.sum_const, smul_eq_mul]
  rw [edgeCount, hSum]
  omega

theorem Simple.edges_pushEdge (hm : Simple m) {a b : Id} (h : a ≠ b) (hNew : b ∉ m.neighbors a) :
    (m.pushEdge a b).edges = insert s(a, b) m.edges := by
  ext e
  induction e with
  | _ x y =>
    rw [(hm.pushEdge h hNew).mem_edges, mem_neighbors_pushEdge h, Finset.mem_insert, hm.mem_edges,
      Sym2.eq_iff]
    exact Or.comm

theorem Simple.edges_dropEdgesOf (hm : Simple m) (id : Id) :
    (m.dropEdgesOf id).2.edges = m.edges.filter (id ∉ ·) := by
  ext e
  induction e with
  | _ x y =>
    rw [(hm.dropEdgesOf id).mem_edges, hm.mem_neighbors_dropEdgesOf, Finset.mem_filter,
      hm.mem_edges, Sym2.mem_iff]
    constructor
    · rintro ⟨hMem, hX, hY⟩
      exact ⟨hMem, fun h => h.elim (hX ·.symm) (hY ·.symm)⟩
    · rintro ⟨hMem, h⟩
      exact ⟨hMem, fun hX => h (Or.inl hX.symm), fun hY => h (Or.inr hY.symm)⟩

@[simp] theorem edges_empty : (∅ : NeighborLists Id).edges = ∅ := rfl

theorem Simple.addEdge (hm : Simple m) {a b : Id} (h : a ≠ b) : Simple (m.addEdge a b) := by
  unfold NeighborLists.addEdge
  split
  · exact hm
  · next hNew => exact hm.pushEdge h hNew

theorem Simple.edges_addEdge (hm : Simple m) {a b : Id} (h : a ≠ b) :
    (m.addEdge a b).edges = insert s(a, b) m.edges := by
  unfold NeighborLists.addEdge
  split
  · next hOld => exact (Finset.insert_eq_of_mem (hm.mem_edges.mpr hOld)).symm
  · next hNew => exact hm.edges_pushEdge h hNew

theorem mem_neighbors_addEdge {a b : Id} (h : a ≠ b) {x y : Id}
    (hMem : y ∈ (m.addEdge a b).neighbors x) :
    y ∈ m.neighbors x ∨ (x = a ∧ y = b) ∨ (x = b ∧ y = a) := by
  unfold addEdge at hMem
  split at hMem
  · exact Or.inl hMem
  · exact (mem_neighbors_pushEdge h).mp hMem

/-! ## Lists of edges -/

/-- Pairs of two nodes each, no unordered pair twice. -/
structure SimpleList (edges : List (Id × Id)) : Prop where
  irrefl : ∀ e ∈ edges, e.1 ≠ e.2
  nodup : (edges.map (fun e => s(e.1, e.2))).Nodup

theorem simple_foldl (hm : Simple m) (list : List (Id × Id)) (h : SimpleList list)
    (hNew : ∀ e ∈ list, s(e.1, e.2) ∉ m.edges) :
    Simple (list.foldl (fun m e => m.pushEdge e.1 e.2) m) ∧
      (list.foldl (fun m e => m.pushEdge e.1 e.2) m).edges =
        m.edges ∪ (list.map (fun e => s(e.1, e.2))).toFinset := by
  induction list generalizing m with
  | nil => simp [hm]
  | cons e list ih =>
    obtain ⟨hIrrefl, hNodup⟩ := h
    rw [List.map_cons, List.nodup_cons] at hNodup
    rw [List.forall_mem_cons] at hIrrefl hNew
    have hFresh : e.2 ∉ m.neighbors e.1 := fun hMem => hNew.1 (hm.mem_edges.mpr hMem)
    have hEdges := hm.edges_pushEdge hIrrefl.1 hFresh
    have hRest := ih (hm.pushEdge hIrrefl.1 hFresh) ⟨hIrrefl.2, hNodup.2⟩ fun f hf hMem => by
      rw [hEdges, Finset.mem_insert] at hMem
      rcases hMem with hEq | hMem
      · exact hNodup.1 (hEq ▸ List.mem_map_of_mem hf)
      · exact hNew.2 f hf hMem
    rw [List.foldl_cons]
    refine ⟨hRest.1, ?_⟩
    rw [hRest.2, hEdges, List.map_cons, List.toFinset_cons, Finset.insert_union,
      Finset.union_insert]

theorem simple_ofEdges {list : List (Id × Id)} (h : SimpleList list) : Simple (ofEdges list) :=
  (simple_foldl simple_empty list h fun _ _ => Finset.notMem_empty _).1

theorem edges_ofEdges {list : List (Id × Id)} (h : SimpleList list) :
    (ofEdges list).edges = (list.map (fun e => s(e.1, e.2))).toFinset := by
  rw [ofEdges, (simple_foldl simple_empty list h fun _ _ => Finset.notMem_empty _).2, edges_empty,
    Finset.empty_union]

end NeighborLists

end MultimodalDb
