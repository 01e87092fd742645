import MultimodalDb.Generic.MultiSymmetric
import MultimodalDb.Generic.RecordStoreLaws
import MultimodalDb.Generic.Symmetric
import MultimodalDb.Lib.Machine

/-!
# The invariant of the edge layers

Under each label the adjacency is a simple graph, and both ends of an edge of a local relation are
live. The layers are built from lists of edges; nothing in them drops an edge given twice, so the
lists must not have one. Every call that storage does not stop keeps the invariant.
-/

namespace MultimodalDb

open NeighborLists StoreView
open StoredRecord hiding id
open StoredRecord renaming id → idOf

/-! ## One relation over the live ids -/

section Relation

variable {Id : Type} [DecidableEq Id]

/-- A simple graph, over the live ids unless the relation is foreign. -/
structure EdgesOver (ids : Set Id) (foreign : Bool) (m : NeighborLists Id) : Prop where
  simple : m.Simple
  ends : foreign = false → ∀ {a b}, b ∈ m.neighbors a → a ∈ ids

/-- No edge touches `id`. -/
def Absent (id : Id) (m : NeighborLists Id) : Prop := ∀ a b, b ∈ m.neighbors a → a ≠ id ∧ b ≠ id

/-- An edge a relation may have. -/
structure Joinable (ids : Set Id) (foreign : Bool) (a b : Id) : Prop where
  ne : a ≠ b
  near : a ∈ ids
  far : foreign = false → b ∈ ids

variable {ids more : Set Id} {foreign : Bool} {m : NeighborLists Id}

theorem edgesOver_empty : EdgesOver ids foreign (∅ : NeighborLists Id) where
  simple := simple_empty
  ends _ _ _ h := by cases h

theorem EdgesOver.mono (h : EdgesOver ids foreign m) (hSub : ids ⊆ more) :
    EdgesOver more foreign m where
  simple := h.simple
  ends hLocal _ _ hMem := hSub (h.ends hLocal hMem)

theorem EdgesOver.addEdge (h : EdgesOver ids foreign m) {a b : Id}
    (hJoin : Joinable ids foreign a b) :
    EdgesOver ids foreign (m.addEdge a b) where
  simple := h.simple.addEdge hJoin.ne
  ends hLocal x y hMem := by
    rcases mem_neighbors_addEdge hJoin.ne hMem with hOld | ⟨rfl, -⟩ | ⟨rfl, -⟩
    · exact h.ends hLocal hOld
    · exact hJoin.near
    · exact hJoin.far hLocal

theorem EdgesOver.dropEdgesOf (h : EdgesOver ids foreign m) (id : Id) :
    EdgesOver (ids \ {id}) foreign (m.dropEdgesOf id).2 where
  simple := h.simple.dropEdgesOf id
  ends hLocal x y hMem := by
    rw [h.simple.mem_neighbors_dropEdgesOf] at hMem
    exact ⟨h.ends hLocal hMem.1, hMem.2.1⟩

/-- A list of edges between distinct records, live ones unless the relation is foreign, and none of
them twice. -/
structure ListOver (ids : Set Id) (foreign : Bool) (edges : List (Id × Id)) : Prop where
  ne : ∀ e ∈ edges, e.1 ≠ e.2
  ends : foreign = false → ∀ e ∈ edges, e.1 ∈ ids ∧ e.2 ∈ ids
  nodup : (edges.map (fun e => s(e.1, e.2))).Nodup

omit [DecidableEq Id] in
theorem ListOver.simpleList {edges : List (Id × Id)} (h : ListOver ids foreign edges) :
    SimpleList edges where
  irrefl := h.ne
  nodup := h.nodup

theorem ListOver.edgesOver {edges : List (Id × Id)} (h : ListOver ids foreign edges) :
    EdgesOver ids foreign (ofEdges edges) where
  simple := simple_ofEdges h.simpleList
  ends hLocal a b hMem := by
    rw [← (simple_ofEdges h.simpleList).mem_edges, edges_ofEdges h.simpleList, ← pairs, mem_pairs]
      at hMem
    rcases hMem with hMem | hMem
    · exact (h.ends hLocal _ hMem).1
    · exact (h.ends hLocal _ hMem).2

/-- What may be of a list depends on its pairs, in whatever order they come. -/
theorem ListOver.congr {edges edges' : List (Id × Id)} (h : ListOver ids foreign edges)
    (hPairs : pairs edges' = pairs edges) (hNodup : (edges'.map (fun e => s(e.1, e.2))).Nodup) :
    ListOver ids foreign edges' := by
  have hEnds : ∀ e ∈ edges', e ∈ edges ∨ e.swap ∈ edges := by
    rintro ⟨a, b⟩ hMem
    have hPair : s(a, b) ∈ pairs edges := by
      rw [← hPairs, mem_pairs]
      exact Or.inl hMem
    exact mem_pairs.mp hPair
  refine ⟨fun e hMem => ?_, fun hLocal e hMem => ?_, hNodup⟩
  · rcases hEnds e hMem with hSame | hSwap
    · exact h.ne e hSame
    · exact (h.ne _ hSwap).symm
  · rcases hEnds e hMem with hSame | hSwap
    · exact h.ends hLocal e hSame
    · exact (h.ends hLocal _ hSwap).symm

/-- A list that a log was folded into may have it folded in again. -/
theorem ListOver.refold {edges : List (Id × Id)} {logged : List (LogEntry (Id × Id) Id)}
    (h : ListOver ids foreign (mergeEdgeLists edges logged)) :
    ListOver ids foreign (mergeEdgeLists (mergeEdgeLists edges logged) logged) :=
  h.congr (pairs_mergeEdgeLists_twice edges logged) ((mergeEdgeLists_spec _ logged).2 h.nodup)

theorem absent_dropEdgesOf (hm : m.Simple) (id : Id) : Absent id (m.dropEdgesOf id).2 := by
  intro a b hMem
  rw [hm.mem_neighbors_dropEdgesOf] at hMem
  exact hMem.2

/-- An id that is not live has no edge under a local relation. -/
theorem EdgesOver.absent (h : EdgesOver ids false m) {id : Id} (hDead : id ∉ ids) :
    Absent id m := by
  intro a b hMem
  constructor
  · rintro rfl
    exact hDead (h.ends rfl hMem)
  · rintro rfl
    exact hDead (h.ends rfl (h.simple.symm hMem))

theorem Absent.neighbors_eq_nil {id : Id} (h : Absent id m) : m.neighbors id = [] := by
  rw [List.eq_nil_iff_forall_not_mem]
  intro b hMem
  exact (h id b hMem).1 rfl

end Relation

/-! ## Several relations -/

namespace MultiSymmetric

/-! ### The state after a call -/

section View

variable {S Id : Type} [StoreView S Id] {s s' : MultiSymmetric S Id} {d d' : Disk}

/-- The files of a layer at `base`: the manifest, and a blob and a log for each label. -/
def layerFiles (base : Path) : Set Path :=
  {LabelManifest.path base, RecordBlob.tempPath (LabelManifest.path base)} ∪
    ⋃ label, blobFiles (labeledEdgesPath base label)

theorem blobFiles_subset (base : Path) (label : String) :
    blobFiles (labeledEdgesPath base label) ⊆ layerFiles base :=
  Set.subset_union_of_subset_right
    (Set.subset_iUnion (fun label => blobFiles (labeledEdgesPath base label)) label) _

/-- The adjacency of a label, empty for one there is not. -/
def under (s : MultiSymmetric S Id) (label : String) : NeighborLists Id :=
  (s.adjacency.lookup label).getD ∅

/-- The store beneath answers for no file of the layer. -/
def Apart (s : MultiSymmetric S Id) : Prop :=
  ∀ base, s.basePath = some base → ∀ file ∈ files s.inner, file ∉ layerFiles base

/-- The live ids and the adjacency of each label after a call. -/
structure Advance (s : MultiSymmetric S Id) (ids : Set Id)
    (edges : String → Option (NeighborLists Id)) (s' : MultiSymmetric S Id) (d' : Disk) : Prop where
  inner : Becomes s.inner ids s'.inner d'
  basePath : s'.basePath = s.basePath
  foreignLabels : s'.foreignLabels = s.foreignLabels
  edges : ∀ label, s'.adjacency.lookup label = edges label

theorem Advance.refl (hValid : Valid s.inner d) :
    Advance s (live s.inner) s.adjacency.lookup s d where
  inner := ⟨hValid, rfl, rfl⟩
  basePath := rfl
  foreignLabels := rfl
  edges _ := rfl

theorem Advance.apart {ids : Set Id} {edges : String → Option (NeighborLists Id)}
    (h : Advance s ids edges s' d') (hApart : Apart s) : Apart s' := by
  intro base hBase file hFile
  rw [h.basePath] at hBase
  rw [h.inner.files] at hFile
  exact hApart base hBase file hFile

theorem Advance.isForeign {ids : Set Id} {edges : String → Option (NeighborLists Id)}
    (h : Advance s ids edges s' d') (label : String) : s'.isForeign label = s.isForeign label := by
  rw [MultiSymmetric.isForeign, h.foreignLabels, MultiSymmetric.isForeign]

/-- One label's adjacency is set after a call. -/
theorem Advance.set {ids : Set Id} {edges : String → Option (NeighborLists Id)}
    (h : Advance s ids edges s' d') (label : String) (m : NeighborLists Id) :
    Advance s ids (Function.update edges label (some m)) (setAdjacency label m s') d' where
  inner := h.inner
  basePath := h.basePath
  foreignLabels := h.foreignLabels
  edges other := by
    show (s'.adjacency.insert label m).lookup other = _
    by_cases hOther : other = label
    · rw [hOther, AList.lookup_insert, Function.update_self]
    · rw [AList.lookup_insert_ne hOther, Function.update_of_ne hOther, h.edges]

end View

variable {S R Id IV V : Type} [DecidableEq Id] [StoredRecord R Id IV V]
  [RecordStore S R Id V] [Serde Id]
variable {s s' : MultiSymmetric S Id} {d d' : Disk}

/-! ### Rules -/

section Rules

omit [DecidableEq Id] [RecordStore S R Id V] in
theorem touches_nameLabel (base : Path) (relation : String) :
    Method.Touches (layerFiles base)
      (nameLabel R Id base relation : Method (MultiSymmetric S Id) DurabilityError Unit) := by
  have hBlob := blobFiles_subset base relation
  refine (EdgeBlob.touches_write (hBlob (Or.inl rfl)) (hBlob (Or.inr (Or.inl rfl)))).bind fun _ =>
    LabelManifest.touches_read.bind fun labels => ?_
  split
  · exact Method.touches_pure _ _
  · exact LabelManifest.touches_write (Or.inl (Or.inl rfl)) (Or.inl (Or.inr rfl))

variable {A C : Stop DurabilityError → MultiSymmetric S Id → Disk → Prop}

omit [DecidableEq Id] [RecordStore S R Id V] in
theorem wp_linkLabel {relation : String} {Q : Unit → MultiSymmetric S Id → Disk → Prop}
    (hOld : ∀ m, s.adjacency.lookup relation = some m → Q () s d)
    (hNew : ∀ base, s.adjacency.lookup relation = none → s.basePath = some base →
      Method.wp (nameLabel R Id base relation) s d
        (fun _ s' d' => Q () (setAdjacency relation ∅ s') d') A C)
    (hMemory : s.adjacency.lookup relation = none → s.basePath = none →
      Q () (setAdjacency relation ∅ s) d) :
    Method.wp (linkLabel R relation) s d Q A C := by
  refine Method.wp_bind (Method.wp_self ?_)
  split
  · next m hLookup => exact Method.wp_pure (hOld m hLookup)
  · next hLookup =>
    split
    · next base hBase =>
      exact Method.wp_bind ((hNew base hLookup hBase).post fun _ _ _ => Method.wp_modifySelf)
    · next hBase =>
      exact Method.wp_bind (Method.wp_pure (Method.wp_modifySelf (hMemory hLookup hBase)))

omit [DecidableEq Id] [RecordStore S R Id V] in
theorem wp_logEdge {relation : String} {entry : LogEntry (Id × Id) Id}
    {Q : Unit → MultiSymmetric S Id → Disk → Prop}
    (hLogged : ∀ base, s.basePath = some base → Method.wp
      (InsertLog.append (InsertLog.logPath (labeledEdgesPath base relation)) (SCHEMA_TAG R) entry) s
        d Q A C)
    (hMemory : s.basePath = none → Q () s d) : Method.wp (logEdge R relation entry) s d Q A C := by
  refine Method.wp_bind (Method.wp_self ?_)
  split
  · next base hBase => exact hLogged base hBase
  · next hBase => exact Method.wp_pure (hMemory hBase)

omit [RecordStore S R Id V] in
theorem wp_linkEnds {relation : String} {a b : Id} {m : NeighborLists Id}
    {Q : LinkOutcome → MultiSymmetric S Id → Disk → Prop}
    (hLookup : s.adjacency.lookup relation = some m)
    (hOld : b ∈ m.neighbors a → Q .alreadyLinked s d)
    (hNew : b ∉ m.neighbors a → Method.wp (logEdge R relation (.item (a, b))) s d
      (fun _ s' d' => Q .linked (setAdjacency relation (m.pushEdge a b) s') d') A C) :
    Method.wp (linkEnds R relation a b) s d Q A C := by
  refine Method.wp_bind (Method.wp_self ?_)
  rw [hLookup]
  dsimp only
  split
  · next hMem => exact Method.wp_pure (hOld hMem)
  · next hMem =>
    refine Method.wp_bind ((hNew hMem).post fun _ s' d' hQ => ?_)
    exact Method.wp_bind (Method.wp_modifySelf (Method.wp_pure hQ))

omit [RecordStore S R Id V] in
theorem wp_detachUnder {label : String} {id : Id} {Q : Nat → MultiSymmetric S Id → Disk → Prop}
    {A C : Stop (DeleteError Id) → MultiSymmetric S Id → Disk → Prop}
    (hUnknown : s.adjacency.lookup label = none → A (.error (.notFound id)) s d)
    (hNone : ∀ m, s.adjacency.lookup label = some m → id ∉ m → Q 0 s d)
    (hSome : ∀ m, s.adjacency.lookup label = some m → id ∈ m →
      Method.wp (Method.mapError .durability (logEdge R label (.tombstone id))) s d
        (fun _ s' d' => Q (m.dropEdgesOf id).1 (setAdjacency label (m.dropEdgesOf id).2 s') d') A
          C) :
    Method.wp (detachUnder R label id) s d Q A C := by
  refine Method.wp_bind (Method.wp_self ?_)
  split
  · next hLookup => exact Method.wp_fail (hUnknown hLookup)
  · next m hLookup =>
    split
    · next hMem =>
      refine Method.wp_bind ((hSome m hLookup hMem).post fun _ s' d' hQ => ?_)
      exact Method.wp_bind (Method.wp_modifySelf (Method.wp_pure hQ))
    · next hMem => exact Method.wp_pure (hNone m hLookup hMem)

variable [StoreView S Id] [laws : LawfulRecordStore S]

/-- The checks of a link: what passes them may be joined. -/
theorem wp_link (hValid : Valid s.inner d) {relation : String} {a b : Id}
    {Q : LinkOutcome → MultiSymmetric S Id → Disk → Prop}
    {A C : Stop (EdgeLayer.LinkError Id) → MultiSymmetric S Id → Disk → Prop}
    (hRefused : ∀ e, A (.error e) s d)
    (hOk : Joinable (live s.inner) (s.isForeign relation) a b → Method.wp (do
      Method.mapError .durability (linkLabel R relation)
      Method.mapError .durability (linkEnds R relation a b)) s d Q A C) :
    Method.wp (link relation a b) s d Q A C := by
  unfold link
  split
  · exact Method.wp_fail (hRefused _)
  · refine Method.wp_bind (Method.wp_self ?_)
    obtain ⟨left, hLeft, hNear⟩ := laws.get_live hValid a
    obtain ⟨right, hRight, hFar⟩ := laws.get_live hValid b
    rw [hLeft]
    refine Method.wp_bind (Method.wp_pure ?_)
    split
    · exact Method.wp_fail (hRefused _)
    · next hSome =>
      have hLive : a ∈ live s.inner := hNear.mp (by simpa [Option.isSome_iff_ne_none] using hSome)
      have hChecked : ∀ found, (s.isForeign relation = false → found = right.isSome) →
          Method.wp (if found = false then Method.fail (.unknownRecord b) else
            if a = b then Method.fail (.selfLoop a) else do
              Method.mapError .durability (linkLabel R relation)
              Method.mapError .durability (linkEnds R relation a b)) s d Q A C := by
        intro found hFound
        split
        · exact Method.wp_fail (hRefused _)
        · next hTrue =>
          split
          · exact Method.wp_fail (hRefused _)
          · next hNe =>
            rw [Bool.not_eq_false] at hTrue
            exact hOk ⟨hNe, hLive, fun hLocal => hFar.mp (by rw [← hFound hLocal, hTrue])⟩
      refine Method.wp_bind (Method.wp_bind (Method.wp_self ?_))
      split
      · next hForeign =>
        exact Method.wp_pure (hChecked true fun hLocal => by rw [hForeign] at hLocal; cases hLocal)
      · rw [hRight]
        exact Method.wp_bind (Method.wp_pure (Method.wp_pure (hChecked right.isSome fun _ => rfl)))

end Rules

/-! ### What a call does -/

section Advance

variable [StoreView S Id] [laws : LawfulRecordStore S]

omit [DecidableEq Id] [Serde Id] in
include laws in
/-- What only touches files of the layer leaves the store beneath valid. -/
theorem Advance.layer {ids : Set Id} {edges : String → Option (NeighborLists Id)}
    (h : Advance s ids edges s' d) (hApart : Apart s') {base : Path}
    (hBase : s'.basePath = some base)
    (hSame : ∀ path, path ∉ layerFiles base → d' path = d path) : Advance s ids edges s' d' where
  inner := ⟨laws.valid_congr h.inner.valid fun path hPath =>
    hSame path (hApart base hBase path hPath), h.inner.files, h.inner.live⟩
  basePath := h.basePath
  foreignLabels := h.foreignLabels
  edges := h.edges

omit [DecidableEq Id] in
theorem wp_logEdge_advance {ids : Set Id} {edges : String → Option (NeighborLists Id)}
    {s₀ : MultiSymmetric S Id} (h : Advance s₀ ids edges s d) (hApart : Apart s) (label : String)
    (entry : LogEntry (Id × Id) Id) :
    Method.wp (logEdge R label entry) s d (fun _ s' d' => s' = s ∧ Advance s₀ ids edges s' d')
      (fun _ _ _ => True) (fun _ _ _ => True) := by
  refine wp_logEdge (fun base hBase => ?_) fun _ => ⟨rfl, h⟩
  have hFiles := blobFiles_subset base label
  refine ((InsertLog.touches_append entry (hFiles (Or.inr (Or.inr (Or.inl rfl))))
    (hFiles (Or.inr (Or.inr (Or.inr rfl))))).wp (fun _ d' hSame => ⟨rfl, ?_⟩) fun _ _ _ => trivial)
  exact h.layer hApart hBase hSame

/-- What a link does: it is refused, or the edge is there after it. -/
theorem wp_link_advance (hValid : Valid s.inner d) (hApart : Apart s) (relation : String)
    (a b : Id) :
    Method.wp (link relation a b) s d
      (fun _ s' d' => Joinable (live s.inner) (s.isForeign relation) a b ∧
        Advance s (live s.inner) (Function.update s.adjacency.lookup relation
          (some ((s.under relation).addEdge a b))) s' d')
      (Refused EdgeLayer.LinkError.durability? fun s' d' => s' = s ∧ d' = d)
      (Stopped EdgeLayer.LinkError.durability?) := by
  refine wp_link hValid (fun e r hEq _ => ⟨rfl, rfl⟩) fun hJoin => ?_
  have hStart := Advance.refl hValid
  have hEnds {t : MultiSymmetric S Id} {d₁ : Disk} {m : NeighborLists Id}
      (hM : s.under relation = m)
      (h : Advance s (live s.inner) (Function.update s.adjacency.lookup relation (some m)) t d₁) :
      Method.wp (Method.mapError EdgeLayer.LinkError.durability (linkEnds R relation a b)) t d₁
        (fun _ s' d' => Joinable (live s.inner) (s.isForeign relation) a b ∧
          Advance s (live s.inner)
            (Function.update s.adjacency.lookup relation (some ((s.under relation).addEdge a b))) s'
              d')
        (Refused (EdgeLayer.LinkError.durability? : EdgeLayer.LinkError Id → _) fun s' d' =>
          s' = s ∧ d' = d)
        (Stopped EdgeLayer.LinkError.durability?) := by
    have hLookup := h.edges relation
    rw [Function.update_self] at hLookup
    refine wp_storage (fun _ => nofun)
      (wp_linkEnds hLookup (fun hOld => ⟨hJoin, ?_⟩) fun hNew => ?_)
    · rwa [hM, NeighborLists.addEdge, if_pos hOld]
    · refine (wp_logEdge_advance h (h.apart hApart) relation _).post fun _ s' d' ⟨_, hLogged⟩ =>
        ⟨hJoin, ?_⟩
      rw [hM, NeighborLists.addEdge, if_neg hNew]
      have hSet := hLogged.set relation (m.pushEdge a b)
      rwa [Function.update_idem] at hSet
  refine Method.wp_bind (wp_storage (fun _ => nofun) (wp_linkLabel (fun m hLookup => ?_)
    (fun base hLookup hBase => ?_) fun hLookup _ => ?_))
  · refine hEnds (by rw [under, hLookup, Option.getD_some]) ?_
    rwa [← hLookup, Function.update_eq_self]
  · refine (touches_nameLabel base relation).wp (fun _ d₁ hSame => ?_) fun _ _ _ => trivial
    exact hEnds (by rw [under, hLookup, Option.getD_none])
      ((hStart.layer hApart hBase hSame).set relation ∅)
  · exact hEnds (by rw [under, hLookup, Option.getD_none]) (hStart.set relation ∅)

/-- What a detach does to one label, after whatever came before it. -/
theorem wp_detachUnder_advance {ids : Set Id} {edges : String → Option (NeighborLists Id)}
    {s₀ : MultiSymmetric S Id} (h : Advance s₀ ids edges s d) (hApart : Apart s)
    (label : String) (id : Id) :
    Method.wp (detachUnder R label id) s d
      (fun _ s' d' => (edges label).isSome = true ∧ Advance s₀ ids
        (Function.update edges label ((edges label).map fun m => (m.dropEdgesOf id).2)) s' d')
      (Refused DeleteError.durability? fun s' d' => edges label = none ∧ s' = s ∧ d' = d)
      (Stopped DeleteError.durability?) := by
  have hLookup := h.edges label
  refine wp_detachUnder (fun hNone _ _ _ => ⟨hLookup.symm.trans hNone, rfl, rfl⟩)
    (fun m hSome hNot => ?_) fun m hSome _ => wp_storage (fun _ hEq => by cases hEq) ?_
  · rw [hSome] at hLookup
    rw [← hLookup, Option.map_some, dropEdgesOf_of_not_mem hNot, hLookup,
      Function.update_eq_self, ← hLookup]
    exact ⟨rfl, h⟩
  · rw [hSome] at hLookup
    rw [← hLookup, Option.map_some]
    exact (wp_logEdge_advance h hApart label _).post fun _ s' d' hLogged =>
      ⟨rfl, hLogged.2.set label _⟩

/-- What a delete does: it is refused, or the record and its edges under every label are gone. -/
theorem wp_delete_advance (hValid : Valid s.inner d) (hApart : Apart s) (id : Id) :
    Method.wp (delete id) s d
      (fun _ s' d' => id ∈ live s.inner ∧ Advance s (live s.inner \ {id})
        (fun label => (s.adjacency.lookup label).map fun m => (m.dropEdgesOf id).2) s' d')
      (Refused DeleteError.durability? (Advance s (live s.inner) s.adjacency.lookup))
      (Stopped DeleteError.durability?) := by
  refine Method.wp_bind (Method.wp_onPart
    ((laws.wp_delete hValid id).mono (fun _ t d₁ ⟨hLive, hBecomes⟩ => ?_) ?_
    fun _ _ _ hStopped => hStopped))
  · refine Method.wp_bind (Method.wp_self ?_)
    -- the labels that are left still have what they had
    have hStart : s.adjacency.keys.Nodup ∧
        (∀ label ∈ s.adjacency.keys, (s.adjacency.lookup label).isSome = true) ∧
        Advance s (live s.inner \ {id}) (fun label => if label ∈ s.adjacency.keys
          then s.adjacency.lookup label
          else (s.adjacency.lookup label).map fun m => (m.dropEdgesOf id).2) (setInner t s) d₁ := by
      refine ⟨s.adjacency.keys_nodup, fun label hLabel => AList.lookup_isSome.mpr hLabel,
        hBecomes, rfl, rfl, fun label => ?_⟩
      show s.adjacency.lookup label = _
      split
      · rfl
      · next hNot => rw [show s.adjacency.lookup label = none from AList.lookup_eq_none.mpr hNot,
          Option.map_none]
    refine (Method.wp_forM (I := fun rest s' d' => rest.Nodup ∧
      (∀ label ∈ rest, (s.adjacency.lookup label).isSome = true) ∧
        Advance s (live s.inner \ {id}) (fun label =>
        if label ∈ rest then s.adjacency.lookup label
        else (s.adjacency.lookup label).map fun m => (m.dropEdgesOf id).2) s' d')
      (fun label rest s₁ d₁ ⟨hNodup, hKnown, hAdvance⟩ => ?_) s.adjacency.keys hStart).post
      fun _ s' d' ⟨_, _, hDone⟩ => ⟨hLive, by simpa using hDone⟩
    rw [List.nodup_cons] at hNodup
    rw [List.forall_mem_cons] at hKnown
    refine Method.wp_bind ((wp_detachUnder_advance hAdvance (hAdvance.apart hApart) label id).mono
      (fun _ s' d' ⟨_, hNext⟩ => Method.wp_pure ⟨hNodup.2, hKnown.2, ?_⟩)
      (fun e s' d' hRefused r hEq hNone => ?_) fun _ _ _ hStopped => hStopped)
    · refine ⟨hNext.inner, hNext.basePath, hNext.foreignLabels,
        fun other => (hNext.edges other).trans ?_⟩
      by_cases hOther : other = label
      · rw [hOther, Function.update_self, if_pos List.mem_cons_self, if_neg hNodup.1]
      · simp [hOther]
    · have hNot := (hRefused r hEq hNone).1
      rw [if_pos List.mem_cons_self] at hNot
      rw [hNot] at hKnown
      cases hKnown.1
  · intro e t d₁ hRefused r hEq hNone
    exact ⟨hRefused r hEq hNone, rfl, rfl, fun _ => rfl⟩

end Advance

/-! ### Calls -/

/-- A call on a layer of several relations. -/
inductive Op (R Id V : Type) where
  | insert (record : R)
  | replace (record : R)
  | update (id : Id) (value : V)
  | delete (id : Id)
  | link (relation : String) (a b : Id)
  | detach (relation : String) (id : Id)

/-- The call itself. Its error is the durability error, or `none` when the layer refused the call.
-/
def Op.method : Op R Id V → Method (MultiSymmetric S Id) (Option DurabilityError) Unit
  | .insert record => Method.mapError InsertError.durability? (MultiSymmetric.insert record)
  | .replace record => Method.mapError ReplaceError.durability? (MultiSymmetric.replace record)
  | .update id value => Method.mapError (fun _ => none) (MultiSymmetric.update id value)
  | .delete id => Method.mapError DeleteError.durability? (MultiSymmetric.delete id)
  | .link relation a b => Method.mapError EdgeLayer.LinkError.durability? do
      let _ ← MultiSymmetric.link relation a b
      return ()
  | .detach relation id => Method.mapError DeleteError.durability? do
      let _ ← MultiSymmetric.detach R relation id
      return ()

namespace Op

variable [StoreView S Id]

/-- What the layer asks of an acknowledged call. -/
def Allowed (s : MultiSymmetric S Id) : Op R Id V → Prop
  | .insert record => idOf record ∉ live s.inner
  | .delete id => id ∈ live s.inner
  | .link relation a b => Joinable (live s.inner) (s.isForeign relation) a b
  | .detach relation _ => (s.adjacency.lookup relation).isSome = true
  | _ => True

/-- The live ids after an acknowledged call. -/
def ids (ids : Set Id) : Op R Id V → Set Id
  | .insert record => Insert.insert (idOf record) ids
  | .delete id => ids \ {id}
  | _ => ids

/-- The adjacency of each label after an acknowledged call. -/
def edges (s : MultiSymmetric S Id) : Op R Id V → String → Option (NeighborLists Id)
  | .delete id, label => (s.adjacency.lookup label).map fun m => (m.dropEdgesOf id).2
  | .link relation a b, label =>
    Function.update s.adjacency.lookup relation (some ((s.under relation).addEdge a b)) label
  | .detach relation id, label =>
    Function.update s.adjacency.lookup relation
      ((s.adjacency.lookup relation).map fun m => (m.dropEdgesOf id).2) label
  | _, label => s.adjacency.lookup label

variable [laws : LawfulRecordStore S]

omit [DecidableEq Id] [Serde Id] laws in
/-- A call of the store beneath is one of the layer. -/
theorem wp_onInner_advance {ε : Type} {m : Method S ε Unit} {ids : Set Id} {P : Prop}
    {durability? : ε → Option DurabilityError}
    (h : Method.wp m s.inner d (fun _ t d' => P ∧ Becomes s.inner ids t d')
      (Refused durability? (Becomes s.inner (live s.inner))) (Stopped durability?)) :
    Method.wp (onInner m) s d (fun _ s' d' => P ∧ Advance s ids s.adjacency.lookup s' d')
      (Refused durability? (Advance s (live s.inner) s.adjacency.lookup)) (Stopped durability?) :=
  Method.wp_onPart (h.mono (fun _ _ _ ⟨hP, hBecomes⟩ => ⟨hP, hBecomes, rfl, rfl, fun _ => rfl⟩)
    (fun _ _ _ hRefused r hEq hNone => ⟨hRefused r hEq hNone, rfl, rfl, fun _ => rfl⟩)
      fun _ _ _ hStopped => hStopped)

/-- **What a call does.** Acknowledged, it was allowed and changes the live ids and the edges as it
says; refused, it changes nothing. -/
theorem wp_method (hValid : Valid s.inner d) (hApart : Apart s) (op : Op R Id V) :
    Method.wp op.method s d
      (fun _ s' d' => op.Allowed s ∧ Advance s (op.ids (live s.inner)) (op.edges s) s' d')
      (fun e s' d' => e = .error none → Advance s (live s.inner) s.adjacency.lookup s' d')
      (fun e _ _ => e ≠ .error none) := by
  cases op with
  | insert record => exact wp_durability (wp_onInner_advance (laws.wp_insert hValid record))
  | replace record =>
    exact wp_durability (wp_onInner_advance ((laws.wp_replace hValid record).post fun _ _ _ h =>
      ⟨trivial, h⟩))
  | update id value =>
    exact wp_durability (wp_onInner_advance ((laws.wp_update hValid id value).post fun _ _ _ h =>
      ⟨trivial, h⟩))
  | delete id => exact wp_durability (wp_delete_advance hValid hApart id)
  | link relation a b =>
    refine wp_durability (Method.wp_bind ((wp_link_advance hValid hApart relation a b).mono
      (fun _ s' d' h => Method.wp_pure h) (fun e s' d' hRefused r hEq hNone => ?_)
        fun _ _ _ hStopped => hStopped))
    obtain ⟨rfl, rfl⟩ := hRefused r hEq hNone
    exact Advance.refl hValid
  | detach relation id =>
    refine wp_durability (Method.wp_bind
      ((wp_detachUnder_advance (Advance.refl hValid) hApart relation id).mono
      (fun _ s' d' h => Method.wp_pure h) (fun e s' d' hRefused r hEq hNone => ?_)
        fun _ _ _ hStopped => hStopped))
    obtain ⟨-, rfl, rfl⟩ := hRefused r hEq hNone
    exact Advance.refl hValid

theorem settled (hValid : Valid s.inner d) (hApart : Apart s) {op : Op R Id V} {plan : List Outcome}
    {acknowledged : Bool}
    (hSettle : Method.settle op.method plan (s, d) = some (acknowledged, s', d')) :
    (acknowledged = true ∧ op.Allowed s ∧ Advance s (op.ids (live s.inner)) (op.edges s) s' d') ∨
      (acknowledged = false ∧ Advance s (live s.inner) s.adjacency.lookup s' d') :=
  ((wp_method hValid hApart op).settled (fun _ _ hNe => hNe rfl) hSettle).imp_right
    fun ⟨hNot, hSame⟩ => ⟨hNot, hSame rfl⟩

end Op

/-! ### The invariant -/

section Sound

variable [StoreView S Id]

/-- A layer whose relations are simple graphs over the live ids. -/
structure Sound (s : MultiSymmetric S Id) (d : Disk) : Prop where
  valid : Valid s.inner d
  apart : Apart s
  edges : ∀ {label m}, s.adjacency.lookup label = some m →
    EdgesOver (live s.inner) (s.isForeign label) m

omit [Serde Id] in
theorem Sound.under (h : Sound s d) (label : String) :
    EdgesOver (live s.inner) (s.isForeign label) (s.under label) := by
  unfold MultiSymmetric.under
  cases hLookup : s.adjacency.lookup label with
  | none => exact edgesOver_empty
  | some m => exact h.edges hLookup

omit [RecordStore S R Id V] [Serde Id] in
/-- What a call leaves of one label: nothing new, or what a link, a detach or a delete makes of it.
-/
theorem Sound.edges_op (h : Sound s d) {op : Op R Id V} (hAllowed : op.Allowed s) {label : String}
    {m : NeighborLists Id} (hM : op.edges s label = some m) :
    EdgesOver (op.ids (live s.inner)) (s.isForeign label) m := by
  cases op with
  | insert record => exact (h.edges hM).mono (Set.subset_insert _ _)
  | replace record => exact h.edges hM
  | update id value => exact h.edges hM
  | delete id =>
    obtain ⟨old, hOld, rfl⟩ := Option.map_eq_some_iff.mp hM
    exact (h.edges hOld).dropEdgesOf id
  | link relation a b =>
    rw [Op.edges] at hM
    by_cases hLabel : label = relation
    · subst hLabel
      rw [Function.update_self] at hM
      cases hM
      exact (h.under label).addEdge hAllowed
    · rw [Function.update_of_ne hLabel] at hM
      exact h.edges hM
  | detach relation id =>
    rw [Op.edges] at hM
    by_cases hLabel : label = relation
    · subst hLabel
      rw [Function.update_self] at hM
      obtain ⟨old, hOld, rfl⟩ := Option.map_eq_some_iff.mp hM
      exact ((h.edges hOld).dropEdgesOf id).mono Set.sdiff_subset
    · rw [Function.update_of_ne hLabel] at hM
      exact h.edges hM

omit [Serde Id] in
/-- The invariant after a call, from the edges the call leaves. -/
theorem Advance.sound {ids : Set Id} {edges : String → Option (NeighborLists Id)}
    (h : Advance s ids edges s' d') (hApart : Apart s)
    (hEdges : ∀ {label m}, edges label = some m → EdgesOver ids (s.isForeign label) m) :
    Sound s' d' where
  valid := h.inner.valid
  apart := h.apart hApart
  edges {label m} hM := by
    rw [h.edges] at hM
    rw [h.inner.live, h.isForeign]
    exact hEdges hM

end Sound

end MultiSymmetric

end MultimodalDb
