import MultimodalDb.Generic.EdgeTwins

/-!
# A stack created over old files

A create makes the store's files, the manifest, and the blobs and logs of its labels, whatever was
there. From then on the stack on the old files and one on an empty path are told the same at every
call and every reopening, as long as no link creates a label for which the old files have a log
(`create_starts_over`).

Such a log comes from an earlier stack at the path that had linked under the label. The link
rewrites the blob but appends to the log, and the next opening folds the old edges in.
-/

namespace MultimodalDb

open Method Disk NeighborLists
open StoredRecord hiding id

variable {S T R Id IV SV ε α : Type} {F W : Set Path} {I : T → Prop} {t : T} {d₀ d₀' d d' : Disk}
variable {base : Path} {tag label : String} {K L : Set String}

/-! ## Two disks -/

/-- The files a stack looks at that knows the labels of `K`. -/
def knownFiles (base : Path) (K : Set String) : Set Path :=
  insert (LabelManifest.path base) (labelledFiles base K)

/-- Two disks that are the same to a stack which knows the labels of `K`, of which the first has no
other label's log. -/
structure Shared (tag : String) (base : Path) (K : Set String) (d d' : Disk) : Prop where
  agree : Agree (knownFiles base K) d d'
  listed : ∀ {names}, LabelManifest.listed tag (LabelManifest.path base)
    (d (LabelManifest.path base)) = .ok names → ∀ name ∈ names, name ∈ K
  clean : ∀ label, label ∉ K → d (InsertLog.logPath (labeledEdgesPath base label)) = none

namespace Shared

variable {e e' : Disk}

theorem kept (h : Shared tag base K d d') :
    Kept (knownFiles base K) (knownWrites base K) d d' d d' := .refl h.agree

/-- What keeps to the files that are known, and to the manifest, keeps the disks alike when the
manifest names known labels still. -/
theorem of_written (h : Shared tag base K d d')
    (hE : Kept (knownFiles base K)
      (insert (LabelManifest.path base) (knownWrites base K)) d d' e e')
    (hListed : ∀ {names}, LabelManifest.listed tag (LabelManifest.path base)
      (e (LabelManifest.path base)) = .ok names →
      ∀ name ∈ names, name ∈ K) : Shared tag base K e e' where
  agree := hE.agree
  listed := hListed
  clean label hLabel := by
    rw [hE.off, h.clean label hLabel]
    rintro (hManifest | hKnown)
    · exact log_ne_manifest _ hManifest
    · exact hKnown.2 label hLabel rfl

theorem of_kept (h : Shared tag base K d d')
    (hE : Kept (knownFiles base K) (knownWrites base K) d d' e e') :
    Shared tag base K e e' := by
  refine h.of_written (hE.weaken (Set.subset_insert _ _)) fun {names} hNames => h.listed ?_
  rwa [← hE.off _ fun hMem => hMem.1 rfl]

/-- One label more, whose files are the same. -/
theorem more (h : Shared tag base K d d')
    (hBlob : d' (labeledEdgesPath base label) = d (labeledEdgesPath base label))
    (hLog : d' (InsertLog.logPath (labeledEdgesPath base label)) =
      d (InsertLog.logPath (labeledEdgesPath base label))) :
    Shared tag base (insert label K) d d' where
  agree := by
    rintro path (rfl | hStore | hLabel)
    · exact h.agree _ (Or.inl rfl)
    · exact h.agree path (Or.inr (Or.inl hStore))
    · obtain ⟨other, hOther, hPath⟩ := Set.mem_iUnion₂.mp hLabel
      rcases hOther with rfl | hOld
      · rcases hPath with rfl | rfl
        · exact hBlob
        · exact hLog
      · exact h.agree path (Or.inr (labelFiles_subset hOld hPath))
  listed hNames name hName := Or.inr (h.listed hNames name hName)
  clean other hOther := h.clean other fun hMem => hOther (Or.inr hMem)

end Shared

/-- The manifest is written anew with known labels. -/
theorem Shared.twin_manifest (h : Shared tag base K d d') {names : List String}
    (hNames : ∀ name ∈ names, name ∈ K) :
    twin (LabelManifest.write base tag names : Method T DurabilityError Unit) t d d'
      (fun _ u e e' => u = t ∧ Shared tag base K e e') fun _ u e e' =>
        u = t ∧ Shared tag base K e e' := by
  have hWrites : blobWrites (LabelManifest.path base) ⊆
      insert (LabelManifest.path base) (knownWrites base K) := by
    rintro path (rfl | rfl)
    · exact Or.inl rfl
    · exact Or.inr (mem_knownWrites_of_end (endsIn_temp _) rfl (by decide) (by decide))
  refine LabelManifest.twin_write (h.kept.weaken (Set.subset_insert _ _)) hWrites
    (fun e e' hE hListed => ⟨rfl, ?_⟩) fun x e e' hE hOld => ⟨rfl, ?_⟩
  · refine h.of_written (hE.mono (Set.subset_insert _ _)) fun hFound => ?_
    rw [hListed] at hFound
    cases hFound
    exact hNames
  · refine h.of_written hE fun hFound => h.listed ?_
    rwa [← hOld]

namespace MultiSymmetric

variable [DecidableEq Id] [StoredRecord R Id IV SV] [Serde Id]

/-! ## Labels -/

section Labels

variable {relation : String × List (Id × Id)} (hF : labelledFiles base K ⊆ F)
  (hW : knownWrites base K ⊆ W) (hLabel : relation.1 ∈ K)
include hF hLabel

omit [DecidableEq Id] in
theorem alike_readLabel : Alike F W I (fun r => r.1 ∈ K)
    (readLabel R base relation : Method T DurabilityError (String × List (Id × Id))) :=
  (EdgeBlob.format.alike_read (hF (blob_mem hLabel))).bind fun _ _ => alike_pure hLabel

include hW

theorem alike_openLabel : Alike F W I (fun r => r.1 ∈ K)
    (openLabel R base relation : Method T DurabilityError (String × List (Id × Id))) := by
  have hBlobW := (blobWrites_known (K := K) (Or.inl (endsIn_blob base relation.1))).trans hW
  refine (InsertLog.alike_readEntries (hF (log_mem hLabel))).bind fun logged _ => ?_
  refine (EdgeBlob.format.alike_isCurrentAt (hF (blob_mem hLabel)) _).bind fun current _ => ?_
  have hClear : Alike F W I (fun r => r.1 ∈ K) (do
      InsertLog.clear (InsertLog.logPath (labeledEdgesPath base relation.1))
      return (relation.1, mergeEdgeLists relation.2 logged) :
          Method T DurabilityError (String × List (Id × Id))) :=
    (InsertLog.alike_clear (hF (log_mem hLabel)) (hW (log_known hLabel))).bind fun _ _ =>
      alike_pure hLabel
  cases current with
  | true => exact hClear
  | false => exact (EdgeBlob.alike_write hBlobW).bind fun _ _ => hClear

end Labels

omit [DecidableEq Id] in
/-- A new label: its blob is made anew, and there is no log of it on either disk. -/
theorem twin_nameLabel (h : Shared (SCHEMA_TAG R) base K d d')
    (hFresh : label ∉ K → d' (InsertLog.logPath (labeledEdgesPath base label)) = none) :
    twin (nameLabel R Id base label : Method T DurabilityError Unit) t d d'
      (fun _ u e e' => u = t ∧ Shared (SCHEMA_TAG R) base (Insert.insert label K) e e')
      fun _ u e e' => u = t ∧ ∃ L, K ⊆ L ∧ Shared (SCHEMA_TAG R) base L e e' := by
  refine twin_bind (EdgeBlob.twin_write h.kept (blobWrites_known (Or.inl (endsIn_blob base label)))
    (fun e e' hE => ?_) fun _ e e' hE => ⟨rfl, K, Set.Subset.rfl, h.of_kept hE⟩)
  have hBlob := hE.agree _ (Or.inl rfl)
  have hOld := h.of_kept (hE.mono (Set.subset_insert _ _))
  have hLog : e' (InsertLog.logPath (labeledEdgesPath base label)) =
      e (InsertLog.logPath (labeledEdgesPath base label)) := by
    by_cases hKnown : label ∈ K
    · exact hOld.agree _ (Or.inr (log_mem hKnown))
    · have hNot : InsertLog.logPath (labeledEdgesPath base label) ∉ knownWrites base K :=
        fun hMem => hMem.2 label hKnown rfl
      rw [hE.off _ hNot, hE.off' _ hNot, hFresh hKnown, h.clean label hKnown]
  have hMore := hOld.more hBlob hLog
  have hSub : K ⊆ Insert.insert label K := Set.subset_insert _ _
  refine twin_bind (LabelManifest.twin_read (hMore.agree _ (Or.inl rfl)) (fun names hNames => ?_)
    fun _ => ⟨rfl, _, hSub, hMore⟩)
  split
  · exact twin_pure ⟨rfl, hMore⟩
  · refine (hMore.twin_manifest fun name hName => ?_).mono (fun _ _ _ _ => id)
      fun _ _ _ _ ⟨hT, hE⟩ => ⟨hT, _, hSub, hE⟩
    rw [List.mem_append, List.mem_singleton] at hName
    rcases hName with hOld | rfl
    · exact hMore.listed hNames name hOld
    · exact Or.inl rfl

/-! ## Opening -/

omit [DecidableEq Id] [Serde Id] [StoredRecord R Id IV SV] in
theorem label_withManifestLabels {relations : List (String × List (Id × Id))}
    {manifest : List String}
    {r : String × List (Id × Id)} (h : r ∈ withManifestLabels relations manifest) :
    r ∈ relations ∨ r.1 ∈ manifest := by
  unfold withManifestLabels at h
  induction manifest generalizing relations with
  | nil => exact Or.inl h
  | cons label manifest ih =>
    rw [List.foldl_cons] at h
    rcases ih h with hMem | hLater
    · split at hMem
      · exact Or.inl hMem
      · rw [List.mem_append, List.mem_singleton] at hMem
        rcases hMem with hOld | rfl
        · exact Or.inl hOld
        · exact Or.inr List.mem_cons_self
    · exact Or.inr (List.mem_cons_of_mem label hLater)

variable [MmapFieldValue Id] [MmapFieldValue SV] [DecidableEq IV] [Serde R]
variable {inner : GenericMmapStore R Id IV SV} {relations : List (String × List (Id × Id))}

omit [StoredRecord R Id IV SV] [Serde Id] [MmapFieldValue Id] [MmapFieldValue SV] [DecidableEq IV]
  [Serde R] in
theorem known_new (hInner : GenericMmapStore.OfFile base inner) (h : ∀ r ∈ relations, r.1 ∈ K) :
    Known base K ((new inner relations).withPath base) := by
  refine ⟨hInner, rfl, fun {label m} hM => ?_⟩
  obtain ⟨r, hMem, rfl, -⟩ := lookup_new inner relations hM
  exact h r hMem

omit [MmapFieldValue Id] [MmapFieldValue SV] [DecidableEq IV] [Serde R] in
theorem twin_openRelations (hInner : GenericMmapStore.OfFile base inner)
    (h : Shared (SCHEMA_TAG R) base K d d')
    (hLabels : ∀ r ∈ relations, r.1 ∈ K) : twin (openRelations R inner relations base) t d d'
      (fun s _ e e' => Known base K s ∧ Shared (SCHEMA_TAG R) base K e e')
      fun _ _ e e' => Shared (SCHEMA_TAG R) base K e e' := by
  refine twin_bind (LabelManifest.twin_read (h.agree _ (Or.inl rfl))
    (fun manifest hManifest => ?_) fun _ => h)
  have hAll : ∀ r ∈ withManifestLabels relations manifest, r.1 ∈ K := fun r hMem =>
    (label_withManifestLabels hMem).elim (hLabels r) (h.listed hManifest r.1)
  have hOpen : Alike (knownFiles base K) (knownWrites base K) (fun _ : T => True) (fun all =>
      ∀ r ∈ all, r.1 ∈ K) ((withManifestLabels relations manifest).mapM (openLabel R base)) :=
    Alike.mapM _ fun r hMem => alike_openLabel (Set.subset_insert _ _) Set.Subset.rfl (hAll r hMem)
  refine twin_bind (hOpen.twin trivial h.kept (fun all u e e' hOpened _ hE => ?_)
    fun _ _ _ _ _ hE => h.of_kept hE)
  have hNow := h.of_kept hE
  dsimp only
  split
  · exact twin_pure ⟨known_new hInner hOpened, hNow⟩
  · refine twin_bind ((hNow.twin_manifest fun name hName => ?_).mono
      (fun _ _ _ _ ⟨_, hE⟩ => twin_pure ⟨known_new hInner hOpened, hE⟩) fun _ _ _ _ ⟨_, hE⟩ => hE)
    obtain ⟨r, hMem, rfl⟩ := List.mem_map.mp hName
    exact hOpened r hMem

omit [MmapFieldValue Id] [MmapFieldValue SV] [DecidableEq IV] [Serde R] in
theorem twin_openPortable (hInner : GenericMmapStore.OfFile base inner)
    (h : Shared (SCHEMA_TAG R) base K d d')
    {labels : List String} (hLabels : ∀ label ∈ labels, label ∈ K) :
    twin (openPortable R inner base labels) t d d'
      (fun s _ e e' => Known base K s ∧ Shared (SCHEMA_TAG R) base K e e')
      fun _ _ e e' => Shared (SCHEMA_TAG R) base K e e' := by
  refine twin_bind (LabelManifest.twin_read (h.agree _ (Or.inl rfl))
    (fun manifest hManifest => ?_) fun _ => h)
  have hNamed : ∀ r ∈ withManifestLabels (labels.map fun label =>
      (label, ([] : List (Id × Id)))) manifest, r.1 ∈ K := by
    intro r hMem
    rcases label_withManifestLabels hMem with hGiven | hListed
    · obtain ⟨label, hLabel, rfl⟩ := List.mem_map.mp hGiven
      exact hLabels label hLabel
    · exact h.listed hManifest r.1 hListed
  have hRead : Alike (knownFiles base K) (knownWrites base K) (fun _ : T => True) (fun all =>
      ∀ r ∈ all, r.1 ∈ K)
      ((withManifestLabels (labels.map fun label => (label, ([] : List (Id × Id)))) manifest).mapM
        (readLabel R base)) :=
    Alike.mapM _ fun r hMem => alike_readLabel (Set.subset_insert _ _) (hNamed r hMem)
  exact twin_bind (hRead.twin trivial h.kept (fun all _ e e' hRead _ hE =>
    twin_openRelations hInner (h.of_kept hE) hRead) fun _ _ _ _ _ hE => h.of_kept hE)

/-! ## Creating -/

omit [DecidableEq Id] [MmapFieldValue Id] [MmapFieldValue SV] [DecidableEq IV] [Serde R] in
/-- The labels of a create: what was there is gone. -/
theorem twin_createLabels {C : Stop DurabilityError → T → Disk → Disk → Prop}
    (hStop : ∀ x u e e', C x u e e')
    (h : Kept (GenericMmapStore.storeFiles base) (knownWrites base K) d₀ d₀' d d')
    (hLabels : ∀ label, label ∈ K ↔ label ∈ relations.map (·.1)) :
    twin (relations.forM (createLabel R base)) t d d'
      (fun _ _ e e' => Kept (labelledFiles base K) (knownWrites base K) d₀ d₀' e e') C := by
  -- the files of the labels that are done
  have hStart : (∀ r ∈ relations, r.1 ∈ K) ∧
      Kept (labelledFiles base (K \ {label | label ∈ relations.map (·.1)}))
      (knownWrites base K) d₀ d₀' d d' := by
    refine ⟨fun r hMem => (hLabels r.1).mpr (List.mem_map_of_mem hMem), h.mono ?_⟩
    rintro path (hStore | hLabel)
    · exact hStore
    · obtain ⟨label, ⟨hIn, hOut⟩, -⟩ := Set.mem_iUnion₂.mp hLabel
      exact (hOut ((hLabels label).mp hIn)).elim
  have hStep (r : String × List (Id × Id)) (rest : List (String × List (Id × Id))) (u : T)
      (e e' : Disk)
      (hKept : (∀ r' ∈ r :: rest, r'.1 ∈ K) ∧
        Kept (labelledFiles base (K \ {label | label ∈ (r :: rest).map (·.1)}))
        (knownWrites base K) d₀ d₀' e e') : twin (createLabel R base r) u e e'
      (fun _ _ e e' => (∀ r' ∈ rest, r'.1 ∈ K) ∧
        Kept (labelledFiles base (K \ {label | label ∈ rest.map (·.1)}))
        (knownWrites base K) d₀ d₀' e e') C := by
    obtain ⟨hRest, hE⟩ := hKept
    rw [List.forall_mem_cons] at hRest
    refine twin_bind (twin_removeIfPresent hE (log_known hRest.1) (fun e₁ e₁' hLog => ?_)
      fun _ _ _ _ => hStop _ _ _ _)
    refine EdgeBlob.twin_write hLog (blobWrites_known (Or.inl (endsIn_blob base r.1)))
      (fun e₂ e₂' hBlob => ⟨hRest.2, ?_⟩) fun _ _ _ _ => hStop _ _ _ _
    refine hBlob.mono ?_
    rintro path (hStore | hLabel)
    · exact Or.inr (Or.inr (Or.inl hStore))
    · obtain ⟨label, ⟨hIn, hOut⟩, hPath⟩ := Set.mem_iUnion₂.mp hLabel
      by_cases hEq : label = r.1
      · rw [hEq] at hPath
        rcases hPath with rfl | rfl
        · exact Or.inl rfl
        · exact Or.inr (Or.inl rfl)
      · have hLeft : label ∈ K \ {label | label ∈ (r :: rest).map (·.1)} :=
          ⟨hIn, fun hMem => (List.mem_cons.mp hMem).elim hEq hOut⟩
        exact Or.inr (Or.inr (Or.inr (Set.mem_biUnion hLeft hPath)))
  refine (twin_forM (I := fun rest _ e e' => (∀ r ∈ rest, r.1 ∈ K) ∧ Kept (labelledFiles base
    (K \ {label | label ∈ rest.map (·.1)})) (knownWrites base K) d₀ d₀' e e') hStep relations
      hStart).mono (fun _ _ e e' ⟨_, hE⟩ => ?_) fun _ _ _ _ => id
  simpa using hE

omit [MmapFieldValue Id] [MmapFieldValue SV] [DecidableEq IV] [Serde R] in
theorem twin_create {C : Stop DurabilityError → T → Disk → Disk → Prop}
    (hStop : ∀ x u e e', C x u e e') (hInner : GenericMmapStore.OfFile base inner)
    (h : Kept (GenericMmapStore.storeFiles base) (knownWrites base K) d₀ d₀' d d')
    (hClean : ∀ label, d₀ (InsertLog.logPath (labeledEdgesPath base label)) = none)
    (hLabels : ∀ label, label ∈ K ↔ label ∈ relations.map (·.1)) :
    twin (create R inner relations base) t d d'
      (fun s _ e e' => Known base K s ∧ Shared (SCHEMA_TAG R) base K e e') C := by
  refine twin_bind ((twin_createLabels hStop h hLabels).mono (fun _ u e e' hE => ?_) fun _ _ _ _ =>
    id)
  have hWrites : blobWrites (LabelManifest.path base) ⊆
      Insert.insert (LabelManifest.path base) (knownWrites base K) := by
    rintro path (rfl | rfl)
    · exact Or.inl rfl
    · exact Or.inr (mem_knownWrites_of_end (endsIn_temp _) rfl (by decide) (by decide))
  refine twin_bind (LabelManifest.twin_write (hE.weaken (Set.subset_insert _ _)) hWrites
    (fun e₁ e₁' hManifest hListed =>
    twin_pure ⟨?_, hManifest.agree, fun hNames name hName => ?_, fun label hLabel => ?_⟩)
      fun _ _ _ _ _ => hStop _ _ _ _)
  · exact known_new hInner fun r hMem => (hLabels r.1).mpr (List.mem_map_of_mem hMem)
  · rw [hListed] at hNames
    cases hNames
    exact (hLabels name).mpr hName
  · rw [hManifest.off, hClean label]
    rintro (hIs | hKnown)
    · exact log_ne_manifest _ hIs
    · exact hKnown.2 label hLabel rfl

/-! ## Linking -/

section Link

variable {s : ProductionStack R Id IV SV} {relation : String} {a b : Id}

/-- The checks of a link. -/
def linkPasses (s : ProductionStack R Id IV SV) (relation : String) (a b : Id) : Bool :=
  let found := fun id => match RecordStore.get s.inner id with
    | .ok record => record.isSome
    | .error _ => false
  validRelationLabel relation && found a && (s.isForeign relation || found b) && decide (a ≠ b)

/-- A link finds no log of the label it creates. -/
def LinkFresh (base : Path) (s : ProductionStack R Id IV SV) (d : Disk) (relation : String)
    (a b : Id) : Prop :=
  linkPasses s relation a b = true → s.adjacency.lookup relation = none →
    d (InsertLog.logPath (labeledEdgesPath base relation)) = none

omit [DecidableEq Id] [MmapFieldValue Id] [MmapFieldValue SV] [DecidableEq IV] [Serde R] in
theorem twin_linkLabel (hKnown : Known base K s) (h : Shared (SCHEMA_TAG R) base K d d')
    (hFresh : s.adjacency.lookup relation = none →
      d' (InsertLog.logPath (labeledEdgesPath base relation)) = none) :
    twin (linkLabel R relation : Method (ProductionStack R Id IV SV) DurabilityError Unit) s d d'
      (fun _ u e e' => ∃ L, K ⊆ L ∧ Known base L u ∧ Shared (SCHEMA_TAG R) base L e e')
      fun _ u e e' => ∃ L, K ⊆ L ∧ Known base L u ∧ Shared (SCHEMA_TAG R) base L e e' := by
  refine twin_bind (twin_self ?_)
  split
  · exact twin_pure ⟨K, Set.Subset.rfl, hKnown, h⟩
  · next hNone =>
    rw [hKnown.basePath]
    refine twin_bind ((twin_nameLabel h fun _ => hFresh hNone).mono (fun _ u e e' ⟨hU, hE⟩ => ?_)
      fun _ u e e' ⟨hU, L, hSub, hE⟩ => hU ▸ ⟨L, hSub, hKnown.mono hSub, hE⟩)
    subst hU
    exact twin_modifySelf ⟨_, Set.subset_insert _ _,
      (hKnown.mono (Set.subset_insert _ _)).setAdjacency (Or.inl rfl) _, hE⟩

theorem twin_link (hKnown : Known base K s) (h : Shared (SCHEMA_TAG R) base K d d')
    (hFresh : LinkFresh base s d' relation a b) :
    twin (link relation a b : Method (ProductionStack R Id IV SV) (EdgeLayer.LinkError Id)
      LinkOutcome) s d d'
      (fun _ u e e' => ∃ L, K ⊆ L ∧ Known base L u ∧ Shared (SCHEMA_TAG R) base L e e')
      fun _ u e e' => ∃ L, K ⊆ L ∧ Known base L u ∧ Shared (SCHEMA_TAG R) base L e e' := by
  have hSame : ∃ L, K ⊆ L ∧ Known base L s ∧ Shared (SCHEMA_TAG R) base L d d' :=
    ⟨K, Set.Subset.rfl, hKnown, h⟩
  unfold link
  split
  · exact twin_fail hSame
  · next hValid =>
    refine twin_bind (twin_self (twin_bind (twin_checked (fun left hLeft => ?_) hSame)))
    split
    · exact twin_fail hSame
    · next hSome =>
      have hChecked (found : Bool) (hFound : found = true →
          (s.isForeign relation || match RecordStore.get s.inner b with
          | .ok record => record.isSome
          | .error _ => false) = true) :
          twin (if found = false then Method.fail (.unknownRecord b) else
            if a = b then Method.fail (.selfLoop a) else do
              Method.mapError .durability (linkLabel R relation)
              Method.mapError .durability (linkEnds R relation a b) :
              Method (ProductionStack R Id IV SV) (EdgeLayer.LinkError Id) LinkOutcome) s d d'
            (fun _ u e e' => ∃ L, K ⊆ L ∧ Known base L u ∧ Shared (SCHEMA_TAG R) base L e e')
            fun _ u e e' => ∃ L, K ⊆ L ∧ Known base L u ∧ Shared (SCHEMA_TAG R) base L e e' := by
        split
        · exact twin_fail hSame
        · next hTrue =>
          split
          · exact twin_fail hSame
          · next hNe =>
            have hPasses : linkPasses s relation a b = true := by
              have hFar := hFound (by simpa using hTrue)
              simp only [linkPasses, hLeft, Bool.and_eq_true, decide_eq_true_eq]
              refine ⟨⟨⟨by simpa using hValid, ?_⟩, hFar⟩, hNe⟩
              rwa [Bool.not_eq_true, Option.isNone_eq_false_iff] at hSome
            refine twin_bind (twin_mapError ((twin_linkLabel hKnown h (hFresh hPasses)).mono
              (fun _ u e e' ⟨L, hSub, hU, hE⟩ => ?_) fun _ _ _ _ => id))
            exact twin_mapError ((alike_linkEnds (F := knownFiles base L) (Set.subset_insert _ _)
              Set.Subset.rfl relation a b).twin
              hU hE.kept (fun _ v _ _ _ hV hKept => ⟨L, hSub, hV, hE.of_kept hKept⟩)
              fun _ v _ _ hV hKept => ⟨L, hSub, hV, hE.of_kept hKept⟩)
      refine twin_bind (twin_bind (twin_self ?_))
      split
      · next hForeign => exact twin_pure (hChecked true fun _ => by rw [hForeign, Bool.true_or])
      · refine twin_bind (twin_checked
          (fun right hRight => twin_pure (hChecked right.isSome fun hSomeRight => ?_)) hSame)
        rw [hRight, Bool.or_eq_true]
        exact Or.inr hSomeRight

end Link

end MultiSymmetric

end MultimodalDb
