import MultimodalDb.Generic.EdgeInvariant

/-!
# Creating and opening an edge layer

What `create` and `open` do to each label: the blob is written or found current, and the log is
gone. A stop in between leaves the log, and the blob it was or the folded one. The files of two
labels, and those of one label, are told apart by the ends of their names.
-/

namespace MultimodalDb

open NeighborLists StoreView
open StoredRecord hiding id

/-! ## Paths -/

theorem append_ne_append_of_tails {xs ys a b : Path} (hLen : a.length = b.length) (hNe : a ≠ b) :
    xs ++ a ≠ ys ++ b :=
  fun h => hNe (List.append_inj_right' h hLen)

section Paths

/-- The paths of the layer that end alike. -/
def EndsIn (ending path : Path) : Prop := ∃ front, path = front ++ ending

theorem EndsIn.ne {a b path other : Path} (h : EndsIn a path) (h' : EndsIn b other)
    (hLen : a.length = b.length) (hNe : a ≠ b) : path ≠ other := by
  obtain ⟨front, rfl⟩ := h
  obtain ⟨front', rfl⟩ := h'
  exact append_ne_append_of_tails hLen hNe

theorem endsIn_blob (base : Path) (label : String) :
    EndsIn ['e', 's'] (labeledEdgesPath base label) := by
  have hSuffix : EDGES_SUFFIX = ".edg".toList ++ ['e', 's'] := by decide
  refine ⟨base ++ ['.'] ++ label.toList ++ ".edg".toList, ?_⟩
  rw [labeledEdgesPath, hSuffix, ← List.append_assoc]

theorem endsIn_log (path : Path) : EndsIn ['t', 's'] (InsertLog.logPath path) := by
  have hSuffix : InsertLog.LOG_SUFFIX = ".inser".toList ++ ['t', 's'] := by decide
  refine ⟨path ++ ".inser".toList, ?_⟩
  rw [InsertLog.logPath, hSuffix, ← List.append_assoc]

theorem endsIn_temp (path : Path) : EndsIn ['m', 'p'] (RecordBlob.tempPath path) := by
  have hSuffix : RecordBlob.TEMP_SUFFIX = ".rewrite-t".toList ++ ['m', 'p'] := by decide
  refine ⟨path ++ ".rewrite-t".toList, ?_⟩
  rw [RecordBlob.tempPath, hSuffix, ← List.append_assoc]

theorem endsIn_manifest (base : Path) : EndsIn ['n', 's'] (LabelManifest.path base) := by
  have hSuffix : LabelManifest.MANIFEST_SUFFIX = ".relatio".toList ++ ['n', 's'] := by decide
  refine ⟨base ++ ".relatio".toList, ?_⟩
  rw [LabelManifest.path, hSuffix, ← List.append_assoc]

theorem logPath_injective {path other : Path}
    (h : InsertLog.logPath path = InsertLog.logPath other) :
    path = other :=
  List.append_cancel_right h

theorem labeledEdgesPath_injective {base : Path} {label other : String}
    (h : labeledEdgesPath base label = labeledEdgesPath base other) : label = other := by
  rw [labeledEdgesPath, labeledEdgesPath, List.append_cancel_right_eq, List.append_cancel_left_eq]
    at h
  exact String.toList_injective h

/-- The files an opening writes for one label. -/
def openedFiles (path : Path) : List Path :=
  [path, RecordBlob.tempPath path, InsertLog.logPath path]

variable {base : Path} {label other : String}

theorem log_ne_blob : InsertLog.logPath (labeledEdgesPath base label) ≠
    labeledEdgesPath base other :=
  (endsIn_log _).ne (endsIn_blob base other) rfl (by decide)

theorem log_ne_temp (path path' : Path) : InsertLog.logPath path ≠ RecordBlob.tempPath path' :=
  (endsIn_log _).ne (endsIn_temp _) rfl (by decide)

theorem blob_ne_temp (path' : Path) : labeledEdgesPath base label ≠ RecordBlob.tempPath path' :=
  (endsIn_blob _ _).ne (endsIn_temp _) rfl (by decide)

theorem log_not_opened (h : label ≠ other) :
    InsertLog.logPath (labeledEdgesPath base label) ∉
      openedFiles (labeledEdgesPath base other) := by
  have hLog : InsertLog.logPath (labeledEdgesPath base label) ≠
      InsertLog.logPath (labeledEdgesPath base other) :=
    fun hEq => h (labeledEdgesPath_injective (logPath_injective hEq))
  simp [openedFiles, hLog, log_ne_temp, log_ne_blob]

end Paths

/-! ## One blob -/

namespace EdgeBlob

variable {S Id : Type} [Serde Id] {s : S} {d : Disk} {A C : Stop DurabilityError → S → Disk → Prop}
variable {tag : String} {edges : List (Id × Id)} {path : Path}

/-- A file that is the blob of these edges. -/
def Holds (tag : String) (edges : List (Id × Id)) (file : Option Bytes) : Prop :=
  ∃ body, Codec.encode edges = some body ∧ file = some (format.image tag body)

theorem wp_write {Q : Unit → S → Disk → Prop}
    (hOk : ∀ d', Holds tag edges (d' path) →
      Disk.AgreeOff [path, RecordBlob.tempPath path] d d' → Q () s d')
    (hSerde : Codec.encode edges = none → A (.error .serde) s d)
    (hStop : ∀ e d', Disk.AgreeOff [RecordBlob.tempPath path] d d' → C e s d') :
    Method.wp (write tag edges path) s d Q A C := by
  unfold write BlobFormat.encode
  cases hBody : Codec.encode edges with
  | none => exact Method.wp_bind (Method.wp_fail (hSerde hBody))
  | some body =>
    refine Method.wp_bind (Method.wp_pure
      (RecordBlob.wp_write (fun d' hImage _ hSame => ?_) fun e d' hSame => ?_))
    · refine hOk d' ⟨body, hBody, hImage⟩ fun other hOther => ?_
      rw [List.mem_cons, List.mem_singleton, not_or] at hOther
      exact hSame other hOther.1 hOther.2
    · refine hStop e d' fun other hOther => hSame other ?_
      rwa [List.mem_singleton] at hOther

end EdgeBlob

/-- What a manifest says, when it can be read. -/
def LabelManifest.listed (tag : String) (manifest : Path) (file : Option Bytes) :
    Except DurabilityError (List String) :=
  file.elim (.ok []) (decodeLabels tag manifest)

theorem LabelManifest.wp_read {S : Type} {s : S} {d : Disk} {tag : String} {base : Path}
    {Q : List String → S → Disk → Prop} {A C : Stop DurabilityError → S → Disk → Prop}
    (hOk : ∀ labels, listed tag (path base) (d (path base)) = .ok labels → Q labels s d)
    (hRefused : ∀ e, A (.error e) s d) (hStop : ∀ e, C e s d) :
    Method.wp (read base tag) s d Q A C := by
  refine Method.wp_bind (Method.wp_readIfPresent ?_ hStop)
  cases hFile : d (path base) with
  | none => exact Method.wp_pure (hOk [] (by rw [hFile]; rfl))
  | some bytes =>
    refine Method.wp_ofExcept (fun labels hLabels => hOk labels ?_) fun e _ => hRefused e
    rw [hFile]
    exact hLabels

/-- The list that an opening folds the log of a label into may be. -/
def FoldOver (R : Type) {Id IV V : Type} [DecidableEq Id] [StoredRecord R Id IV V] [Serde Id]
    (ids : Set Id) (foreign : Bool) (path : Path) (edges : List (Id × Id)) (d : Disk) : Prop :=
  ∀ entries, InsertLog.entriesOf (InsertLog.logPath path) (SCHEMA_TAG R)
    (d (InsertLog.logPath path)) = .ok entries → ListOver ids foreign (mergeEdgeLists edges entries)

/-- A blob holds these edges. -/
def BlobHolds (R : Type) {Id IV V : Type} [StoredRecord R Id IV V] [Serde Id] (path : Path)
    (edges : List (Id × Id)) (d : Disk) : Prop :=
  ∃ bytes, d path = some bytes ∧ EdgeBlob.format.decodeImage (SCHEMA_TAG R) path bytes = .ok edges

namespace MultiSymmetric

variable {S T R Id IV V : Type} [DecidableEq Id] [StoredRecord R Id IV V] [Serde Id]
variable {base : Path} {relation : String × List (Id × Id)} {t : T} {d : Disk}

/-- The entries of a label's log. -/
def logged (R : Type) {Id IV V : Type} [StoredRecord R Id IV V] [Serde Id] (base : Path)
    (label : String) (d : Disk) : Except DurabilityError (List (LogEntry (Id × Id) Id)) :=
  InsertLog.entriesOf (InsertLog.logPath (labeledEdgesPath base label)) (SCHEMA_TAG R)
    (d (InsertLog.logPath (labeledEdgesPath base label)))

/-- What opening a label leaves: the log is folded into the edges, and the blob is written or was
found to carry their fingerprint. -/
structure OpenedLabel (R : Type) {Id IV V : Type} [DecidableEq Id]
    [StoredRecord R Id IV V] [Serde Id]
    (base : Path) (relation : String × List (Id × Id)) (d : Disk) (opened : String × List (Id × Id))
    (d' : Disk) : Prop where
  label : opened.1 = relation.1
  folded : ∃ entries, logged R base relation.1 d = .ok entries ∧
    opened.2 = mergeEdgeLists relation.2 entries
  blob : EdgeBlob.Holds (SCHEMA_TAG R) opened.2 (d' (labeledEdgesPath base relation.1)) ∨
    EdgeBlob.format.CurrentAt (SCHEMA_TAG R) opened.2 (d (labeledEdgesPath base relation.1)) ∧
      d' (labeledEdgesPath base relation.1) = d (labeledEdgesPath base relation.1)
  log : d' (InsertLog.logPath (labeledEdgesPath base relation.1)) = none
  same : Disk.AgreeOff (openedFiles (labeledEdgesPath base relation.1)) d d'

/-- What an opening of a label that is stopped leaves: the log, and the blob or the folded one. -/
structure CutLabel (R : Type) {Id IV V : Type} [DecidableEq Id] [StoredRecord R Id IV V] [Serde Id]
    (base : Path) (relation : String × List (Id × Id)) (d d' : Disk) : Prop where
  blob : d' (labeledEdgesPath base relation.1) = d (labeledEdgesPath base relation.1) ∨
    ∃ entries, logged R base relation.1 d = .ok entries ∧ EdgeBlob.Holds (SCHEMA_TAG R)
      (mergeEdgeLists relation.2 entries) (d' (labeledEdgesPath base relation.1))
  same : Disk.AgreeOff [labeledEdgesPath base relation.1,
    RecordBlob.tempPath (labeledEdgesPath base relation.1)] d d'

theorem wp_openLabel : Method.wp (openLabel R base relation) t d
    (fun opened t' d' => t' = t ∧ OpenedLabel R base relation d opened d')
    (fun _ t' d' => t' = t ∧ CutLabel R base relation d d') fun _ t' d' =>
      t' = t ∧ CutLabel R base relation d d' := by
  have hLogBlob : InsertLog.logPath (labeledEdgesPath base relation.1) ≠
    labeledEdgesPath base relation.1 := log_ne_blob
  have hLogTemp := log_ne_temp (labeledEdgesPath base relation.1) (labeledEdgesPath base relation.1)
  have hBlobTemp : labeledEdgesPath base relation.1 ≠
      RecordBlob.tempPath (labeledEdgesPath base relation.1) :=
    blob_ne_temp _
  have hSame : t = t ∧ CutLabel R base relation d d := ⟨rfl, Or.inl rfl, fun _ _ => rfl⟩
  refine Method.wp_bind (InsertLog.wp_readEntries_any (fun entries hEntries => ?_) (fun _ => hSame)
    fun _ => hSame)
  refine Method.wp_bind (EdgeBlob.format.wp_isCurrentAt (fun current hCurrent => ?_) fun _ => hSame)
  -- the log is removed once the blob is right
  have hClear {d₁ : Disk} (hBlob : EdgeBlob.Holds (SCHEMA_TAG R) (mergeEdgeLists relation.2 entries)
        (d₁ (labeledEdgesPath base relation.1)) ∨
      EdgeBlob.format.CurrentAt (SCHEMA_TAG R) (mergeEdgeLists relation.2 entries)
        (d (labeledEdgesPath base relation.1)) ∧
        d₁ (labeledEdgesPath base relation.1) = d (labeledEdgesPath base relation.1))
      (hAgree : Disk.AgreeOff [labeledEdgesPath base relation.1,
        RecordBlob.tempPath (labeledEdgesPath base relation.1)] d d₁) :
      Method.wp (do
        InsertLog.clear (InsertLog.logPath (labeledEdgesPath base relation.1))
        return (relation.1, mergeEdgeLists relation.2 entries)) t d₁
        (fun opened t' d' => t' = t ∧ OpenedLabel R base relation d opened d')
        (fun _ t' d' => t' = t ∧ CutLabel R base relation d d')
        fun _ t' d' => t' = t ∧ CutLabel R base relation d d' := by
    refine Method.wp_bind (InsertLog.wp_clear (Method.wp_pure ⟨rfl, rfl,
      ⟨entries, hEntries, rfl⟩, ?_, ?_, ?_⟩)
      fun _ => ⟨rfl, hBlob.symm.imp (fun h => h.2) (fun h => ⟨entries, hEntries, h⟩), hAgree⟩)
    · rwa [Function.update_of_ne hLogBlob.symm]
    · exact Function.update_self ..
    · refine Disk.AgreeOff.update (hAgree.mono ?_) (by simp [openedFiles]) none
      simp [openedFiles]
  cases current with
  | true => exact hClear (Or.inr ⟨hCurrent rfl, rfl⟩) fun _ _ => rfl
  | false =>
    refine Method.wp_bind (EdgeBlob.wp_write (fun d' hBlob hAgree => hClear (Or.inl hBlob) hAgree)
      (fun _ => hSame) fun e d' hAgree => ⟨rfl, Or.inl ?_, hAgree.mono (by simp)⟩)
    exact hAgree _ (by simpa using hBlobTemp)

/-! ### All the labels -/

theorem openedFiles_subset (base : Path) (label : String) {path : Path}
    (h : path ∈ openedFiles (labeledEdgesPath base label)) : path ∈ layerFiles base := by
  refine blobFiles_subset base label ?_
  simp only [openedFiles, List.mem_cons, List.not_mem_nil, or_false] at h
  rcases h with rfl | rfl | rfl
  · exact Or.inl rfl
  · exact Or.inr (Or.inl rfl)
  · exact Or.inr (Or.inr (Or.inl rfl))

omit [Serde Id] in
/-- Every adjacency of a new layer is that of a relation it was given. -/
theorem lookup_new {S : Type} (inner : S) (relations : List (String × List (Id × Id)))
    {label : String}
    {m : NeighborLists Id} (h : (new inner relations).adjacency.lookup label = some m) :
    ∃ r ∈ relations, r.1 = label ∧ m = ofEdges r.2 := by
  have hFold : ∀ (relations : List (String × List (Id × Id))) (adjacency : AList fun _ : String =>
      NeighborLists Id),
      (relations.foldl (fun adjacency r => adjacency.insert r.1 (ofEdges r.2)) adjacency).lookup
      label = some m →
      (∃ r ∈ relations, r.1 = label ∧ m = ofEdges r.2) ∨ adjacency.lookup label = some m := by
    intro relations
    induction relations with
    | nil => exact fun adjacency h => Or.inr h
    | cons r relations ih =>
      intro adjacency h
      rcases ih _ h with ⟨r', hMem, hR⟩ | hHead
      · exact Or.inl ⟨r', List.mem_cons_of_mem r hMem, hR⟩
      · by_cases hLabel : label = r.1
        · rw [hLabel, AList.lookup_insert] at hHead
          exact Or.inl ⟨r, List.mem_cons_self, hLabel.symm, (Option.some.inj hHead).symm⟩
        · rw [AList.lookup_insert_ne hLabel] at hHead
          exact Or.inr hHead
  refine (hFold relations ∅ h).resolve_right ?_
  rw [AList.lookup_empty]
  exact nofun

omit [DecidableEq Id] [Serde Id] in
/-- Relations that name every label of a manifest are all there are. -/
theorem withManifestLabels_of_named {relations : List (String × List (Id × Id))}
    {manifest : List String} (h : ∀ label ∈ manifest, label ∈ relations.map (·.1)) :
    withManifestLabels relations manifest = relations := by
  unfold withManifestLabels
  induction manifest with
  | nil => rfl
  | cons label manifest ih =>
    rw [List.forall_mem_cons] at h
    rw [List.foldl_cons, if_pos, ih h.2]
    obtain ⟨r, hMem, hLabel⟩ := List.mem_map.mp h.1
    exact List.any_eq_true.mpr ⟨r, hMem, decide_eq_true hLabel⟩

omit [DecidableEq Id] [Serde Id] in
theorem named_withManifestLabels (relations : List (String × List (Id × Id)))
    (manifest : List String) :
    ∀ label, label ∈ relations.map (·.1) ∨ label ∈ manifest →
      label ∈ (withManifestLabels relations manifest).map (·.1) := by
  unfold withManifestLabels
  induction manifest generalizing relations with
  | nil => exact fun label h => h.resolve_right List.not_mem_nil
  | cons first manifest ih =>
    intro label h
    rw [List.foldl_cons]
    refine ih _ label ?_
    rw [List.mem_cons] at h
    split
    · next hAny =>
      obtain ⟨r, hMem, hLabel⟩ := List.any_eq_true.mp hAny
      rcases h with hOld | rfl | hRest
      · exact Or.inl hOld
      · exact Or.inl (List.mem_map.mpr ⟨r, hMem, of_decide_eq_true hLabel⟩)
      · exact Or.inr hRest
    · rw [List.map_append, List.mem_append]
      rcases h with hOld | rfl | hRest
      · exact Or.inl (Or.inl hOld)
      · exact Or.inl (Or.inr List.mem_cons_self)
      · exact Or.inr hRest

section Starts

variable [RecordStore S R Id V] [StoreView S Id]

/-- The labels an opening goes through: those it is given, and the others of the manifest. -/
def Opens (R : Type) {Id IV V : Type} [StoredRecord R Id IV V] (base : Path)
    (relations : List (String × List (Id × Id))) (d : Disk) (all : List (String × List (Id × Id))) :
    Prop :=
  ∃ manifest, LabelManifest.listed (SCHEMA_TAG R) (LabelManifest.path base)
    (d (LabelManifest.path base)) = .ok manifest ∧ all = withManifestLabels relations manifest

/-- The list of every label that an opening folds a log into may be. Once folded a log is gone. -/
def FoldsOver (R : Type) {Id IV V : Type} [DecidableEq Id] [StoredRecord R Id IV V] [Serde Id]
    (ids : Set Id) (far : String → Bool) (base : Path) :
    List (String × List (Id × Id)) → Disk → Prop
  | [], _ => True
  | r :: rest, d =>
    FoldOver R ids (far r.1) (labeledEdgesPath base r.1) r.2 d ∧ FoldsOver R ids far base rest
      (Function.update d (InsertLog.logPath (labeledEdgesPath base r.1)) none)

/-- The blobs of these labels hold these edges. -/
def BlobsHold (R : Type) {Id IV V : Type} [StoredRecord R Id IV V] [Serde Id] (base : Path)
    (d : Disk) :
    List (String × List (Id × Id)) → List (String × List (Id × Id)) → Prop :=
  List.Forall₂ fun named r =>
    r.1 = named.1 ∧ BlobHolds R (labeledEdgesPath base named.1) r.2 d

variable (R) in
/-- **A layer that was created or opened** over a valid store, with edges between live distinct
records: those it was given, or what folding the logs into the lists it was given, or into those of
the blobs, made of them. No list has an edge twice. -/
inductive Starts (foreign : List String) : MultiSymmetric S Id → Disk → Prop where
  | created {inner base relations d plan s p} (hValid : Valid inner d)
    (hApart : ∀ file ∈ files inner, file ∉ layerFiles base)
    (hEdges : ∀ r ∈ relations, ListOver (live inner) (foreign.contains r.1) r.2)
    (hRun : create R inner relations base ⟨(), d, plan⟩ = .ok s p) :
    Starts foreign (s.withForeignLabels foreign) p.disk
  | opened {inner base relations d plan s p} (hValid : Valid inner d)
    (hApart : ∀ file ∈ files inner, file ∉ layerFiles base)
    (hFolds : ∀ all, Opens R base relations d all →
      FoldsOver R (live inner) foreign.contains base all d)
    (hRun : openRelations R inner relations base ⟨(), d, plan⟩ = .ok s p) :
    Starts foreign (s.withForeignLabels foreign) p.disk
  | reopened {inner base labels d plan s p} (hValid : Valid inner d)
    (hApart : ∀ file ∈ files inner, file ∉ layerFiles base)
    (hFolds : ∀ named all, Opens R base (labels.map fun label => (label, ([] : List (Id × Id)))) d
      named → BlobsHold R base d named all → FoldsOver R (live inner) foreign.contains base all d)
    (hRun : openPortable R inner base labels ⟨(), d, plan⟩ = .ok s p) :
    Starts foreign (s.withForeignLabels foreign) p.disk

variable {inner : S} {foreign : List String}

omit [Serde Id] in
/-- A layer built from such lists is sound. -/
theorem sound_new [laws : LawfulRecordStore S] {all : List (String × List (Id × Id))} {d' : Disk}
    (hValid : Valid inner d) (hApart : ∀ file ∈ files inner, file ∉ layerFiles base)
    (hSame : ∀ path, path ∉ layerFiles base → d' path = d path)
    (hAll : ∀ r ∈ all, ListOver (live inner) (foreign.contains r.1) r.2) :
    Sound (((new inner all).withPath base).withForeignLabels foreign) d' where
  valid := laws.valid_congr hValid fun path hPath => hSame path (hApart path hPath)
  apart base' hBase := by
    cases hBase
    exact hApart
  edges {label m} hM := by
    obtain ⟨r, hMem, rfl, rfl⟩ := lookup_new inner all hM
    exact (hAll r hMem).edgesOver

omit [DecidableEq Id] in
theorem touches_createLabel (relation : String × List (Id × Id)) :
    Method.Touches (layerFiles base)
      (createLabel R base relation : Method T DurabilityError Unit) := by
  have hBlob := blobFiles_subset base relation.1
  exact (Method.touches_removeIfPresent (hBlob (Or.inr (Or.inr (Or.inl rfl))))).bind fun _ =>
    EdgeBlob.touches_write (hBlob (Or.inl rfl)) (hBlob (Or.inr (Or.inl rfl)))

omit [DecidableEq Id] [StoredRecord R Id IV V] [Serde Id] in
theorem touches_manifest (tag : String) (labels : List String) :
    Method.Touches (layerFiles base)
      (LabelManifest.write base tag labels : Method T DurabilityError Unit) :=
  LabelManifest.touches_write (Or.inl (Or.inl rfl)) (Or.inl (Or.inr rfl))

/-- What the lists fold to depends on the logs alone. -/
theorem FoldsOver.congr {ids : Set Id} {far : String → Bool} {all : List (String × List (Id × Id))}
    {d d' : Disk} (h : FoldsOver R ids far base all d)
    (hLogs : ∀ label, d' (InsertLog.logPath (labeledEdgesPath base label)) =
      d (InsertLog.logPath (labeledEdgesPath base label))) :
    FoldsOver R ids far base all d' := by
  induction all generalizing d d' with
  | nil => trivial
  | cons r rest ih =>
    refine ⟨fun entries hEntries => ?_, ih h.2 fun label => ?_⟩
    · rw [hLogs] at hEntries
      exact h.1 entries hEntries
    · by_cases hLabel : label = r.1
      · rw [hLabel, Function.update_self, Function.update_self]
      · have hNe : InsertLog.logPath (labeledEdgesPath base label) ≠
            InsertLog.logPath (labeledEdgesPath base r.1) :=
          fun hEq => hLabel (labeledEdgesPath_injective (logPath_injective hEq))
        rw [Function.update_of_ne hNe, Function.update_of_ne hNe, hLogs]

/-- One label's opening folds its log, and leaves the others. -/
theorem OpenedLabel.folds {ids : Set Id} {far : String → Bool} {opened : String × List (Id × Id)}
    {rest : List (String × List (Id × Id))} {d' : Disk}
    (h : OpenedLabel R base relation d opened d')
    (hFolds : FoldsOver R ids far base (relation :: rest) d) :
    ListOver ids (far opened.1) opened.2 ∧ FoldsOver R ids far base rest d' := by
  obtain ⟨entries, hEntries, hFolded⟩ := h.folded
  refine ⟨?_, hFolds.2.congr fun label => ?_⟩
  · rw [h.label, hFolded]
    exact hFolds.1 entries hEntries
  · by_cases hLabel : label = relation.1
    · rw [hLabel, h.log, Function.update_self]
    · rw [h.same _ (log_not_opened hLabel), Function.update_of_ne fun hEq =>
        hLabel (labeledEdgesPath_injective (logPath_injective hEq))]

omit [RecordStore S R Id V] [StoreView S Id] in
/-- Opening gives lists that may be, when what the logs fold to may be. -/
theorem wp_openRelations {ids : Set Id} {far : String → Bool}
    {relations : List (String × List (Id × Id))}
    (hFolds : ∀ all, Opens R base relations d all → FoldsOver R ids far base all d) :
    Method.wp (openRelations R inner relations base) t d
      (fun s _ d' => ∃ all, s = (new inner all).withPath base ∧
        (∀ r ∈ all, ListOver ids (far r.1) r.2) ∧ ∀ path, path ∉ layerFiles base → d' path = d path)
      (fun _ _ _ => True) fun _ _ _ => True := by
  refine Method.wp_bind (LabelManifest.wp_read (fun manifest hManifest => ?_) (fun _ => trivial)
    fun _ => trivial)
  refine Method.wp_bind ((Method.wp_mapM (I := fun rest done _ d' =>
    FoldsOver R ids far base rest d' ∧
    (∀ r ∈ done, ListOver ids (far r.1) r.2) ∧ ∀ path, path ∉ layerFiles base → d' path = d path)
    (fun r rest done _ d₂ h => ?_) _ [] ⟨hFolds _ ⟨manifest, hManifest, rfl⟩, nofun,
      fun _ _ => rfl⟩).post fun all _ d₂ ⟨_, hAll, hDisk⟩ => ?_)
  · obtain ⟨hRest, hDone, hDisk⟩ := h
    refine wp_openLabel.mono (fun opened _ d₃ ⟨_, hOpened⟩ => ?_) (fun _ _ _ _ => trivial)
      fun _ _ _ _ => trivial
    obtain ⟨hOver, hNext⟩ := hOpened.folds hRest
    refine ⟨hNext, ?_, fun path hPath => ?_⟩
    · rw [List.forall_mem_append, List.forall_mem_singleton]
      exact ⟨hDone, hOver⟩
    · rw [hOpened.same path fun hMem => hPath (openedFiles_subset base r.1 hMem), hDisk path hPath]
  · rw [List.nil_append] at hAll
    have hWritten (d' : Disk) (hSame : ∀ path, path ∉ layerFiles base → d' path = d₂ path) :
        ∃ all', (new inner all).withPath base = (new inner all').withPath base ∧
          (∀ r ∈ all', ListOver ids (far r.1) r.2) ∧ ∀ path, path ∉ layerFiles base →
            d' path = d path :=
      ⟨all, rfl, hAll, fun path hPath => (hSame path hPath).trans (hDisk path hPath)⟩
    dsimp only
    split
    · exact Method.wp_pure (hWritten d₂ fun _ _ => rfl)
    · exact Method.wp_bind ((touches_manifest _ _).wp (fun _ d' hSame =>
        Method.wp_pure (hWritten d' hSame)) fun _ _ _ => trivial)

omit [RecordStore S R Id V] [StoreView S Id] in
/-- Opening from the blobs, when what the logs fold their edges to may be. -/
theorem wp_openPortable {ids : Set Id} {far : String → Bool} {labels : List String}
    (hFolds : ∀ named all, Opens R base
      (labels.map fun label => (label, ([] : List (Id × Id)))) d named →
      BlobsHold R base d named all → FoldsOver R ids far base all d) :
    Method.wp (openPortable R inner base labels) t d
      (fun s _ d' => ∃ all, s = (new inner all).withPath base ∧
        (∀ r ∈ all, ListOver ids (far r.1) r.2) ∧ ∀ path, path ∉ layerFiles base → d' path = d path)
      (fun _ _ _ => True) fun _ _ _ => True := by
  refine Method.wp_bind (LabelManifest.wp_read (fun manifest hManifest => ?_) (fun _ => trivial)
    fun _ => trivial)
  generalize hNamed : withManifestLabels
    (labels.map fun label => (label, ([] : List (Id × Id)))) manifest = named
  refine Method.wp_bind ((Method.wp_mapM (I := fun rest done _ d' => d' = d ∧ ∃ front,
    named = front ++ rest ∧ BlobsHold R base d front done) (fun r rest done _ d₂ h => ?_) _ []
    ⟨rfl, [], rfl, .nil⟩).post fun all _ d₂ ⟨hDisk, front, hFront, hBlobs⟩ => ?_)
  · obtain ⟨rfl, front, hFront, hBlobs⟩ := h
    refine Method.wp_bind (EdgeBlob.format.wp_read (fun bytes edges hFile hDecode =>
      Method.wp_pure ⟨rfl,
      front ++ [r], by rw [hFront, List.append_assoc, List.singleton_append], ?_⟩)
      (fun _ => trivial) (fun _ _ _ _ => trivial) fun _ => trivial)
    exact List.rel_append hBlobs (.cons ⟨rfl, bytes, hFile, hDecode⟩ .nil)
  · subst hDisk
    rw [List.append_nil] at hFront
    subst hFront
    rw [List.nil_append] at hBlobs
    refine wp_openRelations ?_
    -- every label of the manifest was read, so the opening adds none
    rintro _ ⟨manifest', hManifest', rfl⟩
    obtain rfl : manifest = manifest' := by
      rw [hManifest] at hManifest'
      exact Except.ok.inj hManifest'
    have hLabels : all.map (·.1) = named.map (·.1) := by
      have hEach := hBlobs.imp fun _ _ h => h.1.symm
      exact (List.forall₂_eq_eq_eq ▸ List.forall₂_map_left_iff.mpr
        (List.forall₂_map_right_iff.mpr hEach)).symm
    rw [withManifestLabels_of_named]
    · exact hFolds named all ⟨manifest, hManifest, hNamed.symm⟩ hBlobs
    · intro label hMem
      rw [hLabels, ← hNamed]
      exact named_withManifestLabels _ _ label (Or.inr hMem)

variable [laws : LawfulRecordStore S]

/-- A layer that was created or opened is sound. -/
theorem Starts.sound {s : MultiSymmetric S Id} (h : Starts R foreign s d) : Sound s d := by
  cases h with
  | @created inner base relations d plan s p hValid hApart hEdges hRun =>
    have hCreate : Method.wp (create R inner relations base) () d
        (fun s _ d' => s = (new inner relations).withPath base ∧ ∀ path, path ∉ layerFiles base →
          d' path = d path)
        (fun _ _ _ => True) fun _ _ _ => True := by
      refine Method.wp_bind ((Method.Touches.forM relations fun r _ => touches_createLabel r).wp
        (fun _ d₁ hLabels => ?_) fun _ _ _ => trivial)
      refine Method.wp_bind ((touches_manifest _ _).wp (fun _ d₂ hManifest =>
        Method.wp_pure ⟨rfl, fun path hPath => ?_⟩) fun _ _ _ => trivial)
      rw [hManifest path hPath, hLabels path hPath]
    obtain ⟨rfl, hSame⟩ := hCreate.of_ok hRun
    exact sound_new hValid hApart hSame hEdges
  | opened hValid hApart hFolds hRun =>
    obtain ⟨all, rfl, hAll, hSame⟩ := (wp_openRelations hFolds).of_ok hRun
    exact sound_new hValid hApart hSame hAll
  | reopened hValid hApart hFolds hRun =>
    obtain ⟨all, rfl, hAll, hSame⟩ := (wp_openPortable hFolds).of_ok hRun
    exact sound_new hValid hApart hSame hAll

end Starts

end MultiSymmetric

end MultimodalDb
