import MultimodalDb.Generic.EdgeOpening
import MultimodalDb.Generic.MmapTwins
import MultimodalDb.Generic.ProductionStack

/-!
# The stack on two disks

A stack looks at the files of its store, at the manifest, and at the blobs and logs of the labels it
knows: those it has an adjacency for, those the manifest lists, and those it was compiled with. Two
disks on which these agree are the same to it. A link under a new label makes the blob anew, but
appends to the log there is: on a disk where there is none, the new label's files agree too.
-/

namespace MultimodalDb

open Method Disk NeighborLists GenericRecordBlob
open StoredRecord hiding id

variable {S T R Id IV SV ε α : Type} {F W : Set Path} {I : T → Prop} {t : T} {d₀ d₀' d d' : Disk}
variable {base : Path} {tag label : String} {K : Set String}

/-! ## Blobs -/

namespace EdgeBlob

variable [Serde Id] {path : Path} {edges : List (Id × Id)}

theorem twin_write {Q : Unit → T → Disk → Disk → Prop}
    {C : Stop DurabilityError → T → Disk → Disk → Prop}
    (h : Kept F W d₀ d₀' d d') (hW : blobWrites path ⊆ W)
    (hOk : ∀ e e', Kept (insert path F) W d₀ d₀' e e' → Q () t e e')
    (hStop : ∀ x e e', Kept F W d₀ d₀' e e' → C x t e e') :
    twin (write tag edges path) t d d' Q C :=
  twin_bind (twin_ofExcept (fun _ _ => RecordBlob.twin_write h hW hOk hStop) fun _ _ =>
    hStop _ _ _ h)

theorem alike_write (hW : blobWrites path ⊆ W) :
    Alike F W I (fun _ => True) (write tag edges path : Method T DurabilityError Unit) :=
  Alike.bind (P := fun _ => True) (alike_ofExcept fun _ _ => trivial) fun image _ =>
    RecordBlob.alike_write image hW

end EdgeBlob

namespace LabelManifest

theorem decodeLabels_encode (manifest : Path) {labels : List String} {image : Bytes}
    (h : format.encode tag labels = .ok image) : decodeLabels tag manifest image = .ok labels := by
  unfold BlobFormat.encode at h
  split at h
  · cases h
  · next body hBody =>
    cases h
    have hHeader : (encodeTaggedImage MAGIC VERSION (RecordBlob.fnv1a64 body) tag []).length =
        TAGGED_HEADER_LEN :=
      length_encodeTaggedImage format.length_magic ..
    have hDrop : (format.image tag body).drop TAGGED_HEADER_LEN = body := by
      rw [← hHeader]
      show (encodeTaggedImage MAGIC VERSION (RecordBlob.fnv1a64 body) tag body).drop _ = body
      rw [encodeTaggedImage, encodeTaggedImage, List.append_nil, List.drop_left]
    have hParse : parseTaggedHeader (format.image tag body) MAGIC VERSION tag =
        .ok (RecordBlob.fnv1a64 body) :=
      parseTaggedHeader_encode format.length_magic ..
    unfold decodeLabels
    rw [hParse, hDrop]
    simp [Codec.decode_eq_some.mpr hBody]

/-- The manifest is read on two disks on which it is the same. -/
theorem twin_read {Q : List String → T → Disk → Disk → Prop}
    {C : Stop DurabilityError → T → Disk → Disk → Prop} (hSame : d' (path base) = d (path base))
    (hOk : ∀ labels, listed tag (path base) (d (path base)) = .ok labels → Q labels t d d')
    (hStop : ∀ x, C x t d d') : twin (read base tag) t d d' Q C := by
  refine twin_bind (twin_call (by rw [hSame]) (fun file hFile => ?_) nofun fun _ _ => hStop _)
  obtain rfl : d (path base) = file := by injection hFile
  split
  · next hNone => exact twin_pure (hOk [] (by rw [hNone]; rfl))
  · next bytes hBytes =>
    exact twin_ofExcept (fun labels hLabels => hOk labels (by rw [hBytes]; exact hLabels))
      fun _ _ => hStop _

/-- The manifest is written on two disks. -/
theorem twin_write {labels : List String} {Q : Unit → T → Disk → Disk → Prop}
    {C : Stop DurabilityError → T → Disk → Disk → Prop} (h : Kept F W d₀ d₀' d d')
    (hW : blobWrites (path base) ⊆ W)
    (hOk : ∀ e e', Kept (insert (path base) F) W d₀ d₀' e e' →
      listed tag (path base) (e (path base)) = .ok labels → Q () t e e')
    (hStop : ∀ x e e', Kept F W d₀ d₀' e e' → e (path base) = d (path base) → C x t e e') :
    twin (write base tag labels) t d d' Q C := by
  refine twin_bind (twin_ofExcept (fun image hEncoded => ?_) fun _ _ => hStop _ _ _ h rfl)
  have hTwin : twin (RecordBlob.write image (path base) : Method T DurabilityError Unit) t d d'
      (fun _ s e e' => s = t ∧ Kept (insert (path base) F) W d₀ d₀' e e')
      (fun _ s e e' => s = t ∧ Kept F W d₀ d₀' e e') :=
    RecordBlob.twin_write h hW (fun _ _ hE => ⟨rfl, hE⟩) fun _ _ _ hE => ⟨rfl, hE⟩
  have hFile : wp (RecordBlob.write image (path base) : Method T DurabilityError Unit) t d
      (fun _ _ e => e (path base) = some image) (fun _ _ e => e (path base) = d (path base))
      (fun _ _ e => e (path base) = d (path base)) :=
    RecordBlob.wp_write (fun _ hImage _ _ => hImage) fun _ _ hSame =>
      hSame _ (RecordBlob.tempPath_ne _).symm
  refine (hTwin.left hFile).mono (fun _ s e e' ⟨⟨hS, hE⟩, hImage⟩ => ?_)
    fun x s e e' ⟨⟨hS, hE⟩, hOld⟩ => ?_
  · rw [hS]
    refine hOk e e' hE ?_
    rw [hImage]
    exact decodeLabels_encode _ hEncoded
  · rw [hS]
    exact hStop x e e' hE (hOld.elim id id)

end LabelManifest

/-! ## The files of the labels that are known -/

/-- The blob and the log of a label. -/
def labelFiles (base : Path) (label : String) : Set Path :=
  {labeledEdgesPath base label, InsertLog.logPath (labeledEdgesPath base label)}

/-- The files of the store, and of the labels of `K`. -/
def labelledFiles (base : Path) (K : Set String) : Set Path :=
  GenericMmapStore.storeFiles base ∪ ⋃ label ∈ K, labelFiles base label

/-- What a call may write on a stack that knows the labels of `K`: any file but the manifest and the
logs of others. -/
def knownWrites (base : Path) (K : Set String) : Set Path :=
  {path | path ≠ LabelManifest.path base ∧
    ∀ label, label ∉ K → path ≠ InsertLog.logPath (labeledEdgesPath base label)}

section Paths

theorem endsIn_append (front ending : Path) {tail : Path} (n : Nat) (h : ending.drop n = tail) :
    EndsIn tail (front ++ ending) := by
  refine ⟨front ++ ending.take n, ?_⟩
  rw [← h, List.append_assoc, List.take_append_drop]

theorem labelFiles_subset (h : label ∈ K) : labelFiles base label ⊆ labelledFiles base K :=
  fun _ hPath => Or.inr (Set.mem_biUnion h hPath)

theorem blob_mem (h : label ∈ K) : labeledEdgesPath base label ∈ labelledFiles base K :=
  labelFiles_subset h (Or.inl rfl)

theorem log_mem (h : label ∈ K) :
    InsertLog.logPath (labeledEdgesPath base label) ∈ labelledFiles base K :=
  labelFiles_subset h (Or.inr rfl)

variable {path : Path}

theorem mem_knownWrites_of_end {tail : Path} (h : EndsIn tail path) (hLen : tail.length = 2)
    (hLog : tail ≠ ['t', 's']) (hManifest : tail ≠ ['n', 's']) : path ∈ knownWrites base K :=
  ⟨h.ne (endsIn_manifest base) hLen hManifest, fun _ _ => h.ne (endsIn_log _) hLen hLog⟩

theorem blobWrites_known (h : EndsIn ['e', 's'] path ∨ EndsIn ['d', 's'] path) :
    blobWrites path ⊆ knownWrites base K := by
  rintro other (rfl | rfl)
  · rcases h with h | h
    · exact mem_knownWrites_of_end h rfl (by decide) (by decide)
    · exact mem_knownWrites_of_end h rfl (by decide) (by decide)
  · exact mem_knownWrites_of_end (endsIn_temp path) rfl (by decide) (by decide)

theorem upgrade_known (log : Path) : log ++ InsertLog.UPGRADE_SUFFIX ∈ knownWrites base K :=
  mem_knownWrites_of_end (endsIn_append log _ 6 rfl) rfl (by decide) (by decide)

theorem log_ne_manifest (log : Path) : InsertLog.logPath log ≠ LabelManifest.path base :=
  (endsIn_log log).ne (endsIn_manifest base) rfl (by decide)

theorem log_known (h : label ∈ K) :
    InsertLog.logPath (labeledEdgesPath base label) ∈ knownWrites base K := by
  refine ⟨log_ne_manifest _, fun other hOther hEq => ?_⟩
  obtain rfl := labeledEdgesPath_injective (logPath_injective hEq)
  exact hOther h

theorem logWrites_known (h : label ∈ K) :
    InsertLog.logWrites (InsertLog.logPath (labeledEdgesPath base label)) ⊆ knownWrites base K := by
  rintro other (rfl | rfl)
  · exact log_known h
  · exact upgrade_known _

theorem ne_labeledEdgesPath (base : Path) (label : String) :
    base ≠ labeledEdgesPath base label := by
  rw [labeledEdgesPath, List.append_assoc, List.append_assoc]
  exact (append_suffix_ne (by simp) base).symm

theorem ne_labelLog (base : Path) (label : String) :
    base ≠ InsertLog.logPath (labeledEdgesPath base label) := by
  rw [InsertLog.logPath, labeledEdgesPath, List.append_assoc, List.append_assoc, List.append_assoc]
  exact (append_suffix_ne (by simp) base).symm

theorem storeWrites_known : GenericMmapStore.storeWrites base ⊆ knownWrites base K := by
  rintro path (((rfl | rfl) | (rfl | rfl)) | hBlob)
  · exact ⟨log_ne_manifest _,
      fun label _ hEq => ne_labeledEdgesPath base label (logPath_injective hEq)⟩
  · exact upgrade_known _
  · exact ⟨(append_suffix_ne (by decide) _).symm, fun label _ => ne_labelLog _ label⟩
  · exact mem_knownWrites_of_end (endsIn_append base _ 6 rfl) rfl (by decide) (by decide)
  · exact blobWrites_known (Or.inr (endsIn_append base _ 6 rfl)) hBlob

theorem shares (hF : labelledFiles base K ⊆ F) (hW : knownWrites base K ⊆ W) :
    GenericMmapStore.Shares base F W :=
  ⟨fun _ hPath => hF (Or.inl hPath), fun _ hPath => hW (storeWrites_known hPath)⟩

end Paths

/-! ## The layer -/

namespace MultiSymmetric

variable [DecidableEq Id] [StoredRecord R Id IV SV] [MmapFieldValue Id] [MmapFieldValue SV]
  [DecidableEq IV]
variable [Serde R] [Serde Id]

/-- A stack at `base` that has adjacencies for labels of `K` only. -/
structure Known (base : Path) (K : Set String) (s : ProductionStack R Id IV SV) : Prop where
  inner : GenericMmapStore.OfFile base s.inner
  basePath : s.basePath = some base
  labels : ∀ {label m}, s.adjacency.lookup label = some m → label ∈ K

section Known

variable {s : ProductionStack R Id IV SV}

omit [DecidableEq Id] [StoredRecord R Id IV SV] [MmapFieldValue Id] [MmapFieldValue SV]
  [DecidableEq IV] [Serde R] [Serde Id] in
theorem Known.mono {L : Set String} (h : Known base K s) (hSub : K ⊆ L) : Known base L s :=
  ⟨h.inner, h.basePath, fun hM => hSub (h.labels hM)⟩

omit [DecidableEq Id] [StoredRecord R Id IV SV] [MmapFieldValue Id] [MmapFieldValue SV]
  [DecidableEq IV] [Serde R] [Serde Id] in
theorem Known.setAdjacency (h : Known base K s) (hLabel : label ∈ K) (m : NeighborLists Id) :
    Known base K (setAdjacency label m s) := by
  refine ⟨h.inner, h.basePath, fun {other m'} hM => ?_⟩
  by_cases hOther : other = label
  · rw [hOther]
    exact hLabel
  · refine h.labels (m := m') ?_
    rwa [← AList.lookup_insert_ne hOther]

variable (hF : labelledFiles base K ⊆ F) (hW : knownWrites base K ⊆ W)

omit [DecidableEq Id] [StoredRecord R Id IV SV] [MmapFieldValue Id] [MmapFieldValue SV]
  [DecidableEq IV] [Serde R] [Serde Id] in
theorem alike_onInner {P : α → Prop} {m : Method (GenericMmapStore R Id IV SV) ε α}
    (h : Alike F W (GenericMmapStore.OfFile base) P m) : Alike F W (Known base K) P (onInner m) :=
  h.onPart (fun _ hS => hS.inner) fun _ _ hS hT => ⟨hT, hS.basePath, hS.labels⟩

omit [DecidableEq Id] [StoredRecord R Id IV SV] [MmapFieldValue Id] [MmapFieldValue SV]
  [DecidableEq IV] [Serde R] [Serde Id] in
theorem alike_setAdjacency (hLabel : label ∈ K) (m : NeighborLists Id) :
    Alike F W (Known base K) (fun _ => True)
    (modifySelf (MultiSymmetric.setAdjacency label m) : Method
      (ProductionStack R Id IV SV) ε Unit) :=
  alike_modifySelf fun _ hS => hS.setAdjacency hLabel m

include hF hW

omit [DecidableEq Id] [MmapFieldValue Id] [MmapFieldValue SV] [DecidableEq IV] [Serde R] in
theorem alike_logEdge (hLabel : label ∈ K) (entry : LogEntry (Id × Id) Id) :
    Alike F W (Known base K) (fun _ => True)
    (logEdge R label entry : Method (ProductionStack R Id IV SV) DurabilityError Unit) := by
  refine alike_self.bind fun s hS => ?_
  rw [hS.basePath]
  exact InsertLog.alike_append (hF (log_mem hLabel)) ((logWrites_known hLabel).trans hW) entry

omit [MmapFieldValue Id] [MmapFieldValue SV] [DecidableEq IV] [Serde R] in
theorem alike_linkEnds (relation : String) (a b : Id) : Alike F W (Known base K) (fun _ => True)
    (linkEnds R relation a b : Method (ProductionStack R Id IV SV) DurabilityError
      LinkOutcome) := by
  refine alike_self.bind fun s hS => ?_
  split
  · exact alike_panic
  · next m hLookup =>
    have hLabel := hS.labels hLookup
    split
    · exact alike_pure trivial
    · exact (alike_logEdge hF hW hLabel _).bind fun _ _ =>
        (alike_setAdjacency hLabel _).bind fun _ _ => alike_pure trivial

omit [MmapFieldValue Id] [MmapFieldValue SV] [DecidableEq IV] [Serde R] in
theorem alike_detachUnder (label : String) (key : Id) : Alike F W (Known base K) (fun _ => True)
    (detachUnder R label key : Method (ProductionStack R Id IV SV) (DeleteError Id) Nat) := by
  refine alike_self.bind fun s hS => ?_
  split
  · exact alike_fail _
  · next m hLookup =>
    have hLabel := hS.labels hLookup
    split
    · exact (alike_logEdge hF hW hLabel _).mapError.bind fun _ _ =>
        (alike_setAdjacency hLabel _).bind fun _ _ =>
        alike_pure trivial
    · exact alike_pure trivial

theorem alike_delete (key : Id) : Alike F W (Known base K) (fun _ => True)
    (delete key : Method (ProductionStack R Id IV SV) (DeleteError Id) Unit) := by
  refine (alike_onInner (GenericMmapStore.alike_delete (shares hF hW) key)).bind fun _ _ => ?_
  refine alike_self.bind fun s _ => Alike.forM s.adjacency.keys fun label _ => ?_
  exact (alike_detachUnder hF hW label key).bind fun _ _ => alike_pure trivial

end Known

end MultiSymmetric

section Compact

variable [LinearOrder Id] [StoredRecord R Id IV SV] [MmapFieldValue Id] [MmapFieldValue SV]
  [DecidableEq IV]
variable [Serde R] [Serde Id]

omit [StoredRecord R Id IV SV] [MmapFieldValue Id] [MmapFieldValue SV] [DecidableEq IV] [Serde R] in
theorem alike_compactEdgeBlob {adjacency : NeighborLists Id} (hLabel : label ∈ K)
    (hF : labelledFiles base K ⊆ F) (hW : knownWrites base K ⊆ W) : Alike F W I (fun _ => True)
      (compactEdgeBlob adjacency (labeledEdgesPath base label) tag : Method T
        DurabilityError Bool) := by
  have hBlob := hF (blob_mem hLabel)
  have hBlobW := (blobWrites_known (K := K) (Or.inl (endsIn_blob base label))).trans hW
  refine (InsertLog.alike_readEntries (hF (log_mem hLabel))).bind fun logged _ => ?_
  have hWrite (current : Bool) : Alike F W I (fun _ => True) (do
      if current then pure () else
        EdgeBlob.write tag (sortedEdges adjacency) (labeledEdgesPath base label)
      InsertLog.clear (InsertLog.logPath (labeledEdgesPath base label))
      return !logged.isEmpty : Method T DurabilityError Bool) := by
    have hClear : Alike F W I (fun _ => True) (do
        InsertLog.clear (InsertLog.logPath (labeledEdgesPath base label))
        return !logged.isEmpty : Method T DurabilityError Bool) :=
      (InsertLog.alike_clear (hF (log_mem hLabel)) (hW (log_known hLabel))).bind fun _ _ =>
        alike_pure trivial
    cases current with
    | true => exact hClear
    | false => exact (EdgeBlob.alike_write hBlobW).bind fun _ _ => hClear
  dsimp only
  split
  · exact (EdgeBlob.format.alike_isCurrentAt hBlob _).bind fun current _ => hWrite current
  · exact hWrite false

theorem MultiSymmetric.alike_compact (hF : labelledFiles base K ⊆ F) (hW : knownWrites base K ⊆ W) :
    Alike F W (Known base K) (fun _ => True)
      (compact : Method (ProductionStack R Id IV SV) DurabilityError CompactionReport) := by
  refine (alike_onInner (GenericMmapStore.alike_compact (shares hF hW))).bind fun report _ => ?_
  refine alike_self.bind fun s hS => ?_
  rw [hS.basePath]
  refine Alike.foldlM s.adjacency.entries report fun report e hMem => ?_
  have hLabel : e.1 ∈ K := hS.labels (AList.mem_lookup_iff.mpr hMem)
  exact (alike_compactEdgeBlob hLabel hF hW).bind fun _ _ => alike_pure trivial

end Compact

end MultimodalDb
