import MultimodalDb.Generic.InsertLogRules
import MultimodalDb.Lib.Calls
import MultimodalDb.Lib.NeighborLists
import Mathlib.Data.List.Sort
import Mathlib.Data.List.Destutter
import Mathlib.Data.Prod.Lex

/-!
# The files of an edge layer

The edges of one relation lie in two files: a blob with the list the layer was last built from, and
beside it a log of the edges added and the nodes dropped since. Opening folds the log into the list
(`mergeEdgeLists`): an edge that is there in either orientation is skipped, and a tombstone takes
every edge of its node. A layer with several relations also keeps a manifest, the labels it has a
blob for.

As sets of unordered pairs the fold is a fold of inserts and filters (`mergeEdgeLists_spec`), and a
log that is folded again changes nothing (`pairs_mergeEdgeLists_twice`).
-/

namespace MultimodalDb

open Bytes GenericRecordBlob NeighborLists

/-! ## Folding a log -/

section Merge

variable {Id : Type} [DecidableEq Id]

/-- Apply one logged entry to the edges and the pairs seen, each in both orientations. -/
def mergeEdge : List (Id × Id) × Finset (Id × Id) → LogEntry (Id × Id) Id →
    List (Id × Id) × Finset (Id × Id)
  | (edges, seen), .item e =>
    if e ∈ seen then (edges, seen) else (edges ++ [e], insert e.swap (insert e seen))
  | (edges, seen), .tombstone id =>
    let keep := fun e : Id × Id => decide (e.1 ≠ id ∧ e.2 ≠ id)
    let dropped := edges.filter (fun e => !keep e)
    (edges.filter keep, seen \ (dropped ++ dropped.map Prod.swap).toFinset)

def mergeEdgeLists (edges : List (Id × Id)) (logged : List (LogEntry (Id × Id) Id)) :
    List (Id × Id) :=
  if logged.isEmpty then edges
  else (logged.foldl mergeEdge (edges, (edges ++ edges.map Prod.swap).toFinset)).1

/-- The unordered pairs of a list. -/
def pairs (edges : List (Id × Id)) : Finset (Sym2 Id) := (edges.map (fun e => s(e.1, e.2))).toFinset

/-- What a logged entry does to a set of edges. -/
def applyEdge (E : Finset (Sym2 Id)) : LogEntry (Id × Id) Id → Finset (Sym2 Id)
  | .item e => insert s(e.1, e.2) E
  | .tombstone id => E.filter (id ∉ ·)

theorem mem_pairs {edges : List (Id × Id)} {a b : Id} :
    s(a, b) ∈ pairs edges ↔ (a, b) ∈ edges ∨ (b, a) ∈ edges := by
  simp only [pairs, List.mem_toFinset, List.mem_map, Prod.exists, Sym2.eq_iff]
  constructor
  · rintro ⟨x, y, hMem, ⟨rfl, rfl⟩ | ⟨rfl, rfl⟩⟩
    · exact Or.inl hMem
    · exact Or.inr hMem
  · rintro (hMem | hMem)
    · exact ⟨a, b, hMem, Or.inl ⟨rfl, rfl⟩⟩
    · exact ⟨b, a, hMem, Or.inr ⟨rfl, rfl⟩⟩

/-- The pairs seen are those of the list, in both orientations. -/
def Tracks (edges : List (Id × Id)) (seen : Finset (Id × Id)) : Prop :=
  ∀ a b, (a, b) ∈ seen ↔ s(a, b) ∈ pairs edges

theorem tracks_start (edges : List (Id × Id)) :
    Tracks edges (edges ++ edges.map Prod.swap).toFinset := by
  intro a b
  rw [mem_pairs]
  simp

theorem pairs_snoc (edges : List (Id × Id)) (e : Id × Id) :
    pairs (edges ++ [e]) = insert s(e.1, e.2) (pairs edges) := by
  ext p
  simp [pairs]

theorem pairs_filter (edges : List (Id × Id)) (id : Id) :
    pairs (edges.filter fun e => decide (e.1 ≠ id ∧ e.2 ≠ id)) = (pairs edges).filter (id ∉ ·) := by
  ext p
  induction p with
  | _ a b =>
    simp only [mem_pairs, List.mem_filter, Finset.mem_filter, Sym2.mem_iff, decide_eq_true_eq]
    constructor
    · rintro (⟨hMem, hA, hB⟩ | ⟨hMem, hB, hA⟩)
      · exact ⟨Or.inl hMem, fun h => h.elim (hA ·.symm) (hB ·.symm)⟩
      · exact ⟨Or.inr hMem, fun h => h.elim (hA ·.symm) (hB ·.symm)⟩
    · rintro ⟨hMem | hMem, hNot⟩
      · exact Or.inl ⟨hMem, fun h => hNot (Or.inl h.symm), fun h => hNot (Or.inr h.symm)⟩
      · exact Or.inr ⟨hMem, fun h => hNot (Or.inr h.symm), fun h => hNot (Or.inl h.symm)⟩

/-- **One entry.** The pairs change as the entry says, and none comes twice. -/
theorem mergeEdge_step {edges : List (Id × Id)} {seen : Finset (Id × Id)}
    (hTracks : Tracks edges seen) (entry : LogEntry (Id × Id) Id) :
    Tracks (mergeEdge (edges, seen) entry).1 (mergeEdge (edges, seen) entry).2 ∧
      pairs (mergeEdge (edges, seen) entry).1 = applyEdge (pairs edges) entry ∧
      ((edges.map fun e => s(e.1, e.2)).Nodup →
        ((mergeEdge (edges, seen) entry).1.map fun e => s(e.1, e.2)).Nodup) := by
  cases entry with
  | item e =>
    obtain ⟨a, b⟩ := e
    unfold mergeEdge applyEdge
    dsimp only
    split
    · next hSeen =>
      rw [hTracks] at hSeen
      exact ⟨hTracks, (Finset.insert_eq_of_mem hSeen).symm, id⟩
    · next hNew =>
      have hFresh : s(a, b) ∉ pairs edges := fun h => hNew ((hTracks a b).mpr h)
      refine ⟨fun x y => ?_, pairs_snoc edges (a, b), fun hNodup => ?_⟩
      · rw [pairs_snoc, Finset.mem_insert, Finset.mem_insert, Finset.mem_insert, hTracks,
          Sym2.eq_iff]
        simp only [Prod.swap_prod_mk, Prod.mk.injEq]
        tauto
      · rw [List.map_append, List.nodup_append]
        refine ⟨hNodup, List.nodup_singleton _, fun p hp q hq hEq => hFresh ?_⟩
        rw [List.map_singleton, List.mem_singleton] at hq
        rw [pairs, List.mem_toFinset, ← hq, ← hEq]
        exact hp
  | tombstone id =>
    refine ⟨fun x y => ?_, pairs_filter edges id, fun hNodup =>
      hNodup.sublist (List.filter_sublist.map _)⟩
    show (x, y) ∈ _ \ _ ↔ s(x, y) ∈ pairs (edges.filter _)
    rw [pairs_filter, Finset.mem_sdiff, hTracks, Finset.mem_filter, Sym2.mem_iff]
    refine and_congr_right fun hMem => not_congr ?_
    rw [mem_pairs] at hMem
    simp only [List.mem_toFinset, List.mem_append, List.mem_filter, List.mem_map, Prod.exists,
      Prod.swap_prod_mk, Prod.mk.injEq, Bool.not_eq_true', decide_eq_false_iff_not]
    constructor
    · rintro (⟨-, hEnd⟩ | ⟨u, v, ⟨-, hEnd⟩, rfl, rfl⟩)
      · by_contra hNot
        exact hEnd ⟨fun h => hNot (Or.inl h.symm), fun h => hNot (Or.inr h.symm)⟩
      · by_contra hNot
        exact hEnd ⟨fun h => hNot (Or.inr h.symm), fun h => hNot (Or.inl h.symm)⟩
    · intro hEnd
      have hEnds : ¬ (x ≠ id ∧ y ≠ id) := fun h => hEnd.elim (h.1 ·.symm) (h.2 ·.symm)
      rcases hMem with hMem | hMem
      · exact Or.inl ⟨hMem, hEnds⟩
      · exact Or.inr ⟨y, x, ⟨hMem, fun h => hEnds ⟨h.2, h.1⟩⟩, rfl, rfl⟩

/-- **Folding a log.** As sets of pairs, every entry is applied in log order. A list that has no
pair twice stays one. -/
theorem mergeEdgeLists_spec (edges : List (Id × Id)) (logged : List (LogEntry (Id × Id) Id)) :
    pairs (mergeEdgeLists edges logged) = logged.foldl applyEdge (pairs edges) ∧
      ((edges.map fun e => s(e.1, e.2)).Nodup →
        ((mergeEdgeLists edges logged).map fun e => s(e.1, e.2)).Nodup) := by
  have hFold : ∀ (logged : List (LogEntry (Id × Id) Id)) (edges : List (Id × Id))
      (seen : Finset (Id × Id)), Tracks edges seen →
      pairs (logged.foldl mergeEdge (edges, seen)).1 = logged.foldl applyEdge (pairs edges) ∧
        ((edges.map fun e => s(e.1, e.2)).Nodup →
          ((logged.foldl mergeEdge (edges, seen)).1.map fun e => s(e.1, e.2)).Nodup) := by
    intro logged
    induction logged with
    | nil => exact fun edges seen _ => ⟨rfl, id⟩
    | cons entry logged ih =>
      intro edges seen hTracks
      obtain ⟨hTracked, hPairs, hNodup⟩ := mergeEdge_step hTracks entry
      obtain ⟨hRest, hRestNodup⟩ := ih _ _ hTracked
      rw [hPairs] at hRest
      exact ⟨hRest, fun h => hRestNodup (hNodup h)⟩
  unfold mergeEdgeLists
  split
  · next hEmpty =>
    rw [List.isEmpty_iff] at hEmpty
    rw [hEmpty]
    exact ⟨rfl, id⟩
  · exact hFold logged edges _ (tracks_start edges)

/-- The last entry about a pair decides on it, and without one it stays as it was. -/
theorem foldl_applyEdge_cases (logged : List (LogEntry (Id × Id) Id)) (pair : Sym2 Id) :
    (∀ E, pair ∈ logged.foldl applyEdge E ↔ pair ∈ E) ∨
      (∀ E, pair ∈ logged.foldl applyEdge E) ∨ ∀ E, pair ∉ logged.foldl applyEdge E := by
  induction logged with
  | nil => exact Or.inl fun _ => Iff.rfl
  | cons entry logged ih =>
    rcases ih with hSame | hIn | hOut
    · cases entry with
      | item e =>
        by_cases hPair : pair = s(e.1, e.2)
        · exact Or.inr (Or.inl fun E => (hSame _).mpr (Finset.mem_insert.mpr (Or.inl hPair)))
        · refine Or.inl fun E => (hSame _).trans ?_
          rw [applyEdge, Finset.mem_insert, or_iff_right hPair]
      | tombstone id =>
        by_cases hEnd : id ∈ pair
        · exact Or.inr (Or.inr fun E h => (Finset.mem_filter.mp ((hSame _).mp h)).2 hEnd)
        · refine Or.inl fun E => (hSame _).trans ?_
          rw [applyEdge, Finset.mem_filter, and_iff_left hEnd]
    · exact Or.inr (Or.inl fun E => hIn _)
    · exact Or.inr (Or.inr fun E => hOut _)

/-- **Folding a log again** leaves the pairs as they are. -/
theorem pairs_mergeEdgeLists_twice (edges : List (Id × Id))
    (logged : List (LogEntry (Id × Id) Id)) :
    pairs (mergeEdgeLists (mergeEdgeLists edges logged) logged) =
      pairs (mergeEdgeLists edges logged) := by
  rw [(mergeEdgeLists_spec _ logged).1, (mergeEdgeLists_spec edges logged).1]
  ext pair
  rcases foldl_applyEdge_cases logged pair with hSame | hIn | hOut
  · exact hSame _
  · exact iff_of_true (hIn _) (hIn _)
  · exact iff_of_false (hOut _) (hOut _)

end Merge

/-! ## The list a compaction writes -/

section Sorted

variable {Id : Type} [LinearOrder Id]

/-- Each edge once, the smaller end first, sorted. -/
def sortedEdges (adjacency : NeighborLists Id) : List (Id × Id) :=
  let edges := adjacency.entries.flatMap (fun e => (e.2.filter (e.1 ≤ ·)).map (fun b => (e.1, b)))
  (edges.insertionSort (fun x y => toLex x ≤ toLex y)).destutter (· ≠ ·)

end Sorted

/-! ## Paths -/

def EDGES_SUFFIX : List Char := ".edges".toList

/-- Where the relation `label` of the layer at `base` keeps its blob. -/
def labeledEdgesPath (base : Path) (label : String) : Path :=
  base ++ ['.'] ++ label.toList ++ EDGES_SUFFIX

/-! ## The edge blob -/

namespace EdgeBlob

def MAGIC : Bytes := "GENEDGE".toUTF8.data.toList ++ [0]

def BLOB_VERSION : UInt32 := 2

def format : BlobFormat := ⟨MAGIC, BLOB_VERSION, by decide⟩

section Operations

variable {S Id : Type} [Serde Id]

/-- `EdgeBlob::new(edges, tag).encode()?.write(path)`. -/
def write (tag : String) (edges : List (Id × Id)) (path : Path) :
    Method S DurabilityError Unit := do
  let image ← Method.ofExcept (format.encode tag edges)
  RecordBlob.write image path

def isCurrentAt (tag : String) (edges : List (Id × Id)) (path : Path) :
    Method S DurabilityError Bool :=
  format.isCurrentAt tag edges path

def read (tag : String) (path : Path) : Method S DurabilityError (List (Id × Id)) :=
  format.read tag path

end Operations

end EdgeBlob

/-- Rewrite one edge blob from its adjacency when its log holds anything or the blob is stale, then
remove the log. Whether a log was folded. -/
def compactEdgeBlob {S Id : Type} [Serde Id] [LinearOrder Id] (adjacency : NeighborLists Id)
    (blobPath : Path) (tag : String) : Method S DurabilityError Bool := do
  let log := InsertLog.logPath blobPath
  let logged : List (LogEntry (Id × Id) Id) ← InsertLog.readEntries log tag
  let edges := sortedEdges adjacency
  let current ← if logged.isEmpty then EdgeBlob.isCurrentAt tag edges blobPath else pure false
  if current then pure () else EdgeBlob.write tag edges blobPath
  InsertLog.clear log
  return !logged.isEmpty

/-! ## The label manifest -/

namespace LabelManifest

def MAGIC : Bytes := "GENLABL".toUTF8.data.toList ++ [0]

def VERSION : UInt32 := 1

def format : BlobFormat := ⟨MAGIC, VERSION, by decide⟩

def MANIFEST_SUFFIX : List Char := ".relations".toList

def path (base : Path) : Path := base ++ MANIFEST_SUFFIX

/-- What a manifest's bytes hold. Its fingerprint error does not say the two hashes. -/
def decodeLabels (tag : String) (manifest : Path) (bytes : Bytes) :
    Except DurabilityError (List String) :=
  match parseTaggedHeader bytes MAGIC VERSION tag with
  | .error cause => .error (.recordBlobUnreadable manifest cause)
  | .ok claimed =>
    let body := bytes.drop TAGGED_HEADER_LEN
    if RecordBlob.fnv1a64 body ≠ claimed then
      .error (.recordBlobUnreadable manifest .labelsFingerprintMismatch)
    else
      match Codec.decode body with
      | none => .error (.recordBlobUnreadable manifest .bodyDoesNotDecode)
      | some labels => .ok labels

variable {S : Type}

/-- The labels there is a blob for. A missing manifest names none. -/
def read (base : Path) (tag : String) : Method S DurabilityError (List String) := do
  let file ← Method.readIfPresent .io (path base)
  match file with
  | none => return []
  | some bytes => Method.ofExcept (decodeLabels tag (path base) bytes)

def write (base : Path) (tag : String) (labels : List String) : Method S DurabilityError Unit := do
  let image ← Method.ofExcept (format.encode tag labels)
  RecordBlob.write image (path base)

end LabelManifest

/-! ## Footprints -/

section Footprints

open Method

variable {S Id : Type} [Serde Id] {F : Set Path} {tag : String} {path : Path}

theorem RecordBlob.touches_write {image : Bytes} (hPath : path ∈ F)
    (hTemp : RecordBlob.tempPath path ∈ F) :
    Touches F (RecordBlob.write image path : Method S DurabilityError Unit) :=
  (touches_createFile hTemp).bind fun _ => (touches_appendAll hTemp _).bind fun _ =>
    touches_sync.bind fun _ => touches_rename hTemp hPath

/-- The files of one blob and its log, and where they are staged. -/
def blobFiles (path : Path) : Set Path :=
  {path, RecordBlob.tempPath path, InsertLog.logPath path,
    InsertLog.logPath path ++ InsertLog.UPGRADE_SUFFIX}

theorem InsertLog.touches_readEntries {T K : Type} [Serde T] [Serde K] {log : Path} :
    Touches F (readEntries log tag : Method S DurabilityError (List (LogEntry T K))) := by
  refine Touches.bind (touches_readIfPresent.bind fun file => ?_) fun _ => touches_ofExcept F _
  cases file with
  | none => exact touches_pure F _
  | some bytes =>
    refine Touches.bind (touches_readIfPresent.bind fun _ => touches_pure F _) fun declared => ?_
    dsimp only
    split
    · exact touches_fail F _
    · exact touches_pure F _

theorem InsertLog.touches_append {T K : Type} [Serde T] [Serde K] {log : Path}
    (entry : LogEntry T K) (hLog : log ∈ F) (hUpgrade : log ++ InsertLog.UPGRADE_SUFFIX ∈ F) :
    Touches F (append log tag entry : Method S DurabilityError Unit) := by
  have hEntry (kind : UInt8) (payload : Bytes) :
      Touches F (appendEntry log tag kind payload : Method S DurabilityError Unit) := by
    unfold appendEntry
    split
    · refine Touches.bind ?_ fun _ => (touches_openOrCreate hLog).bind fun _ =>
        touches_fileLen.bind fun _ =>
        (touches_appendAll hLog _).bind fun _ => touches_sync
      refine Touches.bind (touches_readIfPresent.bind fun _ => touches_pure F _) fun version => ?_
      split
      · refine touches_readFile.bind fun bytes => ?_
        split
        · exact touches_fail F _
        · exact (touches_createFile hUpgrade).bind fun _ =>
            (touches_appendAll hUpgrade _).bind fun _ =>
            touches_openFile.bind fun _ => touches_sync.bind fun _ => touches_rename hUpgrade hLog
      · exact touches_pure F _
    · exact touches_fail F _
  cases entry with
  | item value =>
    show Touches F (match Codec.encode value with | none => _ | some payload => _)
    split
    · exact touches_fail F _
    · exact hEntry _ _
  | tombstone key =>
    show Touches F (match Codec.encode key with | none => _ | some payload => _)
    split
    · exact touches_fail F _
    · exact hEntry _ _

theorem EdgeBlob.touches_write {edges : List (Id × Id)} (hPath : path ∈ F)
    (hTemp : RecordBlob.tempPath path ∈ F) :
    Touches F (EdgeBlob.write tag edges path : Method S DurabilityError Unit) :=
  (touches_ofExcept F _).bind fun _ => RecordBlob.touches_write hPath hTemp

theorem BlobFormat.touches_isCurrentAt {R : Type} [Serde R] (B : BlobFormat) {records : List R} :
    Touches F (B.isCurrentAt tag records path : Method S DurabilityError Bool) :=
  Touches.bind (touches_openFile.bind fun _ => touches_readExact).attempt fun _ => touches_pure F _

theorem LabelManifest.touches_read {base : Path} :
    Touches F (LabelManifest.read base tag : Method S DurabilityError (List String)) := by
  refine touches_readIfPresent.bind fun file => ?_
  cases file with
  | none => exact touches_pure F _
  | some bytes => exact touches_ofExcept F _

theorem LabelManifest.touches_write {base : Path} {labels : List String}
    (hPath : LabelManifest.path base ∈ F)
    (hTemp : RecordBlob.tempPath (LabelManifest.path base) ∈ F) :
    Touches F (LabelManifest.write base tag labels : Method S DurabilityError Unit) :=
  (touches_ofExcept F _).bind fun _ => RecordBlob.touches_write hPath hTemp

end Footprints

end MultimodalDb
