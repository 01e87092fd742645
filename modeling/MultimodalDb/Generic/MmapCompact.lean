import MultimodalDb.Generic.MmapAnswers

/-!
# Creating, compacting, reopening

The rules for the operations that build files. A fresh slot file holds its records in order
(`reconciled_fresh`), so a created store answers with the records it was given. A compaction first
installs a blob that holds the view as records, and whatever stops it after that, the files are
those of the same answers: the old slots or the new, the old log or none (`CutBehindBlob`).
-/

namespace MultimodalDb

open StoredRecord hiding id
open StoredRecord renaming id → idOf
open SlotFile (LastCommitted Unclaimed image COMMITTED Shows)

namespace GenericMmapStore

variable {R Id IV SV : Type} [StoredRecord R Id IV SV] {records : List R}

section Blob

variable [Serde R] {path : Path} {d d' : Disk}

/-- The blob at `path` is the image of these records. -/
def BlobOf (path : Path) (records : List R) (d : Disk) : Prop :=
  ∃ body, Codec.encode records = some body ∧
    d (GenericRecordBlob.blobPath path) = some (GenericRecordBlob.image (SCHEMA_TAG R) body)

theorem BlobOf.of_same (h : BlobOf path records d)
    (hSame : d' (GenericRecordBlob.blobPath path) = d (GenericRecordBlob.blobPath path)) :
    BlobOf path records d' := by
  unfold BlobOf
  rwa [hSame]

end Blob

variable [DecidableEq Id]

/-- The slots of a file built from these records. -/
def freshSlots (records : List R) : List (Slot Id SV) := (slotPairs records).map .commit

/-- A fresh file is its records, each in its place. -/
theorem reconciled_fresh (hIds : DistinctIds records) :
    Reconciled records [] (freshSlots records) (placesFrom 0 records) := by
  have hPlaces := places_placesFrom hIds
  have hPairs : (slotPairs records).map Prod.fst = records.map (idOf : R → Id) := by
    simp [slotPairs, Function.comp_def]
  have hLast : ∀ i record, records[i]? = some record →
      LastCommitted (freshSlots records) (idOf record) i (scannableValue record) := by
    intro i record hi
    have h := SlotFile.lastCommitted_append ([] : List (Slot Id SV))
      (by rw [hPairs]; exact hIds : ((slotPairs records).map Prod.fst).Nodup)
      (by rw [slotPairs, List.getElem?_map, hi]; rfl : (slotPairs records)[i]? = some _)
    rwa [List.nil_append, List.length_nil, Nat.zero_add] at h
  refine ⟨fun k => ?_, fun k p h => ?_, fun k p v h => ?_, fun record hRecord _ => ?_,
    fun q t ht hMark hPos => ?_⟩
  · rw [← AList.lookup_isSome, Option.isSome_iff_exists]
    constructor
    · rintro ⟨p, hp⟩
      have h := (hPlaces k p).mp hp
      rw [← List.getElem?_map] at h
      exact List.mem_of_getElem? h
    · intro hMem
      obtain ⟨i, hi⟩ := List.mem_iff_getElem?.mp hMem
      rw [List.getElem?_map] at hi
      exact ⟨i, (hPlaces k i).mpr hi⟩
  · obtain ⟨record, hRecord, rfl⟩ := Option.map_eq_some_iff.mp ((hPlaces k p).mp h)
    exact ⟨_, hLast p record hRecord⟩
  · cases h.1
  · obtain ⟨i, hi⟩ := List.mem_iff_getElem?.mp hRecord
    exact ⟨i, hLast i record hi⟩
  · rw [freshSlots, slotPairs, List.map_map, List.getElem?_map] at ht
    obtain ⟨record, hRecord, rfl⟩ := Option.map_eq_some_iff.mp ht
    exact (hPos ((hPlaces _ q).mpr (by rw [hRecord]; rfl))).elim

variable [MmapFieldValue Id] [MmapFieldValue SV] [DecidableEq IV] {path : Path}

/-- The maps of a compacted store over its new slots. -/
theorem rep_compacted {s s' : GenericMmapStore R Id IV SV} {slots : List (Slot Id SV)}
    (h : Rep s path slots) (hIds : DistinctIds records) (hView : contents records = view s)
    (hFile : s'.file = ⟨⟨image (freshSlots records) [], some path⟩, path⟩)
    (hRecords : s'.records = s.records) (hIndex : s'.index = s.index)
    (hPositions : ∀ k, s'.positionIndex.lookup k = (placesFrom 0 records).lookup k) :
    Rep s' path (freshSlots records) ∧ view s' = view s := by
  have hRec := reconciled_fresh hIds
  have hKeys : ∀ k, k ∈ s.records ↔ k ∈ records.map idOf := fun k => by
    rw [← not_iff_not, ← AList.lookup_eq_none, ← h.view_eq_none_iff, ← hView, contents_eq_none_iff]
  have hRep : Rep s' path (freshSlots records) := by
    refine ⟨hFile, fun k => ?_, ?_, ?_, ?_⟩
    · have hMem : k ∈ s'.positionIndex ↔ k ∈ placesFrom 0 records := by
        rw [← AList.lookup_isSome, hPositions, AList.lookup_isSome]
      rw [hRecords, hMem, hRec.keys, hKeys]
    · rw [hRecords]
      exact h.ids
    · simp only [hPositions]
      exact hRec.last
    · rw [hRecords, hIndex]
      exact h.buckets
  refine ⟨hRep, ?_⟩
  funext k
  cases hk : s.records.lookup k with
  | none => rw [view_none hk, view_none (by rw [hRecords, hk])]
  | some record =>
    obtain ⟨p, v, hAt⟩ := h.exists_at hk
    obtain ⟨q, w, hAt'⟩ := hRep.exists_at (hRecords ▸ hk)
    -- the blob has the record with its slot's value, and the new slot has that value
    have hHeld : contents records k = some (shape record v) := by rw [hView, h.view_at hAt]
    obtain ⟨hMem, hId⟩ := (contents_eq_some_iff hIds).mp hHeld
    obtain ⟨i, hNew⟩ := hRec.new _ hMem (fun t ht => nomatch ht)
    rw [hId] at hNew
    rw [h.view_at hAt, hRep.view_at hAt', (hAt'.2.2.unique hNew).2, scannableValue_shape]

variable [Serde R] [Serde Id] {d : Disk}

/-! ## Create -/

/-- **A created store** answers with its records, and so do its files. -/
theorem wp_create {S : Type} {s₀ : S} (hIds : DistinctIds records) :
    Method.wp (create records path) s₀ d
      (fun s _ d' => Session path [] (freshSlots records) s d' ∧ s.records = recordMap records ∧
        view s = contents records ∧ (∀ q, ¬ Stray s (freshSlots records) q) ∧
          BlobOf path records d')
      (fun _ _ _ => True) (fun _ _ _ => True) := by
  obtain ⟨hPathBlob, hPathTemp, hLogBlob, hLogTemp⟩ := blob_write_frame path
  refine Method.wp_bind (Method.wp_ofExcept (fun encoded hEncoded => ?_) fun _ _ => trivial)
  unfold GenericRecordBlob.encode at hEncoded
  split at hEncoded
  · cases hEncoded
  · next body hBody =>
    cases hEncoded
    refine Method.wp_bind (InsertLog.wp_clear ?_ fun _ => trivial)
    refine Method.wp_bind (SlotFile.wp_create (fun f d₁ hShows hAgree => ?_) fun _ _ _ => trivial)
    refine Method.wp_bind (RecordBlob.wp_write (fun d₂ hWritten _ hFrame => Method.wp_pure ?_)
      fun _ _ _ => trivial)
    have hRec := reconciled_fresh hIds
    have hRep : Rep ⟨recordMap records, buildIndex records, placesFrom 0 records, f⟩ path
        (freshSlots records) := rep_of_reconciled hIds hRec hShows.1
    refine ⟨⟨hRep, ?_, ?_⟩, rfl, ?_, ?_, ⟨body, hBody, hWritten⟩⟩
    · rw [hFrame _ hPathBlob hPathTemp]
      exact hShows.2
    · rw [hFrame _ hLogBlob hLogTemp, hAgree _ (by simpa using logPath_ne path),
        Function.update_self]
      exact InsertLog.holds_none _
    · funext k
      exact (recovers_of_reconciled hIds hRec rfl hRep k).2 fun t ht => (List.not_mem_nil ht).elim
    · rintro q ⟨t, ht, hMark, hPos⟩
      exact absurd (hRec.strays q t ht hMark hPos).1 (by simp)

/-! ## Compact -/

section Compact

variable {s : GenericMmapStore R Id IV SV} {slots : List (Slot Id SV)} {L : List (LogEntry R Id)}

/-- The files that the write of a blob changes. -/
def blobWrites (path : Path) : List Path :=
  [GenericRecordBlob.blobPath path, RecordBlob.tempPath (GenericRecordBlob.blobPath path)]

omit [StoredRecord R Id IV SV] [DecidableEq Id] [MmapFieldValue Id] [MmapFieldValue SV]
  [DecidableEq IV] [Serde R] [Serde Id] in
theorem not_mem_blobWrites (path : Path) :
    path ∉ blobWrites path ∧ InsertLog.logPath path ∉ blobWrites path := by
  obtain ⟨hPathBlob, hPathTemp, hLogBlob, hLogTemp⟩ := blob_write_frame path
  simp [blobWrites, hPathBlob, hPathTemp, hLogBlob, hLogTemp]

/-- The first step of a compaction installs a blob that holds the view. -/
theorem wp_compactBlob_reads {Q : List R × Nat × Nat → GenericMmapStore R Id IV SV → Disk → Prop}
    {A C : Stop DurabilityError → GenericMmapStore R Id IV SV → Disk → Prop} (h : Rep s path slots)
    (hLog : InsertLog.Reads (SCHEMA_TAG R) L (d (InsertLog.logPath path)))
    (hOk : ∀ records d', orderedRecords s = .ok records → DistinctIds records →
      contents records = view s → records.length ≤ slots.length → Disk.AgreeOff
    (blobWrites path) d d' →
      BlobOf path records d' → Q (records, slots.length, L.length) s d')
    (hSerde : A (.error .serde) s d)
    (hStop : ∀ e d', Disk.AgreeOff (blobWrites path) d d' → C e s d') :
    Method.wp compactBlob s d Q A C := by
  obtain ⟨records, hRecords, hIds, hView, hLen⟩ := orderedRecords_spec h
  refine Method.wp_bind (Method.wp_self ?_)
  have hLogPath : InsertLog.logPath s.file.path = InsertLog.logPath path := by rw [h.file]
  refine Method.wp_bind ?_
  rw [hLogPath]
  refine InsertLog.wp_readEntries_reads hLog ?_ fun e => hStop e d (.refl _ d)
  refine Method.wp_bind (Method.wp_checked (fun found hFound => ?_) fun e hPanic =>
    nomatch hRecords.symm.trans hPanic)
  obtain rfl : records = found := Except.ok.inj (hRecords.symm.trans hFound)
  have hCount : SlotFile.slotCount s.file = .ok slots.length := by
    rw [h.file, SlotFile.slotCount_image slots [] _ _ (SlotFile.slotWidth_pos Id SV)]
  refine Method.wp_bind (Method.wp_checked (fun count hFoundCount => ?_) fun e hPanic =>
    nomatch hCount.symm.trans hPanic)
  obtain rfl : slots.length = count := Except.ok.inj (hCount.symm.trans hFoundCount)
  have hBlob : GenericRecordBlob.blobPath s.file.path = GenericRecordBlob.blobPath path := by
    rw [h.file]
  refine Method.wp_bind (Method.wp_ofExcept (fun encoded hEncoded => ?_) (fun e hError => ?_))
  · unfold GenericRecordBlob.encode at hEncoded
    split at hEncoded
    · cases hEncoded
    · next body hBody =>
      cases hEncoded
      rw [hBlob]
      refine Method.wp_bind (RecordBlob.wp_write (fun d' hWritten _ hFrame => Method.wp_pure ?_)
        fun e d' hFrame => hStop e d' fun p hp => ?_)
      · refine hOk records d' hRecords hIds hView hLen (fun p hp => ?_) ⟨body, hBody, hWritten⟩
        simp only [blobWrites, List.mem_cons, List.not_mem_nil, or_false, not_or] at hp
        exact hFrame p hp.1 hp.2
      · simp only [blobWrites, List.mem_cons, List.not_mem_nil, or_false, not_or] at hp
        exact hFrame p hp.2
  · unfold GenericRecordBlob.encode at hError
    split at hError
    · cases hError
      exact hSerde
    · cases hError

theorem wp_compactBlob {Q : List R × Nat × Nat → GenericMmapStore R Id IV SV → Disk → Prop}
    {A C : Stop DurabilityError → GenericMmapStore R Id IV SV → Disk → Prop}
    (h : Session path L slots s d)
    (hOk : ∀ records d', orderedRecords s = .ok records → DistinctIds records →
      contents records = view s → records.length ≤ slots.length → Session path L slots s d' →
      BlobOf path records d' → Q (records, slots.length, L.length) s d')
    (hSerde : A (.error .serde) s d) (hStop : ∀ e d', Session path L slots s d' → C e s d') :
    Method.wp compactBlob s d Q A C := by
  obtain ⟨hPath, hLogPath⟩ := not_mem_blobWrites path
  have hKept : ∀ d', Disk.AgreeOff (blobWrites path) d d' → Session path L slots s d' :=
    fun d' hAgree =>
    ⟨h.rep, (hAgree _ hPath).trans h.file, by rw [hAgree _ hLogPath]; exact h.log⟩
  exact wp_compactBlob_reads h.rep h.log.reads
    (fun records d' hRecords hIds hView hLen hAgree =>
      hOk records d' hRecords hIds hView hLen (hKept d' hAgree))
    hSerde fun e d' hAgree => hStop e d' (hKept d' hAgree)

/-- What is left of the files when a compaction stops behind its blob: slots and log are each the
old or the new ones. -/
structure CutBehindBlob (path : Path) (L : List (LogEntry R Id)) (slots : List (Slot Id SV))
    (records : List R) (d' : Disk) : Prop where
  file : d' path = some (image slots []) ∨ d' path = some (image (freshSlots records) [])
  log : InsertLog.Holds (SCHEMA_TAG R) L (d' (InsertLog.logPath path)) ∨
    InsertLog.Holds (SCHEMA_TAG R) ([] : List (LogEntry R Id)) (d' (InsertLog.logPath path))
  blob : BlobOf path records d'

/-- A compacted store has the answers it had, over slots that are all live. -/
structure Compacted (path : Path) (records : List R) (s : GenericMmapStore R Id IV SV)
    (s' : GenericMmapStore R Id IV SV) (d' : Disk) : Prop where
  session : Session path [] (freshSlots records) s' d'
  maps : s'.records = s.records
  view : view s' = view s
  strays : ∀ q, ¬ Stray s' (freshSlots records) q
  blob : BlobOf path records d'

/-- The steps behind the blob: they end in a compacted store, or leave the slots and the log each as
they were or as the compaction makes them. -/
theorem wp_compactRest_over {Q : Unit → GenericMmapStore R Id IV SV → Disk → Prop}
    {A C : Stop DurabilityError → GenericMmapStore R Id IV SV → Disk → Prop}
    (h : Rep s path slots) (hIds : DistinctIds records) (hView : contents records = view s)
    (hBlob : BlobOf path records d) (hOk : ∀ s' d', Compacted path records s s' d' → Q () s' d')
    (hStop : ∀ e s' d', d' path = d path ∨ d' path = some (image (freshSlots records) []) →
      d' (InsertLog.logPath path) = d
    (InsertLog.logPath path) → BlobOf path records d' → C e s' d') :
    Method.wp (compactRest records) s d Q A C := by
  have hLogOff : InsertLog.logPath path ∉ [path, path ++ SlotFile.COMPACT_SUFFIX] := by
    have hStage : InsertLog.logPath path ≠ path ++ SlotFile.COMPACT_SUFFIX :=
      append_suffix_ne_append (by decide) path
    simpa using ⟨logPath_ne path, hStage⟩
  have hBlobOff : GenericRecordBlob.blobPath path ∉ [path, path ++ SlotFile.COMPACT_SUFFIX] := by
    have hStage : GenericRecordBlob.blobPath path ≠ path ++ SlotFile.COMPACT_SUFFIX :=
      append_suffix_ne_append (by decide) path
    simpa using ⟨blobPath_ne path, hStage⟩
  refine Method.wp_bind (Method.wp_onPart (SlotFile.wp_rewrite (by rw [h.file])
    (fun f' d₁ hShows hAgree => ?_) fun e f' d₁ hFile hAgree =>
      hStop e _ d₁ ?_ (hAgree _ hLogOff) ?_))
  · have hKept : BlobOf path records d₁ := hBlob.of_same (hAgree _ hBlobOff)
    refine Method.wp_bind (Method.wp_self ?_)
    rw [show (setFile f' s).file.path = path from by rw [setFile, hShows.1]]
    refine Method.wp_bind (InsertLog.wp_clear (Method.wp_modifySelf ?_)
      fun e => hStop e _ d₁ (Or.inr hShows.2) (hAgree _ hLogOff) hKept)
    suffices hDone : ∀ s' : GenericMmapStore R Id IV SV, s'.file = f' → s'.records = s.records →
        s'.index = s.index → s'.positionIndex = placesFrom 0 records → Compacted path records s s'
          (Function.update d₁ (InsertLog.logPath path) none) from hOk _ _ (hDone _ rfl rfl rfl rfl)
    intro s' hMapped hRecords hIndex hPositions
    obtain ⟨hRep, hSame⟩ := rep_compacted h hIds hView (hMapped.trans hShows.1) hRecords hIndex
      fun k => by rw [hPositions]
    refine ⟨⟨hRep, ?_, ?_⟩, hRecords, hSame, ?_, ?_⟩
    · rw [Function.update_of_ne (logPath_ne path).symm, hShows.2]
      rfl
    · rw [Function.update_self]
      exact InsertLog.holds_none _
    · rintro q ⟨t, ht, hMark, hPos⟩
      rw [hPositions] at hPos
      exact absurd ((reconciled_fresh hIds).strays q t ht hMark hPos).1 (by simp)
    · exact hKept.of_same (Function.update_of_ne (blobPath_ne_logPath path) ..)
  · rcases hFile with ⟨-, hOld⟩ | ⟨-, hOld | hNew⟩
    · exact Or.inl hOld
    · exact Or.inl hOld
    · exact Or.inr hNew
  · exact hBlob.of_same (hAgree _ hBlobOff)

theorem wp_compactRest {Q : Unit → GenericMmapStore R Id IV SV → Disk → Prop}
    {A C : Stop DurabilityError → GenericMmapStore R Id IV SV → Disk → Prop}
    (h : Session path L slots s d) (hIds : DistinctIds records) (hView : contents records = view s)
    (hBlob : BlobOf path records d) (hOk : ∀ s' d', Compacted path records s s' d' → Q () s' d')
    (hStop : ∀ e s' d', CutBehindBlob path L slots records d' → C e s' d') :
    Method.wp (compactRest records) s d Q A C := by
  refine wp_compactRest_over h.rep hIds hView hBlob hOk fun e s' d' hFile hLog hKept =>
    hStop e s' d' ⟨?_, Or.inl ?_, hKept⟩
  · rwa [h.file] at hFile
  · rw [hLog]
    exact h.log

/-- A compaction that returns kept every answer; one that is refused wrote nothing. -/
theorem wp_compact_reads (h : Rep s path slots)
    (hLog : InsertLog.Reads (SCHEMA_TAG R) L (d (InsertLog.logPath path))) :
    Method.wp compact s d
      (fun report s' d' => ∃ records, Compacted path records s s' d' ∧ DistinctIds records ∧
        contents records = view s ∧
        report = ⟨records.length, slots.length - records.length, L.length, 0⟩)
      (fun _ s' d' => s' = s ∧ d' = d) (fun _ _ _ => True) := by
  refine Method.wp_bind (wp_compactBlob_reads h hLog
    (fun records d₁ _ hIds hView hLen _ hBlob => ?_) ⟨rfl, rfl⟩ fun _ _ _ => trivial)
  refine Method.wp_bind (wp_compactRest_over h hIds hView hBlob (fun s' d' hDone => ?_)
    fun _ _ _ _ _ _ => trivial)
  rw [if_pos hLen]
  exact Method.wp_pure ⟨records, hDone, hIds, hView, rfl⟩

theorem wp_compact (h : Session path L slots s d) :
    Method.wp compact s d
      (fun report s' d' => ∃ records, Compacted path records s s' d' ∧ DistinctIds records ∧
        contents records = view s ∧
        report = ⟨records.length, slots.length - records.length, L.length, 0⟩)
      (fun _ s' d' => s' = s ∧ d' = d) (fun _ _ _ => True) :=
  wp_compact_reads h.rep h.log.reads

end Compact

end GenericMmapStore

end MultimodalDb
