import MultimodalDb.Generic.MmapStoreRules

/-!
# Reopening the generic store

What a store knows after it was opened. Over records with distinct ids, `open` gives every id its
last committed slot, and a slot behind the others where it has none (`wp_reconcile`), so an id is
answered with the value of its last committed slot, or with the record's own where no committed slot
carries it (`Recovers`). The log is gone afterwards, and the blob either holds the opened records or
was taken to, by its fingerprint.
-/

namespace MultimodalDb

open StoredRecord hiding id
open StoredRecord renaming id → idOf
open SlotFile (LastCommitted Unclaimed image COMMITTED Shows)

namespace GenericMmapStore

variable {R Id IV SV : Type} [StoredRecord R Id IV SV] [DecidableEq Id]

/-! ## The position map -/

theorem lookup_foundPositions (persisted : AList (fun _ : Id => Nat × SV)) (records : List R)
    (k : Id) :
    (foundPositions persisted records).lookup k =
      if k ∈ records.map idOf then (persisted.lookup k).map Prod.fst else none := by
  induction records using List.reverseRecOn with
  | nil => simp [foundPositions]
  | append_singleton records record ih =>
    have hFold : foundPositions persisted (records ++ [record]) =
        (persisted.lookup (idOf record)).elim (foundPositions persisted records)
          fun found => (foundPositions persisted records).insert (idOf record) found.1 := by
      unfold foundPositions
      rw [List.foldl_append, List.foldl_cons, List.foldl_nil]
      cases persisted.lookup (idOf record) <;> rfl
    rw [hFold, List.map_append, List.map_singleton]
    by_cases hk : k = idOf record
    · subst hk
      rw [if_pos (by simp)]
      cases hFound : persisted.lookup (idOf record) with
      | none =>
        rw [Option.elim_none, ih, hFound]
        simp
      | some found => simp
    · have hMem : k ∈ records.map idOf ++ [idOf record] ↔ k ∈ records.map idOf := by simp [hk]
      rw [if_congr hMem rfl rfl, ← ih]
      cases persisted.lookup (idOf record) with
      | none => rfl
      | some found => exact AList.lookup_insert_ne hk

/-- The positions of the appended slots are laid over the found ones. -/
theorem lookup_appendedPositions {missing : List R} (hIds : DistinctIds missing)
    (found : AList (fun _ : Id => Nat)) (n : Nat) (k : Id) (p : Nat) :
    ((missing.zip (List.range' n missing.length)).foldl
        (fun index (record, position) => index.insert (idOf record) position) found).lookup k =
      some p ↔
      (∃ i, (missing[i]?).map idOf = some k ∧ p = n + i) ∨
        (k ∉ missing.map idOf ∧ found.lookup k = some p) := by
  induction missing using List.reverseRecOn generalizing p with
  | nil => simp
  | append_singleton missing record ih =>
    rw [DistinctIds, List.map_append, List.map_singleton, List.nodup_append] at hIds
    obtain ⟨hFront, -, hNew⟩ := hIds
    have hNotMem : idOf record ∉ missing.map idOf := fun hMem =>
      hNew _ hMem _ (List.mem_singleton_self _) rfl
    have hZip : (missing ++ [record]).zip (List.range' n (missing ++ [record]).length) =
        missing.zip (List.range' n missing.length) ++ [(record, n + missing.length)] := by
      rw [List.length_append, List.length_singleton, List.range'_1_concat,
        List.zip_append (by rw [List.length_range'])]
      rfl
    rw [hZip, List.foldl_append, List.foldl_cons, List.foldl_nil]
    by_cases hk : k = idOf record
    · subst hk
      rw [AList.lookup_insert, Option.some.injEq]
      constructor
      · rintro rfl
        exact Or.inl ⟨missing.length, by simp, rfl⟩
      · rintro (⟨i, hi, rfl⟩ | ⟨hNot, -⟩)
        · by_contra hne
          have hIn : i < missing.length := by
            obtain ⟨r, hr, -⟩ := Option.map_eq_some_iff.mp hi
            have := (List.getElem?_eq_some_iff.mp hr).1
            rw [List.length_append, List.length_singleton] at this
            omega
          rw [List.getElem?_append_left hIn, ← List.getElem?_map] at hi
          exact hNotMem (List.mem_of_getElem? hi)
        · simp at hNot
    · rw [AList.lookup_insert_ne hk, ih hFront]
      have hPlace : ∀ i : Nat, ((missing ++ [record])[i]?).map (idOf : R → Id) = some k ↔
          (missing[i]?).map (idOf : R → Id) = some k := by
        intro i
        by_cases hIn : i < missing.length
        · rw [List.getElem?_append_left hIn]
        · rw [List.getElem?_append_right (by omega), List.getElem?_eq_none (not_lt.mp hIn)]
          cases i - missing.length <;> simp [Ne.symm hk]
      simp only [hPlace]
      simp [hk]

/-! ## What a reopened store answers -/

/-- The answers for the records `m` over the slots of a file: the value of an id's last committed
slot, and the record's own where there is none. -/
def Recovers (m : Id → Option R) (slots : List (Slot Id SV)) (answers : Id → Option R) : Prop :=
  ∀ k, (∀ p v, LastCommitted slots k p v → answers k = (m k).map (setScannableValue v)) ∧
    (Unclaimed slots k → answers k = m k)

variable {slots : List (Slot Id SV)} {records : List R}

/-- The pairs found are the last committed slots. -/
def Finds (persisted : AList (fun _ : Id => Nat × SV)) (slots : List (Slot Id SV)) : Prop :=
  ∀ k, match persisted.lookup k with
    | some (p, v) => LastCommitted slots k p v
    | none => Unclaimed slots k

/-- What the reconciliation of `records` with `slots` ends with: every record has the last committed
slot of its id as its position, an old one where there was one. -/
structure Reconciled (records : List R) (slots slots' : List (Slot Id SV))
    (positions : AList (fun _ : Id => Nat)) : Prop where
  keys : ∀ k, k ∈ positions ↔ k ∈ records.map idOf
  last : ∀ k p, positions.lookup k = some p → ∃ v, LastCommitted slots' k p v
  old : ∀ k p v, LastCommitted slots k p v → LastCommitted slots' k p v
  new : ∀ record ∈ records, Unclaimed slots (idOf record) →
    ∃ p, LastCommitted slots' (idOf record) p (scannableValue record)
  strays : ∀ q t, slots'[q]? = some t → t.marker = COMMITTED → positions.lookup t.id ≠ some q →
    slots[q]? = some t ∧ ¬ (t.id ∈ records.map idOf ∧ LastCommitted slots t.id q t.value)

/-- The slots that `reconcile` appends. -/
def missingSlots (persisted : AList (fun _ : Id => Nat × SV)) (records : List R) :
    List (Slot Id SV) :=
  (slotPairs (missingRecords persisted records)).map .commit

theorem reconciled {persisted : AList (fun _ : Id => Nat × SV)} (hFinds : Finds persisted slots)
    (hIds : DistinctIds records) {positions : AList (fun _ : Id => Nat)}
    (hPositions : positions = ((missingRecords persisted records).zip
      (List.range' slots.length (missingRecords persisted records).length)).foldl
        (fun index (record, position) => index.insert (idOf record) position)
        (foundPositions persisted records)) :
    Reconciled records slots (slots ++ missingSlots persisted records) positions := by
  obtain ⟨missing, hMissing⟩ : ∃ missing, missing = missingRecords persisted records := ⟨_, rfl⟩
  have hMissingIds : DistinctIds missing := by
    rw [hMissing]
    exact hIds.sublist (List.filter_sublist.map _)
  have hPairs : (slotPairs missing).map Prod.fst = missing.map (idOf : R → Id) := by
    simp [slotPairs, Function.comp_def]
  have hMem : ∀ k, k ∈ missing.map idOf ↔ k ∈ records.map idOf ∧ persisted.lookup k = none := by
    intro k
    rw [hMissing]
    simp only [missingRecords, List.mem_map, List.mem_filter, Option.isNone_iff_eq_none]
    constructor
    · rintro ⟨r, ⟨hr, hNone⟩, rfl⟩
      exact ⟨⟨r, hr, rfl⟩, hNone⟩
    · rintro ⟨⟨r, hr, rfl⟩, hNone⟩
      exact ⟨r, ⟨hr, hNone⟩, rfl⟩
  have hLookup : ∀ k p, positions.lookup k = some p ↔
      (∃ i, (missing[i]?).map idOf = some k ∧ p = slots.length + i) ∨
        (k ∉ missing.map idOf ∧ (foundPositions persisted records).lookup k = some p) := by
    rw [hPositions, ← hMissing]
    exact lookup_appendedPositions hMissingIds _ slots.length
  -- an appended slot is the last of its id
  have hAppended : ∀ i record, missing[i]? = some record →
      LastCommitted (slots ++ missingSlots persisted records) (idOf record) (slots.length + i)
        (scannableValue record) := by
    intro i record hi
    rw [missingSlots, ← hMissing]
    refine SlotFile.lastCommitted_append slots (by rw [hPairs]; exact hMissingIds) ?_
    rw [slotPairs, List.getElem?_map, hi]
    rfl
  have hOld : ∀ k p v, LastCommitted slots k p v →
      LastCommitted (slots ++ missingSlots persisted records) k p v := by
    intro k p v h
    rw [missingSlots, ← hMissing]
    refine h.append fun hIn => ?_
    rw [hPairs, hMem] at hIn
    have hNone := hFinds k
    rw [hIn.2] at hNone
    exact h.not_unclaimed hNone
  have hFound : ∀ k p, (foundPositions persisted records).lookup k = some p →
      k ∈ records.map idOf ∧ ∃ v, LastCommitted slots k p v := by
    intro k p h
    rw [lookup_foundPositions] at h
    split at h
    · next hIn =>
      obtain ⟨⟨q, v⟩, hq, rfl⟩ := Option.map_eq_some_iff.mp h
      have hLast := hFinds k
      rw [hq] at hLast
      exact ⟨hIn, v, hLast⟩
    · cases h
  refine ⟨fun k => ?_, fun k p h => ?_, hOld, fun record hRecord hNone => ?_,
    fun q t ht hMark hPos => ?_⟩
  · rw [← AList.lookup_isSome, Option.isSome_iff_exists]
    constructor
    · rintro ⟨p, hp⟩
      rcases (hLookup k p).mp hp with ⟨i, hi, -⟩ | ⟨-, hp⟩
      · rw [← List.getElem?_map] at hi
        exact ((hMem k).mp (List.mem_of_getElem? hi)).1
      · exact (hFound k p hp).1
    · intro hIn
      by_cases hMiss : k ∈ missing.map idOf
      · obtain ⟨i, hi⟩ := List.mem_iff_getElem?.mp hMiss
        rw [List.getElem?_map] at hi
        exact ⟨_, (hLookup k _).mpr (Or.inl ⟨i, hi, rfl⟩)⟩
      · have hSome : persisted.lookup k ≠ none := fun h => hMiss ((hMem k).mpr ⟨hIn, h⟩)
        obtain ⟨⟨q, v⟩, hq⟩ := Option.ne_none_iff_exists'.mp hSome
        refine ⟨q, (hLookup k q).mpr (Or.inr ⟨hMiss, ?_⟩)⟩
        rw [lookup_foundPositions, if_pos hIn, hq]
        rfl
  · rcases (hLookup k p).mp h with ⟨i, hi, rfl⟩ | ⟨-, hp⟩
    · obtain ⟨record, hRecord, rfl⟩ := Option.map_eq_some_iff.mp hi
      exact ⟨_, hAppended i record hRecord⟩
    · obtain ⟨-, v, hv⟩ := hFound k p hp
      exact ⟨v, hOld k p v hv⟩
  · have hLost : persisted.lookup (idOf record) = none := by
      cases hSome : persisted.lookup (idOf record) with
      | none => rfl
      | some found =>
        have hLast := hFinds (idOf record)
        rw [hSome] at hLast
        exact (hLast.not_unclaimed hNone).elim
    have hIn : record ∈ missing := by
      rw [hMissing, missingRecords, List.mem_filter]
      exact ⟨hRecord, by rw [hLost]; rfl⟩
    obtain ⟨i, hi⟩ := List.mem_iff_getElem?.mp hIn
    exact ⟨_, hAppended i record hi⟩
  · by_cases hIn : q < slots.length
    · rw [List.getElem?_append_left hIn] at ht
      refine ⟨ht, fun ⟨hId, hLast⟩ => hPos ((hLookup t.id q).mpr (Or.inr ?_))⟩
      have hFind := hFinds t.id
      cases hq : persisted.lookup t.id with
      | none =>
        rw [hq] at hFind
        exact (hLast.not_unclaimed hFind).elim
      | some found =>
        rw [hq] at hFind
        obtain ⟨rfl, -⟩ := hLast.unique hFind
        refine ⟨fun hMiss => ?_, by rw [lookup_foundPositions, if_pos hId, hq]; rfl⟩
        rw [hMem, hq] at hMiss
        cases hMiss.2
    · -- an appended slot is indexed
      rw [List.getElem?_append_right (not_lt.mp hIn), missingSlots, ← hMissing, slotPairs,
        List.map_map, List.getElem?_map] at ht
      obtain ⟨record, hRecord, rfl⟩ := Option.map_eq_some_iff.mp ht
      refine (hPos ((hLookup _ q).mpr (Or.inl ⟨q - slots.length, ?_, by omega⟩))).elim
      rw [hRecord]
      rfl

/-! ## Opening -/

variable [MmapFieldValue Id] [MmapFieldValue SV]
variable {S : Type} {s₀ : S} {d : Disk} {path : Path}
variable {A C : Stop DurabilityError → S → Disk → Prop}

theorem committedPairs_image (slots : List (Slot Id SV)) (file : Option Path) (at_ : Path) :
    ∃ persisted, SlotFile.committedPairs ⟨⟨image slots [], file⟩, at_⟩ = .ok persisted ∧
      Finds persisted slots := by
  refine ⟨SlotFile.pairsBefore (image slots []) slots.length, ?_, fun k => ?_⟩
  · unfold SlotFile.committedPairs
    rw [SlotFile.slotCount_image slots [] file at_ (SlotFile.slotWidth_pos Id SV)]
    rfl
  · have h := SlotFile.lookup_pairsBefore slots [] le_rfl k
    rwa [List.take_length] at h

theorem wp_reconcile {f : SlotFile Id SV}
    {Q : SlotFile Id SV × AList (fun _ : Id => Nat) → S → Disk → Prop}
    (hShows : Shows f d path slots []) (hIds : DistinctIds records)
    (hOk : ∀ f' d' slots' positions, Shows f' d' path slots' [] → Disk.AgreeOff [path] d d' →
      Reconciled records slots slots' positions → Q (f', positions) s₀ d')
    (hStop : ∀ e d', C e s₀ d') : Method.wp (reconcile f records) s₀ d Q A C := by
  obtain ⟨rfl, hFile⟩ := hShows
  obtain ⟨persisted, hPersisted, hFinds⟩ := committedPairs_image slots (some path) path
  refine Method.wp_bind (Method.wp_checked (fun found hFound => ?_) (fun e hPanic => ?_))
  · obtain rfl : persisted = found := Except.ok.inj (hPersisted.symm.trans hFound)
    have hDone := reconciled hFinds hIds rfl
    dsimp only
    split
    · next hEmpty =>
      rw [missingSlots, List.isEmpty_iff.mp hEmpty] at hDone
      rw [show slots ++ (slotPairs ([] : List R)).map Slot.commit =
        slots from List.append_nil slots]
        at hDone
      exact Method.wp_pure (hOk _ d slots _ ⟨rfl, hFile⟩ (.refl _ d) hDone)
    · refine Method.wp_bind (Method.wp_runOn (SlotFile.wp_appendCommittedSlots rfl hFile
        (SlotFile.slotWidth_pos Id SV) (fun bytes hBytes => Method.wp_pure ?_) fun e d' _ =>
          hStop _ _))
      rw [SlotFile.image_append] at hBytes
      subst hBytes
      refine hOk _ _ _ _ ⟨rfl, Function.update_self ..⟩
        ((Disk.AgreeOff.refl _ d).update (List.mem_singleton_self path) _) ?_
      rwa [show (slotPairs (missingRecords persisted records)).length =
        (missingRecords persisted records).length from List.length_map _]
  · cases hPersisted.symm.trans hPanic

variable [DecidableEq IV]

/-- A store built over reconciled slots. -/
theorem rep_of_reconciled {slots' : List (Slot Id SV)} {positions : AList (fun _ : Id => Nat)}
    {f : SlotFile Id SV} (hIds : DistinctIds records)
    (h : Reconciled records slots slots' positions)
    (hFile : f = ⟨⟨image slots' [], some path⟩, path⟩) :
    Rep ⟨recordMap records, buildIndex records, positions, f⟩ path slots' where
  file := hFile
  keys k := by
    rw [h.keys, ← not_iff_not, ← AList.lookup_eq_none, ← contents_eq_none_iff]
    rfl
  ids k record hRecord := ((contents_eq_some_iff hIds).mp hRecord).2
  last := h.last
  buckets := buckets_buildIndex hIds

/-- It answers with the last committed value of an id, or the record's own. -/
theorem recovers_of_reconciled {slots' : List (Slot Id SV)} {s : GenericMmapStore R Id IV SV}
    (hIds : DistinctIds records) (h : Reconciled records slots slots' s.positionIndex)
    (hRecords : s.records = recordMap records) (hRep : Rep s path slots') :
    Recovers (contents records) slots (view s) := by
  have hLookup : ∀ k, s.records.lookup k = contents records k := fun k => by rw [hRecords]; rfl
  -- the value in the slot an id ends up with decides the answer
  have hView : ∀ k p v, LastCommitted slots' k p v →
      view s k = (contents records k).map (setScannableValue v) := by
    intro k p v hLast
    cases hk : contents records k with
    | none => rw [view_none ((hLookup k).trans hk), Option.map_none]
    | some record =>
      obtain ⟨q, w, hAt⟩ := hRep.exists_at ((hLookup k).trans hk)
      rw [hRep.view_at hAt, (hAt.2.2.unique hLast).2]
      rfl
  refine fun k => ⟨fun p v hLast => hView k p v (h.old k p v hLast), fun hNone => ?_⟩
  cases hk : contents records k with
  | none => exact view_none ((hLookup k).trans hk)
  | some record =>
    obtain ⟨hMem, rfl⟩ := (contents_eq_some_iff hIds).mp hk
    obtain ⟨p, hLast⟩ := h.new record hMem hNone
    rw [hView _ p _ hLast, hk]
    exact congrArg some (set_scannableValue record)

variable [Serde R] [Serde Id]

/-- The blob after an open: what the fingerprint took for these records, or their image. -/
def BlobKept (path : Path) (records : List R) (d d' : Disk) : Prop :=
  (d' (GenericRecordBlob.blobPath path) = d (GenericRecordBlob.blobPath path) ∧
    GenericRecordBlob.CurrentAt (SCHEMA_TAG R) records (d (GenericRecordBlob.blobPath path))) ∨
  ∃ body, Codec.encode records = some body ∧
    d' (GenericRecordBlob.blobPath path) = some (GenericRecordBlob.image (SCHEMA_TAG R) body)

/-- What holds of a store that was just opened over `records`. -/
structure Opened (path : Path) (records : List R) (slots : List (Slot Id SV)) (d : Disk)
    (slots' : List (Slot Id SV)) (s : GenericMmapStore R Id IV SV) (d' : Disk) : Prop where
  session : Session path [] slots' s d'
  maps : s.records = recordMap records
  reconciled : Reconciled records slots slots' s.positionIndex
  blob : BlobKept path records d d'

theorem Opened.recovers {slots' : List (Slot Id SV)} {s : GenericMmapStore R Id IV SV} {d' : Disk}
    (h : Opened path records slots d slots' s d') (hIds : DistinctIds records) :
    Recovers (contents records) slots (view s) :=
  recovers_of_reconciled hIds h.reconciled h.maps h.session.rep

theorem Opened.live {slots' : List (Slot Id SV)} {s : GenericMmapStore R Id IV SV} {d' : Disk}
    (h : Opened path records slots d slots' s d') :
    live s = fun k => (contents records k).map shape := by
  funext k
  rw [GenericMmapStore.live, h.maps]
  rfl

theorem tempPath_companion (path : Path) :
    RecordBlob.tempPath (GenericRecordBlob.blobPath path) =
      path ++ (RecordBlob.COMPANION_SUFFIX ++ RecordBlob.TEMP_SUFFIX) :=
  List.append_assoc ..

/-- What a blob write leaves alone. -/
theorem blob_write_frame (path : Path) :
    path ≠ GenericRecordBlob.blobPath path ∧
      path ≠ RecordBlob.tempPath (GenericRecordBlob.blobPath path) ∧
      InsertLog.logPath path ≠ GenericRecordBlob.blobPath path ∧
      InsertLog.logPath path ≠ RecordBlob.tempPath (GenericRecordBlob.blobPath path) := by
  rw [tempPath_companion]
  exact ⟨(blobPath_ne path).symm, (append_suffix_ne (by decide) path).symm,
    (blobPath_ne_logPath path).symm, append_suffix_ne_append (by decide) path⟩

/-- **Opening** over records with distinct ids, on a file without a partial tail. Only records that
cannot be encoded stop it. -/
theorem wp_openFolded {Q : GenericMmapStore R Id IV SV → S → Disk → Prop}
    (hFile : d path = some (image slots [])) (hIds : DistinctIds records)
    (hOk : ∀ slots' s d', Opened path records slots d slots' s d' → Q s s₀ d')
    (hSerde : Codec.encode records = none → A (.error .serde) s₀ d) (hStop : ∀ e d', C e s₀ d') :
    Method.wp (openFolded records path) s₀ d Q A C := by
  obtain ⟨hPathBlob, hPathTemp, hLogBlob, hLogTemp⟩ := blob_write_frame path
  -- the end of every branch: the log goes, and the store is there
  have hEnd : ∀ (d₁ d₂ : Disk) (f : SlotFile Id SV) (slots' : List (Slot Id SV))
      (positions : AList (fun _ : Id => Nat)), Shows f d₁ path slots' [] →
      Reconciled records slots slots' positions → d₂ path = d₁ path → BlobKept path records d d₂ →
      Method.wp (do
        InsertLog.clear (InsertLog.logPath path)
        return (⟨recordMap records, buildIndex records, positions, f⟩ : GenericMmapStore
          R Id IV SV))
        s₀ d₂ Q A C := by
    intro d₁ d₂ f slots' positions hShows hRec hSame hBlob
    refine Method.wp_bind (InsertLog.wp_clear (Method.wp_pure (hOk slots' _ _
      ⟨⟨rep_of_reconciled hIds hRec hShows.1, ?_, ?_⟩, rfl, hRec, ?_⟩)) fun e => hStop e _)
    · rw [Function.update_of_ne (logPath_ne path).symm, hSame, hShows.2]
    · rw [Function.update_self]
      exact InsertLog.holds_none _
    · unfold BlobKept at hBlob ⊢
      rwa [Function.update_of_ne (blobPath_ne_logPath path)]
  refine Method.wp_bind (Method.wp_bind
    (GenericRecordBlob.wp_isCurrentAt (fun current hCurrent => ?_) fun e => hStop e d))
  have hOpen : ∀ writeStale : Method S DurabilityError Unit,
      (∀ f slots' positions d₁, Shows f d₁ path slots' [] → Disk.AgreeOff [path] d d₁ →
        Reconciled records slots slots' positions → Method.wp (do
          writeStale
          InsertLog.clear (InsertLog.logPath path)
          return (⟨recordMap records, buildIndex records, positions, f⟩ :
            GenericMmapStore R Id IV SV)) s₀ d₁ Q A C) →
      Method.wp (do
        let file ← SlotFile.openAt path
        let reconciled ← reconcile file records
        writeStale
        InsertLog.clear (InsertLog.logPath path)
        return (⟨recordMap records, buildIndex records, reconciled.2, reconciled.1⟩ :
          GenericMmapStore R Id IV SV)) s₀ d Q A C := by
    intro writeStale hRest
    refine Method.wp_bind (SlotFile.wp_openAt (fun f found tail hShows hTail => ?_)
      (fun e hNot => (hNot slots [] hFile).elim) fun e => hStop e d)
    have hSame : image found tail = image slots [] := Option.some.inj (hShows.2.symm.trans hFile)
    have hShows' : Shows f d path slots [] := by
      rw [Shows, ← hSame]
      exact hShows
    exact Method.wp_bind (wp_reconcile hShows' hIds
      (fun f' d' slots' positions hShows hAgree hRec =>
        hRest f' slots' positions d' hShows hAgree hRec)
      hStop)
  split
  · next hTrue =>
    refine Method.wp_pure (hOpen (pure ()) fun f slots' positions d₁ hShows hAgree hRec => ?_)
    refine hEnd d₁ d₁ f slots' positions hShows hRec rfl (Or.inl ?_)
    exact ⟨hAgree _ (by simpa using blobPath_ne path), hCurrent hTrue⟩
  · refine Method.wp_bind (Method.wp_ofExcept (fun encoded hEncoded => ?_) (fun e hError => ?_))
    · unfold GenericRecordBlob.encode at hEncoded
      split at hEncoded
      · cases hEncoded
      · next body hBody =>
        cases hEncoded
        refine Method.wp_pure (hOpen (RecordBlob.write _ _)
          fun f slots' positions d₁ hShows hAgree hRec => ?_)
        refine Method.wp_bind (RecordBlob.wp_write (fun d₂ hWritten _ hFrame => ?_)
          fun e d' _ => hStop e d')
        exact hEnd d₁ d₂ f slots' positions hShows hRec (hFrame _ hPathBlob hPathTemp)
          (Or.inr ⟨body, hBody, hWritten⟩)
    · unfold GenericRecordBlob.encode at hError
      split at hError
      · next hNone =>
        cases hError
        exact hSerde hNone
      · cases hError

end GenericMmapStore

end MultimodalDb
