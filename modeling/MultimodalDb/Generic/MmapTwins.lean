import MultimodalDb.Generic.EdgeFiles
import MultimodalDb.Generic.MmapStore
import MultimodalDb.Lib.TwinRuns

/-!
# The durable store on two disks

A store looks at its own three files and at the staging files it has made itself, and writes no
others. So two disks on which the three agree are the same to it, whatever an earlier store left at
its other paths. `create` looks at nothing: it leaves two disks that agree.
-/

namespace MultimodalDb

open Method Disk GenericRecordBlob
open StoredRecord hiding id

variable {S T K R Id IV SV V : Type} {F W : Set Path} {I : S → Prop} {s : S} {d₀ d₀' d d' : Disk}
  {path : Path}

/-! ## Blobs and logs -/

/-- A blob is written, and staged. -/
def blobWrites (path : Path) : Set Path := {path, RecordBlob.tempPath path}

theorem RecordBlob.twin_write {image : Bytes} {Q : Unit → S → Disk → Disk → Prop}
    {C : Stop DurabilityError → S → Disk → Disk → Prop} (h : Kept F W d₀ d₀' d d')
    (hW : blobWrites path ⊆ W) (hOk : ∀ e e', Kept (insert path F) W d₀ d₀' e e' → Q () s e e')
    (hStop : ∀ x e e', Kept F W d₀ d₀' e e' → C x s e e') :
    twin (RecordBlob.write image path) s d d' Q C := by
  have hTempW : RecordBlob.tempPath path ∈ W := hW (Or.inr rfl)
  refine twin_bind (twin_createFile h hTempW (fun e e' hTemp => ?_) hStop)
  have hMem : RecordBlob.tempPath path ∈ insert (RecordBlob.tempPath path) F := Set.mem_insert _ _
  have hMore : F ⊆ insert (RecordBlob.tempPath path) F := Set.subset_insert _ _
  have hBack {x e e'} (hE : Kept (insert (RecordBlob.tempPath path) F) W d₀ d₀' e e') :
      C x s e e' :=
    hStop x e e' (hE.mono hMore)
  refine twin_bind ((alike_appendAll (I := fun t => t = s) hMem hTempW image).twin rfl hTemp
    (fun _ t e e' _ hT hE => ?_) fun x t e e' hT hE => hT ▸ hBack hE)
  refine twin_bind ((alike_sync (I := fun t => t = s)).twin hT hE
    (fun _ t e e' _ hT hE => ?_) fun x t e e' hT hE => hT ▸ hBack hE)
  subst hT
  exact twin_rename hE hMem hTempW (hW (Or.inl rfl))
    (fun e e' hMoved => hOk e e' (hMoved.mono (Set.insert_subset_insert hMore))) fun x e e' => hBack

theorem RecordBlob.alike_write (image : Bytes) (hW : blobWrites path ⊆ W) :
    Alike F W I (fun _ => True) (RecordBlob.write image path : Method S DurabilityError Unit) :=
  fun _ _ _ hI hAgree => RecordBlob.twin_write (.refl hAgree) hW
    (fun _ _ hE => ⟨trivial, hI, hE.mono (Set.subset_insert _ _)⟩) fun _ _ _ hE => ⟨hI, hE⟩

namespace InsertLog

variable {log : Path} {tag : String}

/-- A log is written, and staged when it is one of the old version. -/
def logWrites (log : Path) : Set Path := {log, log ++ UPGRADE_SUFFIX}

theorem alike_onDiskVersion (h : log ∈ F) :
    Alike F W I (fun _ => True) (onDiskVersion log : Method S DurabilityError (Option UInt32)) :=
  (alike_readIfPresent h).bind fun _ _ => alike_pure trivial

theorem alike_readEntries [Serde T] [Serde K] (h : log ∈ F) :
    Alike F W I (fun _ => True)
      (readEntries log tag : Method S DurabilityError (List (LogEntry T K))) := by
  refine Alike.bind (P := fun _ => True) ((alike_readIfPresent h).bind fun file _ => ?_)
    fun raw _ =>
    alike_ofExcept fun _ _ => trivial
  cases file with
  | none => exact alike_pure trivial
  | some bytes =>
    refine (alike_onDiskVersion h).bind fun declared _ => ?_
    dsimp only
    split
    · exact alike_fail _
    · exact alike_pure trivial

theorem alike_clear (h : log ∈ F) (hW : log ∈ W) :
    Alike F W I (fun _ => True) (clear log : Method S DurabilityError Unit) :=
  alike_removeIfPresent h hW

/-- The rewrite of an old log goes through a file of its own. -/
theorem alike_upgradeIfVersion1 (h : log ∈ F) (hW : logWrites log ⊆ W) :
    Alike F W I (fun _ => True) (upgradeIfVersion1 log tag : Method S DurabilityError Unit) := by
  refine (alike_onDiskVersion h).bind fun version _ => ?_
  split
  · refine (alike_readFile h).bind fun bytes _ => ?_
    split
    · exact alike_fail _
    · intro s d d' hI hAgree
      have hTmpW : log ++ UPGRADE_SUFFIX ∈ W := hW (Or.inr rfl)
      refine twin_bind (twin_createFile (.refl hAgree) hTmpW (fun e e' hTemp => ?_) fun _ _ _ hE =>
        ⟨hI, hE⟩)
      have hTmp : log ++ UPGRADE_SUFFIX ∈ insert (log ++ UPGRADE_SUFFIX) F := Set.mem_insert _ _
      have hMore : F ⊆ insert (log ++ UPGRADE_SUFFIX) F := Set.subset_insert _ _
      have hRest : Alike (insert (log ++ UPGRADE_SUFFIX) F) W I (fun _ => True) (do
          Method.appendAll .io (log ++ UPGRADE_SUFFIX)
            (encodeTaggedImage MAGIC LOG_VERSION 0 tag [] ++
            (rawEntries bytes LOG_VERSION_1).flatMap (fun entry => entryBytes KIND_ITEM entry.2))
          Method.openFile .io (log ++ UPGRADE_SUFFIX)
          Method.sync .io
          Method.rename .io (log ++ UPGRADE_SUFFIX) log : Method S DurabilityError Unit) :=
        (alike_appendAll hTmp hTmpW _).bind fun _ _ => (alike_openFile hTmp).bind fun _ _ =>
          alike_sync.bind fun _ _ => alike_rename hTmp hTmpW (hW (Or.inl rfl))
      exact hRest.twin hI hTemp (fun _ _ _ _ _ hT hE => ⟨trivial, hT, hE.mono hMore⟩)
        fun _ _ _ _ hT hE => ⟨hT, hE.mono hMore⟩
  · exact alike_pure trivial

theorem alike_appendEntry (h : log ∈ F) (hW : logWrites log ⊆ W) (kind : UInt8) (payload : Bytes) :
    Alike F W I (fun _ => True)
      (appendEntry log tag kind payload : Method S DurabilityError Unit) := by
  have hLog : log ∈ W := hW (Or.inl rfl)
  unfold appendEntry
  split
  · exact (alike_upgradeIfVersion1 h hW).bind fun _ _ => (alike_openOrCreate h hLog).bind fun _ _ =>
      (alike_fileLen h).bind fun _ _ => (alike_appendAll h hLog _).bind fun _ _ => alike_sync
  · exact alike_fail _

theorem alike_append [Serde T] [Serde K] (h : log ∈ F) (hW : logWrites log ⊆ W)
    (entry : LogEntry T K) :
    Alike F W I (fun _ => True) (append log tag entry : Method S DurabilityError Unit) := by
  cases entry with
  | item value =>
    show Alike F W I _ (appendItem log tag value)
    unfold appendItem
    split
    · exact alike_fail _
    · exact alike_appendEntry h hW _ _
  | tombstone key =>
    show Alike F W I _ (appendTombstone log tag key)
    unfold appendTombstone
    split
    · exact alike_fail _
    · exact alike_appendEntry h hW _ _

end InsertLog

namespace BlobFormat

variable [Serde R] {tag : String} (B : BlobFormat)

theorem alike_isCurrentAt (h : path ∈ F) (records : List R) :
    Alike F W I (fun _ => True) (B.isCurrentAt tag records path : Method S DurabilityError Bool) :=
  Alike.bind ((alike_openFile h).bind fun _ _ => alike_readExact h _).attempt fun _ _ =>
    alike_pure trivial

theorem alike_read (h : path ∈ F) :
    Alike F W I (fun _ => True) (B.read tag path : Method S DurabilityError (List R)) :=
  (alike_readFile h).bind fun _ _ => alike_ofExcept fun _ _ => trivial

end BlobFormat

/-! ## The slot file -/

namespace SlotFile

variable [MmapFieldValue Id] [MmapFieldValue V]

/-- The slot file at `path`, mapped. -/
structure At (at_ : Path) (f : SlotFile Id V) : Prop where
  path : f.path = at_
  mmap : MapsAt at_ f.mmap

/-- A slot file is written, and staged when it is compacted. -/
def slotWrites (path : Path) : Set Path := {path, path ++ COMPACT_SUFFIX}

omit [MmapFieldValue Id] [MmapFieldValue V] in
theorem alike_remap {ε : Type} {mmap : Mapping} (h : MapsAt path mmap) :
    Alike F W (At path) (fun _ => True)
    (modifySelf (fun f => { f with mmap := mmap }) : Method (SlotFile Id V) ε Unit) :=
  alike_modifySelf fun _ hG => ⟨hG.path, h⟩

omit [MmapFieldValue Id] [MmapFieldValue V] in
theorem alike_storeAt {ε : Type} (h : path ∈ F) (hW : path ∈ W) (start : Nat) (bytes : Bytes) :
    Alike F W (At path) (fun _ => True) (storeAt start bytes : Method (SlotFile Id V) ε Unit) :=
  alike_self.bind fun _ hF => (alike_store h hW hF.mmap start bytes).bind fun _ hMmap =>
    alike_remap hMmap

theorem alike_writeHeader {ε : Type} {mmap : Mapping} (h : path ∈ F) (hW : path ∈ W)
    (hMmap : MapsAt path mmap) :
    Alike F W I (MapsAt path) (writeHeader mmap : Method S ε Mapping) :=
  (alike_store h hW hMmap _ _).bind fun _ hMmap => alike_store h hW hMmap _ _

theorem alike_writeSlots {ε : Type} (slots : List (Id × V)) (position : Nat) {mmap : Mapping}
    (h : path ∈ F) (hW : path ∈ W) (hMmap : MapsAt path mmap) :
    Alike F W I (MapsAt path) (writeSlots mmap position slots : Method S ε Mapping) := by
  induction slots generalizing mmap position with
  | nil => exact alike_pure hMmap
  | cons slot slots ih =>
    refine Alike.bind (P := MapsAt path) ?_ fun mmap h => ih (position + 1) h
    exact (alike_store h hW hMmap _ _).bind fun _ hMmap =>
      (alike_store h hW hMmap _ _).bind fun _ hMmap =>
      alike_store h hW hMmap _ _

/-- A new file is made anew on both disks. -/
theorem twin_create {slots : List (Id × V)} {Q : SlotFile Id V → S → Disk → Disk → Prop}
    {C : Stop DurabilityError → S → Disk → Disk → Prop} (h : Kept F W d₀ d₀' d d') (hW : path ∈ W)
    (hOk : ∀ f e e', At path f → Kept (insert path F) W d₀ d₀' e e' → Q f s e e')
    (hStop : ∀ x e e', Kept F W d₀ d₀' e e' → C x s e e') :
    twin (create path slots) s d d' Q C := by
  refine twin_bind ((alike_createDirAll (I := fun t => t = s)).twin rfl h
    (fun _ t e e' _ hT hE => ?_) fun x t e e' hT hE => hT ▸ hStop x e e' hE)
  subst hT
  refine twin_bind (twin_createFile hE hW (fun e e' hNew => ?_) hStop)
  have hPath : path ∈ insert path F := Set.mem_insert _ _
  have hRest : Alike (insert path F) W (fun u => u = t) (At path) (do
      Method.setLen .io path (HEADER_LEN + slots.length * slotWidth Id V)
      let mmap ← Method.mapFile .io path
      let mmap ← writeHeader mmap
      let mmap ← writeSlots mmap 0 slots
      Method.sync .io
      return ⟨mmap, path⟩ : Method S DurabilityError (SlotFile Id V)) :=
    (alike_setLen hPath hW _).bind fun _ _ => (alike_mapFile hPath).bind fun _ hMmap =>
      (alike_writeHeader hPath hW hMmap).bind fun _ hMmap =>
        (alike_writeSlots slots 0 hPath hW hMmap).bind fun _ hMmap =>
        alike_sync.bind fun _ _ => alike_pure ⟨rfl, hMmap⟩
  exact hRest.twin rfl hNew (fun f u e e' hAt hU hE => hU ▸ hOk f e e' hAt hE)
    fun x u e e' hU hE => hU ▸ hStop x e e' (hE.mono (Set.subset_insert _ _))

omit [MmapFieldValue Id] [MmapFieldValue V] in
theorem alike_openAt (h : path ∈ F) :
    Alike F W I (At path) (openAt path : Method S DurabilityError (SlotFile Id V)) :=
  (alike_openFile h).bind fun _ _ => (alike_mapFile h).bind fun _ hMmap =>
    Alike.bind (alike_ofExcept fun _ _ => trivial) fun _ _ => alike_pure ⟨rfl, hMmap⟩

theorem alike_appendEachSlot (h : path ∈ F) (hW : path ∈ W) (slots : List (Id × V)) :
    Alike F W I (fun _ => True)
      (appendEachSlot path slots : Method S DurabilityError (List Nat)) := by
  induction slots with
  | nil => exact alike_pure trivial
  | cons slot slots ih =>
    refine Alike.bind (P := fun _ => True) ?_ fun _ _ => ih.bind fun _ _ => alike_pure trivial
    exact (alike_appendAll h hW _).bind fun _ _ => (alike_fileLen h).bind fun _ _ =>
      alike_pure trivial

theorem alike_appendCommittedSlots (h : path ∈ F) (hW : path ∈ W) (slots : List (Id × V)) :
    Alike F W (At path)
    (fun _ => True)
      (appendCommittedSlots slots : Method (SlotFile Id V) DurabilityError (List Nat)) := by
  refine alike_self.bind fun f hF => ?_
  rw [hF.path]
  exact (alike_openFile h).bind fun _ _ => (alike_appendEachSlot h hW slots).bind fun _ _ =>
    (alike_openFile h).bind fun _ _ => (alike_mapFile h).bind fun _ hMmap =>
      (alike_remap hMmap).bind fun _ _ => alike_pure trivial

/-- The slots go to a fresh file that is renamed over the old one. -/
theorem alike_rewrite (h : path ∈ F) (hW : slotWrites path ⊆ W) (slots : List (Id × V)) :
    Alike F W (At path) (fun _ => True)
      (rewrite slots : Method (SlotFile Id V) DurabilityError Unit) := by
  refine alike_self.bind fun f hF => ?_
  rw [hF.path]
  intro g d d' hG hAgree
  have hTempW : path ++ COMPACT_SUFFIX ∈ W := hW (Or.inr rfl)
  refine twin_bind (twin_create (.refl hAgree) hTempW (fun _ e e' _ hNew => ?_) fun _ _ _ hE =>
    ⟨hG, hE⟩)
  have hMore : F ⊆ insert (path ++ COMPACT_SUFFIX) F := Set.subset_insert _ _
  have hTemp : path ++ COMPACT_SUFFIX ∈ insert (path ++ COMPACT_SUFFIX) F := Set.mem_insert _ _
  have hRest : Alike (insert (path ++ COMPACT_SUFFIX) F) W (At path) (fun _ => True) (do
      let placeholder ← Method.mapAnon .io 1
      Method.modifySelf (fun f => { f with mmap := placeholder })
      Method.rename .io (path ++ COMPACT_SUFFIX) path
      Method.openFile .io path
      let mmap ← Method.mapFile .io path
      Method.modifySelf (fun f => { f with mmap := mmap }) :
          Method (SlotFile Id V) DurabilityError Unit) :=
    (alike_mapAnon 1).bind fun _ hNone => (alike_remap hNone).bind fun _ _ =>
      (alike_rename hTemp hTempW (hW (Or.inl rfl))).bind fun _ _ =>
        (alike_openFile (hMore h)).bind fun _ _ =>
        (alike_mapFile (hMore h)).bind fun _ hMmap => alike_remap hMmap
  exact hRest.twin hG hNew (fun _ _ _ _ _ hT hE => ⟨trivial, hT, hE.mono hMore⟩)
    fun _ _ _ _ hT hE => ⟨hT, hE.mono hMore⟩

end SlotFile

/-! ## The store -/

namespace GenericMmapStore

variable [StoredRecord R Id IV SV] [MmapFieldValue Id] [MmapFieldValue SV]
variable [DecidableEq Id] [DecidableEq IV] [Serde R] [Serde Id]

/-- A store of the slot file at `path`. -/
def OfFile (path : Path) (s : GenericMmapStore R Id IV SV) : Prop := SlotFile.At path s.file

/-- The three files of a store. -/
def storeFiles (path : Path) : Set Path :=
  {InsertLog.logPath path, path, GenericRecordBlob.blobPath path}

/-- What a store writes. -/
def storeWrites (path : Path) : Set Path :=
  InsertLog.logWrites (InsertLog.logPath path) ∪ SlotFile.slotWrites path ∪
    MultimodalDb.blobWrites (GenericRecordBlob.blobPath path)

/-- Two disks share the store's files, and a program may write them. -/
structure Shares (path : Path) (F W : Set Path) : Prop where
  files : storeFiles path ⊆ F
  writes : storeWrites path ⊆ W

namespace Shares

variable (h : Shares path F W)
include h

theorem log : InsertLog.logPath path ∈ F := h.files (Or.inl rfl)

theorem slots : path ∈ F := h.files (Or.inr (Or.inl rfl))

theorem blob : GenericRecordBlob.blobPath path ∈ F := h.files (Or.inr (Or.inr rfl))

theorem logWrites : InsertLog.logWrites (InsertLog.logPath path) ⊆ W :=
  fun _ hP => h.writes (Or.inl (Or.inl hP))

theorem slotWrites : SlotFile.slotWrites path ⊆ W := fun _ hP => h.writes (Or.inl (Or.inr hP))

theorem slotsWrite : path ∈ W := h.slotWrites (Or.inl rfl)

theorem blobWrites : MultimodalDb.blobWrites (GenericRecordBlob.blobPath path) ⊆ W :=
  fun _ hP => h.writes (Or.inr hP)

end Shares

omit [StoredRecord R Id IV SV] [MmapFieldValue Id] [MmapFieldValue SV] [DecidableEq Id]
  [DecidableEq IV] [Serde R] [Serde Id] in
theorem alike_onFile {ε α : Type} {P : α → Prop} {m : Method (SlotFile Id SV) ε α}
    (h : Alike F W (SlotFile.At path) P m) :
    Alike F W (OfFile path : GenericMmapStore R Id IV SV → Prop) P (onFile m) :=
  h.onPart (fun _ hS => hS) fun _ _ _ hT => hT

omit [StoredRecord R Id IV SV] [MmapFieldValue Id] [MmapFieldValue SV] [DecidableEq Id]
  [DecidableEq IV] [Serde R] [Serde Id] in
theorem OfFile.path_eq {s : GenericMmapStore R Id IV SV} (h : OfFile path s) : s.file.path = path :=
  SlotFile.At.path h

theorem alike_insert (h : Shares path F W) (record : R) : Alike F W (OfFile path) (fun _ => True)
    (insert record : Method (GenericMmapStore R Id IV SV) (InsertError Id) Unit) := by
  refine Alike.bind (P := fun _ => True) (alike_self.bind fun s hS => ?_) fun _ _ => ?_
  · rw [hS.path_eq]
    split
    · exact alike_fail _
    · exact (InsertLog.alike_append h.log h.logWrites (.item record : LogEntry R Id)).mapError
  · refine (alike_onFile (SlotFile.alike_appendCommittedSlots h.slots h.slotsWrite _)).mapError.bind
      fun positions _ => ?_
    split
    · exact alike_fail _
    · exact alike_modifySelf fun _ hT => hT

theorem alike_replace (h : Shares path F W) (record : R) : Alike F W (OfFile path) (fun _ => True)
    (replace record : Method (GenericMmapStore R Id IV SV) (ReplaceError Id) Unit) := by
  refine alike_self.bind fun s hS => ?_
  rw [hS.path_eq]
  split
  · exact (InsertLog.alike_append h.log h.logWrites (.item record : LogEntry R Id)).mapError.bind
      fun _ _ =>
      (alike_onFile (SlotFile.alike_storeAt h.slots h.slotsWrite _ _)).bind fun _ _ =>
        alike_modifySelf fun _ hT => hT
  · exact alike_fail _

theorem alike_delete (h : Shares path F W) (key : Id) : Alike F W (OfFile path) (fun _ => True)
    (delete key : Method (GenericMmapStore R Id IV SV) (DeleteError Id) Unit) := by
  refine Alike.bind (P := fun _ => True) (alike_self.bind fun s hS => ?_) fun _ _ => ?_
  · rw [hS.path_eq]
    split
    · exact (InsertLog.alike_append h.log h.logWrites
        (.tombstone key : LogEntry R Id)).mapError.bind fun _ _ =>
        alike_pure trivial
    · exact alike_fail _
  · exact (alike_onFile (SlotFile.alike_storeAt h.slots h.slotsWrite _ _)).bind fun _ _ =>
      alike_modifySelf fun _ hT => hT

omit [StoredRecord R Id IV SV] [DecidableEq IV] [Serde R] [Serde Id] in
theorem alike_update (h : Shares path F W) (key : Id) (value : SV) :
    Alike F W (OfFile path) (fun _ => True)
    (update key value : Method (GenericMmapStore R Id IV SV) (NotFound Id) Unit) := by
  refine alike_self.bind fun s _ => ?_
  split
  · exact alike_onFile (SlotFile.alike_storeAt h.slots h.slotsWrite _ _)
  · exact alike_fail _

omit [DecidableEq IV] in
theorem alike_compact (h : Shares path F W) : Alike F W (OfFile path) (fun _ => True)
    (compact : Method (GenericMmapStore R Id IV SV) DurabilityError CompactionReport) := by
  have hBlob : Alike F W (OfFile path) (fun _ => True)
      (compactBlob : Method (GenericMmapStore R Id IV SV) DurabilityError
        (List R × Nat × Nat)) := by
    refine alike_self.bind fun s hS => ?_
    rw [hS.path_eq]
    exact (InsertLog.alike_readEntries h.log).bind fun _ _ => (alike_checked _).bind fun _ _ =>
      (alike_checked _).bind fun _ _ => Alike.bind (alike_ofExcept fun _ _ => trivial) fun _ _ =>
        (RecordBlob.alike_write _ h.blobWrites).bind fun _ _ => alike_pure trivial
  refine hBlob.bind fun r _ => ?_
  refine Alike.bind (P := fun _ => True) ?_ fun _ _ => ?_
  · refine (alike_onFile (SlotFile.alike_rewrite h.slots h.slotWrites _)).bind fun _ _ =>
      alike_self.bind fun s hS => ?_
    rw [hS.path_eq]
    exact (InsertLog.alike_clear h.log (h.logWrites (Or.inl rfl))).bind fun _ _ =>
      alike_modifySelf fun _ hT => hT
  · split
    · exact alike_pure trivial
    · exact alike_panic

theorem alike_openStore (records : List R) (h : Shares path F W) : Alike F W I (OfFile path)
    (openStore records path : Method S DurabilityError (GenericMmapStore R Id IV SV)) := by
  refine (InsertLog.alike_readEntries h.log).bind fun logged _ => ?_
  refine Alike.bind (P := fun _ => True) ?_ fun stale _ => ?_
  · refine (GenericRecordBlob.format.alike_isCurrentAt h.blob _).bind fun current _ => ?_
    split
    · exact alike_pure trivial
    · exact Alike.bind (P := fun _ => True) (alike_ofExcept fun _ _ => trivial) fun _ _ =>
        alike_pure trivial
  · refine (SlotFile.alike_openAt h.slots).bind fun file hFile => ?_
    refine Alike.bind (P := fun r => SlotFile.At path r.1) ?_ fun r hR => ?_
    · refine (alike_checked _).bind fun persisted _ => ?_
      dsimp only
      split
      · exact alike_pure hFile
      · exact ((SlotFile.alike_appendCommittedSlots h.slots h.slotsWrite _).runOn hFile).bind
          fun _ h => alike_pure h.2
    · have hClear : Alike F W I (OfFile path) (do
          InsertLog.clear (InsertLog.logPath path)
          return ⟨recordMap (mergeLog records logged),
            buildIndex (mergeLog records logged), r.2, r.1⟩ :
          Method S DurabilityError (GenericMmapStore R Id IV SV)) :=
        (InsertLog.alike_clear h.log (h.logWrites (Or.inl rfl))).bind fun _ _ => alike_pure hR
      cases stale with
      | none => exact hClear
      | some image => exact (RecordBlob.alike_write image h.blobWrites).bind fun _ _ => hClear

theorem alike_openPortable (h : Shares path F W) : Alike F W I (OfFile path)
    (openPortable path : Method S DurabilityError (GenericMmapStore R Id IV SV)) := by
  refine Alike.bind (P := fun _ => True) ?_ fun records _ => alike_openStore records h
  exact (GenericRecordBlob.format.alike_read h.blob).bind fun _ _ =>
    (InsertLog.alike_readEntries h.log).bind fun _ _ => alike_pure trivial

omit [Serde Id] in
/-- **A store created on two disks.** Nothing is read, and the disks agree on its files afterwards.
-/
theorem twin_create {records : List R} {Q : GenericMmapStore R Id IV SV → S → Disk → Disk → Prop}
    {C : Stop DurabilityError → S → Disk → Disk → Prop} (h : Kept F W d₀ d₀' d d')
    (hW : storeWrites path ⊆ W)
    (hOk : ∀ t e e', OfFile path t → Kept (F ∪ storeFiles path) W d₀ d₀' e e' → Q t s e e')
    (hStop : ∀ x e e', Kept F W d₀ d₀' e e' → C x s e e') :
    twin (create records path) s d d' Q C := by
  have hLogW : InsertLog.logPath path ∈ W := hW (Or.inl (Or.inl (Or.inl rfl)))
  have hSlotsW : path ∈ W := hW (Or.inl (Or.inr (Or.inl rfl)))
  refine twin_bind (twin_ofExcept (fun encoded _ => ?_) fun e _ => hStop _ _ _ h)
  refine twin_bind (twin_removeIfPresent h hLogW (fun e₁ e₁' hLog => ?_) hStop)
  have hFirst : F ⊆ Insert.insert (InsertLog.logPath path) F := Set.subset_insert _ _
  refine twin_bind (SlotFile.twin_create hLog hSlotsW (fun file e₂ e₂' hFile hSlots => ?_)
    fun x e e' hE =>
    hStop x e e' (hE.mono hFirst))
  refine twin_bind (RecordBlob.twin_write hSlots (fun _ hP => hW (Or.inr hP)) (fun e₃ e₃' hAll =>
    twin_pure ?_) fun x e e' hE => hStop x e e' (hE.mono (hFirst.trans (Set.subset_insert _ _))))
  refine hOk _ e₃ e₃' hFile (hAll.mono ?_)
  rintro p (hP | rfl | rfl | rfl)
  · exact Or.inr (Or.inr (Or.inr hP))
  · exact Or.inr (Or.inr (Or.inl rfl))
  · exact Or.inr (Or.inl rfl)
  · exact Or.inl rfl

end GenericMmapStore

end MultimodalDb
