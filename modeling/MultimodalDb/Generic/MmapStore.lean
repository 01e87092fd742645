import MultimodalDb.Generic.InsertLog
import MultimodalDb.Generic.SlotFile
import Mathlib.Data.List.Sort

/-!
# The generic durable store

The store owns a record map, one equality index and one scannable field. Three files hold it: the
record blob with the record set the store was last built from, the insert log with what was
inserted, replaced and deleted since, and the slot file with the current scannable value of each
record.

Reopening puts the three together: the log is folded over the given records, every record is matched
by id with its last committed slot, and a record without one gets a slot appended.

The maps are association lists. Their order stands for the iteration order of a hash map, which
nothing here may depend on. Insert, delete and compact are written as the durable steps they are
made of, one definition for each, so that a crash between two steps can be spoken of.
-/

namespace MultimodalDb

open StoredRecord hiding id
open StoredRecord renaming id → idOf

inductive InsertError (K : Type) where
  | duplicate (id : K)
  | durability (e : DurabilityError)
  deriving DecidableEq

inductive ReplaceError (K : Type) where
  | notFound (id : K)
  | durability (e : DurabilityError)
  deriving DecidableEq

inductive DeleteError (K : Type) where
  | notFound (id : K)
  | durability (e : DurabilityError)
  deriving DecidableEq

structure NotFound (K : Type) where
  id : K
  deriving DecidableEq

/-- What one compaction reclaimed. -/
structure CompactionReport where
  records : Nat
  slotsReclaimed : Nat
  logEntriesFolded : Nat
  edgeLogsFolded : Nat
  deriving DecidableEq

structure GenericMmapStore (R Id IV SV : Type) where
  records : AList (fun _ : Id => R)
  index : AList (fun _ : IV => List Id)
  positionIndex : AList (fun _ : Id => Nat)
  file : SlotFile Id SV

namespace GenericMmapStore

variable {R Id IV SV S : Type} [StoredRecord R Id IV SV] [MmapFieldValue Id] [MmapFieldValue SV]
variable [DecidableEq Id] [DecidableEq IV] [Serde R] [Serde Id]

/-! ## The index and the position map -/

/-- `entry(value).or_default().push(id)`. -/
def pushId (index : AList (fun _ : IV => List Id)) (value : IV) (id : Id) :
    AList (fun _ : IV => List Id) :=
  index.insert value ((index.lookup value).getD [] ++ [id])

/-- Drop an id from its bucket, and the bucket when that leaves it empty. -/
def dropId (index : AList (fun _ : IV => List Id)) (value : IV) (id : Id) :
    AList (fun _ : IV => List Id) :=
  match index.lookup value with
  | none => index
  | some bucket =>
    let rest := bucket.filter (· ≠ id)
    if rest.isEmpty then index.erase value else index.insert value rest

def recordMap (records : List R) : AList (fun _ : Id => R) :=
  records.foldl (fun m record => m.insert (idOf record) record) ∅

def buildIndex (records : List R) : AList (fun _ : IV => List Id) :=
  records.foldl (fun index record => pushId index (indexedValue record) (idOf record)) ∅

/-- Each record's place in the list, counted from `start`; a later record of one id wins. -/
def placesFrom (start : Nat) (records : List R) : AList (fun _ : Id => Nat) :=
  (records.zipIdx start).foldl (fun places (record, i) => places.insert (idOf record) i) ∅

/-! ## Folding the log -/

/-- The places after the one at `i` move down by one. -/
def shiftPlaces (i : Nat) (places : AList (fun _ : Id => Nat)) : AList (fun _ : Id => Nat) where
  entries := places.entries.map (fun e => ⟨e.1, if i < e.2 then e.2 - 1 else e.2⟩)
  nodupKeys := by
    have hKeys : (places.entries.map (fun e : (_ : Id) × Nat =>
        (⟨e.1, if i < e.2 then e.2 - 1 else e.2⟩ : (_ : Id) × Nat))).keys =
            places.entries.keys := by
      simp [List.keys, Function.comp_def]
    rw [List.NodupKeys, hKeys]
    exact places.nodupKeys

/-- Apply one log entry to the records and the map of their places. -/
def mergeEntry : List R × AList (fun _ : Id => Nat) → LogEntry R Id →
    List R × AList (fun _ : Id => Nat)
  | (records, positionOf), .item record =>
    match positionOf.lookup (idOf record) with
    | some i => (records.set i record, positionOf)
    | none => (records ++ [record], positionOf.insert (idOf record) records.length)
  | (records, positionOf), .tombstone key =>
    match positionOf.lookup key with
    | some i => (records.eraseIdx i, shiftPlaces i (positionOf.erase key))
    | none => (records, positionOf)

/-- The records with every logged entry applied in log order. -/
def mergeLog (records : List R) (logged : List (LogEntry R Id)) : List R :=
  if logged.isEmpty then records
  else (logged.foldl mergeEntry (records, placesFrom 0 records)).1

/-! ## Creating and opening -/

/-- The id and the scannable value of each record, as a slot holds them. -/
def slotPairs (records : List R) : List (Id × SV) :=
  records.map (fun record => (idOf record, scannableValue record))

/-- Build fresh files holding these records. -/
def create (records : List R) (path : Path) :
    Method S DurabilityError (GenericMmapStore R Id IV SV) := do
  let encodedBlob ← Method.ofExcept (GenericRecordBlob.encode (SCHEMA_TAG R) records)
  InsertLog.clear (InsertLog.logPath path)
  let file ← SlotFile.create path (slotPairs records)
  RecordBlob.write encodedBlob (GenericRecordBlob.blobPath path)
  return ⟨recordMap records, buildIndex records, placesFrom 0 records, file⟩

/-- The position of every record that has a committed slot. -/
def foundPositions (persisted : AList (fun _ : Id => Nat × SV)) (records : List R) :
    AList (fun _ : Id => Nat) :=
  records.foldl (fun positions record =>
    match persisted.lookup (idOf record) with
    | some (position, _) => positions.insert (idOf record) position
    | none => positions) ∅

/-- The records that have no committed slot. -/
def missingRecords (persisted : AList (fun _ : Id => Nat × SV)) (records : List R) : List R :=
  records.filter (fun record => (persisted.lookup (idOf record)).isNone)

/-- Give every record a slot: the last committed one of its id, or a new one. -/
def reconcile (file : SlotFile Id SV) (records : List R) :
    Method S DurabilityError (SlotFile Id SV × AList (fun _ : Id => Nat)) := do
  let persisted ← Method.checked (SlotFile.committedPairs file)
  let found := foundPositions persisted records
  let missing := missingRecords persisted records
  if missing.isEmpty then
    return (file, found)
  else
    let (positions, file) ← Method.runOn file (SlotFile.appendCommittedSlots (slotPairs missing))
    return (file, (missing.zip positions).foldl
      (fun index (record, position) => index.insert (idOf record) position) found)

/-- The blob to install once the store is open, when the one on disk is not current. -/
def staleBlob (records : List R) (companion : Path) : Method S DurabilityError (Option Bytes) := do
  let current ← GenericRecordBlob.isCurrentAt (SCHEMA_TAG R) records companion
  if current then
    return none
  else
    let image ← Method.ofExcept (GenericRecordBlob.encode (SCHEMA_TAG R) records)
    return some image

/-- `open` behind the fold of the log: match slots by id, bring the blob up to date, and only then
remove the log. -/
def openFolded (records : List R) (path : Path) :
    Method S DurabilityError (GenericMmapStore R Id IV SV) := do
  let stale ← staleBlob records (GenericRecordBlob.blobPath path)
  let file ← SlotFile.openAt path
  let (file, positionIndex) ← reconcile file records
  match stale with
  | some image => RecordBlob.write image (GenericRecordBlob.blobPath path)
  | none => pure ()
  InsertLog.clear (InsertLog.logPath path)
  return ⟨recordMap records, buildIndex records, positionIndex, file⟩

/-- Reopen the files at `path` over these records, with the log folded in first. -/
def openStore (records : List R) (path : Path) :
    Method S DurabilityError (GenericMmapStore R Id IV SV) := do
  let logged ← InsertLog.readEntries (InsertLog.logPath path) (SCHEMA_TAG R)
  openFolded (mergeLog records logged) path

/-- The record set the blob and the log hold. -/
def readPortableRecords (path : Path) : Method S DurabilityError (List R) := do
  let persisted ← GenericRecordBlob.read (SCHEMA_TAG R) (GenericRecordBlob.blobPath path)
  let logged ← InsertLog.readEntries (InsertLog.logPath path) (SCHEMA_TAG R)
  return mergeLog persisted logged

/-- Reopen a store from its files alone. -/
def openPortable (path : Path) : Method S DurabilityError (GenericMmapStore R Id IV SV) := do
  let records ← readPortableRecords path
  openStore records path

/-! ## Reading -/

def get (s : GenericMmapStore R Id IV SV) (key : Id) : Except Panic (Option R) :=
  match s.records.lookup key with
  | none => .ok none
  | some record =>
    match s.positionIndex.lookup key with
    | none => .ok none
    | some position => do
      let value ← SlotFile.readValue s.file position
      return some (setScannableValue value record)

def allIds (s : GenericMmapStore R Id IV SV) : List Id := s.records.keys

def filterEq (s : GenericMmapStore R Id IV SV) (value : IV) : List Id :=
  (s.index.lookup value).getD []

def isGapless (s : GenericMmapStore R Id IV SV) : Except Panic Bool :=
  SlotFile.isGapless s.file s.positionIndex.entries.length

/-- Every scannable value: the whole file when every slot is live, else live slot by live slot. -/
def scan (s : GenericMmapStore R Id IV SV) : Except Panic (List SV) := do
  let gapless ← isGapless s
  if gapless then
    let bytes ← SlotFile.slotBytes s.file
    return (Column.chunksExact (SlotFile.slotWidth Id SV) bytes).map (fun slot =>
      MmapFieldValue.readLe (Bytes.slice slot (SlotFile.idWidth Id) (SlotFile.valueWidth SV)))
  else
    let positions := (s.positionIndex.entries.map (·.2)).insertionSort (· ≤ ·)
    positions.mapM (SlotFile.readValue s.file)

/-! ## Writing -/

def setFile (file : SlotFile Id SV) (s : GenericMmapStore R Id IV SV) :
    GenericMmapStore R Id IV SV :=
  { s with file := file }

/-- Run a method of the slot file. -/
def onFile {ε α : Type} (m : Method (SlotFile Id SV) ε α) :
    Method (GenericMmapStore R Id IV SV) ε α :=
  Method.onPart GenericMmapStore.file setFile m

/-- The first durable step of an insert: the log entry. -/
def insertEntry (record : R) : Method (GenericMmapStore R Id IV SV) (InsertError Id) Unit := do
  let s ← Method.self
  if idOf record ∈ s.records then
    Method.fail (.duplicate (idOf record))
  else
    Method.mapError .durability
      (InsertLog.appendItem (InsertLog.logPath s.file.path) (SCHEMA_TAG R) record)

/-- The second: the slot, and with it the record in the maps. -/
def insertSlot (record : R) : Method (GenericMmapStore R Id IV SV) (InsertError Id) Unit := do
  let positions ← Method.mapError .durability
    (onFile (SlotFile.appendCommittedSlots [(idOf record, scannableValue record)]))
  match positions.head? with
  | none => Method.fail (.durability (.io .other))
  | some position =>
    Method.modifySelf (fun s => { s with
      index := pushId s.index (indexedValue record) (idOf record)
      positionIndex := s.positionIndex.insert (idOf record) position
      records := s.records.insert (idOf record) record })

/-- Add one record. -/
def insert (record : R) : Method (GenericMmapStore R Id IV SV) (InsertError Id) Unit := do
  insertEntry record
  insertSlot record

/-- Replace one record whole. -/
def replace (record : R) : Method (GenericMmapStore R Id IV SV) (ReplaceError Id) Unit := do
  let s ← Method.self
  match s.records.lookup (idOf record), s.positionIndex.lookup (idOf record) with
  | some old, some position =>
    Method.mapError .durability
      (InsertLog.appendItem (InsertLog.logPath s.file.path) (SCHEMA_TAG R) record)
    onFile (SlotFile.writeValue position (scannableValue record))
    Method.modifySelf (fun s => { s with
      index :=
        if indexedValue old ≠ indexedValue record then
          pushId (dropId s.index (indexedValue old) (idOf record)) (indexedValue record)
            (idOf record)
        else s.index
      records := s.records.insert (idOf record) record })
  | _, _ => Method.fail (.notFound (idOf record))

/-- The first durable step of a delete: the tombstone. -/
def deleteEntry (key : Id) : Method (GenericMmapStore R Id IV SV) (DeleteError Id) (R × Nat) := do
  let s ← Method.self
  match s.records.lookup key, s.positionIndex.lookup key with
  | some record, some position =>
    Method.mapError .durability
      (InsertLog.appendTombstone (InsertLog.logPath s.file.path) (SCHEMA_TAG R) key)
    return (record, position)
  | _, _ => Method.fail (.notFound key)

/-- The second: the slot's marker, and with it the record leaves the maps. -/
def deleteSlot (key : Id) (record : R) (position : Nat) :
    Method (GenericMmapStore R Id IV SV) (DeleteError Id) Unit := do
  onFile (SlotFile.clearMarker position)
  Method.modifySelf (fun s => { s with
    index := dropId s.index (indexedValue record) key
    positionIndex := s.positionIndex.erase key
    records := s.records.erase key })

/-- Remove one record. -/
def delete (key : Id) : Method (GenericMmapStore R Id IV SV) (DeleteError Id) Unit := do
  let (record, position) ← deleteEntry key
  deleteSlot key record position

/-- Overwrite the scannable value of one record. -/
def update (key : Id) (value : SV) : Method (GenericMmapStore R Id IV SV) (NotFound Id) Unit := do
  let s ← Method.self
  match s.positionIndex.lookup key with
  | some position => onFile (SlotFile.writeValue position value)
  | none => Method.fail ⟨key⟩

/-- The live records in position order, each carrying its slot's value. -/
def orderedRecords (s : GenericMmapStore R Id IV SV) : Except Panic (List R) :=
  let ordered := (s.positionIndex.entries.map (fun e => (e.2, e.1))).insertionSort
    (fun a b => a.1 ≤ b.1)
  ordered.mapM (fun (position, key) =>
    match s.records.lookup key with
    | none => .error .missingKey
    | some record => do
      let value ← SlotFile.readValue s.file position
      return setScannableValue value record)

/-- The first durable step of a compaction: the blob. It also says what the later steps need: the
records, the slots there were, the log entries folded. -/
def compactBlob :
    Method (GenericMmapStore R Id IV SV) DurabilityError (List R × Nat × Nat) := do
  let s ← Method.self
  let logged : List (LogEntry R Id) ←
    InsertLog.readEntries (InsertLog.logPath s.file.path) (SCHEMA_TAG R)
  let records ← Method.checked (orderedRecords s)
  let slotsBefore ← Method.checked (SlotFile.slotCount s.file)
  let image ← Method.ofExcept (GenericRecordBlob.encode (SCHEMA_TAG R) records)
  RecordBlob.write image (GenericRecordBlob.blobPath s.file.path)
  return (records, slotsBefore, logged.length)

/-- The second: the slot file. -/
def compactSlots (records : List R) : Method (GenericMmapStore R Id IV SV) DurabilityError Unit :=
  onFile (SlotFile.rewrite (slotPairs records))

/-- The third: the log is removed, and the positions are those of the new file. -/
def compactLog (records : List R) : Method (GenericMmapStore R Id IV SV) DurabilityError Unit := do
  let s ← Method.self
  InsertLog.clear (InsertLog.logPath s.file.path)
  Method.modifySelf (fun s => { s with positionIndex := placesFrom 0 records })

/-- The steps of a compaction behind the blob. -/
def compactRest (records : List R) : Method (GenericMmapStore R Id IV SV) DurabilityError Unit := do
  compactSlots records
  compactLog records

/-- Rewrite the blob from the live records, then the slot file without gaps, then remove the log. -/
def compact : Method (GenericMmapStore R Id IV SV) DurabilityError CompactionReport := do
  let (records, slotsBefore, folded) ← compactBlob
  compactRest records
  if records.length ≤ slotsBefore then
    return ⟨records.length, slotsBefore - records.length, folded, 0⟩
  else
    Method.panic

end GenericMmapStore

end MultimodalDb
