import MultimodalDb.Durability.AgeColumns
import MultimodalDb.Durability.DogBlob
import Mathlib.Data.List.Sort

/-!
# The dog store

The dogs, the ids of each breed and the littermates of each dog are in memory, and the ages are in a
mapped file. Where an id has its age in the file is looked up by id. Opening matches the records it
is given with the ids of the file: with all of them there the file is mapped as it is, with ids that
are no longer asked for still in it; otherwise it is written anew, in the order of the records.

The production store is this one behind a lock, with a record blob beside the file so that it can be
opened from its files alone.
-/

namespace MultimodalDb

open Bytes MapPairs

structure MmapAgeStore where
  records : AList (fun _ : Uuid => DogRecord)
  breedIndex : AList (fun _ : String => List Uuid)
  adjacencyIndex : AList (fun _ : Uuid => List Uuid)
  positionIndex : AList (fun _ : Uuid => Nat)
  mmap : Mapping

namespace MmapAgeStore

variable {S : Type}

/-! ## Reading -/

def recordCount (s : MmapAgeStore) : Except Panic Nat := recordCountFor s.mmap.bytes.length

def ids (s : MmapAgeStore) : List Uuid := s.records.keys

def readAge (s : MmapAgeStore) (position : Nat) : Except Panic UInt32 := do
  let count ← s.recordCount
  match window s.mmap.bytes (agesStart count + position * AGE_WIDTH) AGE_WIDTH with
  | some bytes => return toU32 bytes
  | none => .error .outOfBounds

/-- Every record of the file is one of those that are asked for. -/
def isGapless (s : MmapAgeStore) : Except Panic Bool := do
  let count ← s.recordCount
  return s.positionIndex.entries.length = count

def get (s : MmapAgeStore) (id : Uuid) : Except Panic (Option DogRecord) :=
  match s.records.lookup id with
  | none => .ok none
  | some record =>
    match s.positionIndex.lookup id with
    | none => .ok none
    | some position => do
      let age ← s.readAge position
      return some ⟨record.id, record.breed, age⟩

/-- The whole age column at once. -/
def bulkAges (s : MmapAgeStore) : Except Panic (List UInt32) := do
  let count ← s.recordCount
  match window s.mmap.bytes (agesStart count) (count * AGE_WIDTH) with
  | some bytes => return (Column.chunksExact AGE_WIDTH bytes).map toU32
  | none => .error .outOfBounds

/-- The ages at the positions of the records, in the order of the file. -/
def walkAges (s : MmapAgeStore) : Except Panic (List UInt32) :=
  ((MapPairs.pairs s.positionIndex).map (·.2)).insertionSort (· ≤ ·) |>.mapM s.readAge

def scanAges (s : MmapAgeStore) : Except Panic (List UInt32) := do
  let gapless ← s.isGapless
  if gapless then s.bulkAges else s.walkAges

def sameBreed (s : MmapAgeStore) (id : Uuid) : List Uuid :=
  match s.records.lookup id with
  | none => []
  | some target => ((s.breedIndex.lookup target.breed).getD []).filter (· ≠ id)

def neighbors (s : MmapAgeStore) (id : Uuid) : List Uuid := (s.adjacencyIndex.lookup id).getD []

/-! ## Writing -/

def writeAge {ε : Type} (position : Nat) (age : UInt32) : Method MmapAgeStore ε Unit := do
  let s ← Method.self
  let count ← Method.checked s.recordCount
  let mmap ← Method.store s.mmap (agesStart count + position * AGE_WIDTH) (ofU32 age)
  Method.modifySelf fun s => { s with mmap := mmap }

def updateAge (id : Uuid) (age : UInt32) : Method MmapAgeStore StoreError Unit := do
  let s ← Method.self
  match s.positionIndex.lookup id with
  | none => Method.fail (.notFound id)
  | some position => writeAge position age

/-! ## Creating and opening -/

/-- Write a file over whatever was there, and map it. -/
def writeFresh (entries : List (Uuid × UInt32)) (path : Path) :
    Method S DurabilityError Mapping := do
  Method.createDirAll DurabilityError.io path
  Method.createFile .io path
  Method.appendAll .io path (buildImage entries)
  Method.sync .io
  Method.mapFile .io path

/-- Stage a file beside the one there is, rename it over that, and map it. -/
def writeViaRename (entries : List (Uuid × UInt32)) (path : Path) :
    Method S DurabilityError Mapping := do
  RecordBlob.write (buildImage entries) path
  Method.openFile .io path
  Method.mapFile .io path

/-- Each id by its place in a list. -/
def places (entries : List (Uuid × UInt32)) : AList (fun _ : Uuid => Nat) :=
  fill (entries.zipIdx.map fun p => (p.1.1, p.2))

def create (records : List DogRecord) (edges : List (Uuid × Uuid)) (path : Path) :
    Method S DurabilityError MmapAgeStore := do
  let entries := records.map fun r => (r.id, r.age)
  let mmap ← writeFresh entries path
  return ⟨DogRecord.byId records, DogRecord.byBreed records, DogRecord.adjacency edges,
    places entries, mmap⟩

/-- The age of each record: the one in the file, else its own. -/
def reconciled (persisted : AList (fun _ : Uuid => Nat × UInt32)) (records : List DogRecord) :
    List (Uuid × UInt32) :=
  records.map fun r => (r.id, (persisted.lookup r.id).elim r.age (·.2))

/-- Where the file has a record. -/
def foundPlace (persisted : AList (fun _ : Uuid => Nat × UInt32)) (r : DogRecord) :
    Except Panic (Uuid × Nat) :=
  match persisted.lookup r.id with
  | some (position, _) => .ok (r.id, position)
  | none => .error .missingKey

def foundPlaces (persisted : AList (fun _ : Uuid => Nat × UInt32)) (records : List DogRecord) :
    Except Panic (AList (fun _ : Uuid => Nat)) := do
  let found ← records.mapM (foundPlace persisted)
  return fill found

/-- Map the file as it is, or write it anew where one of the records has no age in it. -/
def reconcile (persisted : AList (fun _ : Uuid => Nat × UInt32)) (records : List DogRecord)
    (path : Path) :
    Method S DurabilityError (Mapping × AList (fun _ : Uuid => Nat)) :=
  if records.any fun r => (persisted.lookup r.id).isNone then do
    let mmap ← writeViaRename (reconciled persisted records) path
    return (mmap, places (reconciled persisted records))
  else do
    let mmap ← Method.mapFile .io path
    let positionIndex ← Method.checked (foundPlaces persisted records)
    return (mmap, positionIndex)

def openStore (records : List DogRecord) (edges : List (Uuid × Uuid)) (path : Path) :
    Method S DurabilityError MmapAgeStore := do
  Method.openFile DurabilityError.io path
  let file ← Method.mapFile .io path
  Method.ofExcept (readHeader file.bytes)
  let persisted ← Method.checked (persistedPairs file.bytes)
  let (mmap, positionIndex) ← reconcile persisted records path
  return ⟨DogRecord.byId records, DogRecord.byBreed records, DogRecord.adjacency edges,
    positionIndex, mmap⟩

end MmapAgeStore

/-! ## The production store -/

/-- The store behind its lock. -/
abbrev ProductionStore : Type := MmapAgeStore

namespace ProductionStore

open RecordBlob

variable {S : Type}

def create (records : List DogRecord) (edges : List (Uuid × Uuid)) (path : Path) :
    Method S DurabilityError ProductionStore := do
  let encoded ← Method.ofExcept (DogBlob.encode ⟨records, edges⟩)
  let inner ← MmapAgeStore.create records edges path
  RecordBlob.write encoded (companionPath path)
  return inner

/-- The blob to install once the store is open, when the one on disk is not current. -/
def replacement (blob : DogBlob) (path : Path) : Method S DurabilityError (Option Bytes) := do
  let current ← blob.isCurrentAt (companionPath path)
  if current then
    return none
  else
    let encoded ← Method.ofExcept blob.encode
    return some encoded

def openStore (records : List DogRecord) (edges : List (Uuid × Uuid)) (path : Path) :
    Method S DurabilityError ProductionStore := do
  let encoded ← replacement ⟨records, edges⟩ path
  let inner ← MmapAgeStore.openStore records edges path
  match encoded with
  | some image => RecordBlob.write image (companionPath path)
  | none => pure ()
  return inner

/-- Open a store from its files alone. -/
def openPortable (path : Path) : Method S DurabilityError ProductionStore := do
  let blob ← DogBlob.read (companionPath path)
  MmapAgeStore.openStore blob.records blob.edges path

end ProductionStore

end MultimodalDb
