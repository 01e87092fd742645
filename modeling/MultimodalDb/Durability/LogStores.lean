import MultimodalDb.Durability.CanonicalCached
import MultimodalDb.Durability.Wal
import Mathlib.Data.List.Sort

/-!
# The variants that keep a log

Four stores append every update to a log before they make it. `WalFsyncStore` and `WalBufferedStore`
differ in one call: a checkpoint of theirs writes the state to a base file and empties the log.
`HybridStore` writes its state with the number of the last update in it and never empties the log.
`LsmStore` keeps the updates in a table of its own, and a flush moves the table to a numbered file.

Opening takes the dogs and the edges from its caller again. Only what was changed since is on disk.
Sequence numbers wrap around, as in a release build.
-/

namespace MultimodalDb

/-- Where a variant keeps its log. -/
def walPath (dir : Path) : Path := dir ++ "/wal.log".toList

namespace CanonicalCachedState

variable {S : Type}

def writeTo (s : CanonicalCachedState) (path : Path) : Method S DurabilityError Unit :=
  match encodeState s with
  | none => Method.fail .serde
  | some bytes => Method.writeFile .io path bytes

def readFrom (path : Path) : Method S DurabilityError CanonicalCachedState := do
  let bytes ← Method.readFile .io path
  match decodeState bytes with
  | none => Method.fail .serde
  | some s => return s

/-- Replay one entry on a state. -/
def replayEntry (s : CanonicalCachedState) (entry : WalEntry) :
    Method S DurabilityError CanonicalCachedState := do
  let r ← Method.runOn s (Method.mapError DurabilityError.store (updateAge entry.id entry.age))
  return r.2

end CanonicalCachedState

/-! ## The two write-ahead logs -/

/-- The state, where its base and its log are, and the number of the next update. -/
structure WalStore where
  state : CanonicalCachedState
  basePath : Path
  walPath : Path
  nextSeq : UInt64

namespace WalStore

variable {S : Type}

def basePathIn (dir : Path) : Path := dir ++ "/base.bin".toList

def create (records : List DogRecord) (edges : List (Uuid × Uuid)) (dir : Path) :
    Method S DurabilityError WalStore := do
  Method.createDirAll DurabilityError.io dir
  Method.createFile .io (MultimodalDb.walPath dir)
  return ⟨.new records edges, basePathIn dir, MultimodalDb.walPath dir, 0⟩

/-- The state of the last checkpoint, or a new one. -/
def restore (records : List DogRecord) (edges : List (Uuid × Uuid)) (base : Path) :
    Method S DurabilityError CanonicalCachedState := do
  let present ← Method.fileExists base
  if present then CanonicalCachedState.readFrom base else return .new records edges

/-- Replay a log, and number on behind it. -/
def replay : CanonicalCachedState × UInt64 → List WalEntry →
  Method S DurabilityError (CanonicalCachedState × UInt64)
  | acc, [] => return acc
  | acc, entry :: entries => do
    let state ← acc.1.replayEntry entry
    replay (state, entry.seq + 1) entries

def openStore (records : List DogRecord) (edges : List (Uuid × Uuid)) (dir : Path) :
    Method S DurabilityError WalStore := do
  Method.createDirAll DurabilityError.io dir
  let state ← restore records edges (basePathIn dir)
  let entries ← Wal.readWalEntries (MultimodalDb.walPath dir)
  let replayed ← replay (state, 0) entries
  Method.openOrCreate .io (MultimodalDb.walPath dir)
  return ⟨replayed.1, basePathIn dir, MultimodalDb.walPath dir, replayed.2⟩

def checkpoint : Method WalStore DurabilityError Unit := do
  let s ← Method.self
  s.state.writeTo s.basePath
  Method.createFile .io s.walPath

/-- Log an update, on the disk itself where `fsync` says so, and make it. -/
def updateAge (fsync : Bool) (id : Uuid) (age : UInt32) : Method WalStore StoreError Unit := do
  let s ← Method.self
  Method.mapError .ofDurability (Wal.appendWalEntry s.walPath ⟨s.nextSeq, id, age⟩)
  if fsync then
    Method.mapError .ofDurability (Method.sync DurabilityError.io)
  Method.modifySelf fun s => { s with nextSeq := s.nextSeq + 1 }
  Method.onPart (·.state) (fun state s => { s with state := state })
    (CanonicalCachedState.updateAge id age)

end WalStore

/-! ## The snapshot with a log -/

structure HybridStore where
  state : CanonicalCachedState
  snapshotPath : Path
  walFile : Path
  nextSeq : UInt64

namespace HybridStore

variable {S : Type}

def snapshotPathIn (dir : Path) : Path := dir ++ "/snapshot.bin".toList

/-- A state with the number of the last update in it. -/
abbrev HybridSnapshot : Type := Option UInt64 × CanonicalCachedState

def encodeSnapshot (snapshot : HybridSnapshot) : Option Bytes :=
  Codec.encode (snapshot.1, snapshot.2.written)

def decodeSnapshot (bytes : Bytes) : Option HybridSnapshot :=
  (Codec.decode bytes : Option (Option UInt64 × CanonicalCachedState.Written)).map fun p =>
    (p.1, CanonicalCachedState.ofWritten p.2)

theorem decodeSnapshot_encodeSnapshot {snapshot : HybridSnapshot} {bytes : Bytes}
    (h : encodeSnapshot snapshot = some bytes) : decodeSnapshot bytes = some snapshot := by
  rw [decodeSnapshot, Codec.decode_eq_some.mpr h, Option.map_some,
    CanonicalCachedState.ofWritten_written]

def create (records : List DogRecord) (edges : List (Uuid × Uuid)) (dir : Path) :
    Method S DurabilityError HybridStore := do
  Method.createDirAll DurabilityError.io dir
  Method.createFile .io (walPath dir)
  return ⟨.new records edges, snapshotPathIn dir, walPath dir, 0⟩

/-- The last snapshot, or a new state with no update in it. -/
def restore (records : List DogRecord) (edges : List (Uuid × Uuid)) (path : Path) :
    Method S DurabilityError HybridSnapshot := do
  let present ← Method.fileExists path
  if present then
    let bytes ← Method.readFile .io path
    match decodeSnapshot bytes with
    | none => Method.fail .serde
    | some snapshot => return snapshot
  else
    return (none, .new records edges)

def afterCutoff (cutoff : Option UInt64) (entry : WalEntry) : Bool :=
  cutoff.elim true (· < entry.seq)

/-- Replay what is behind the cutoff, and number on behind everything. -/
def replay (cutoff : Option UInt64) :
    CanonicalCachedState × UInt64 → List WalEntry →
      Method S DurabilityError (CanonicalCachedState × UInt64)
  | acc, [] => return acc
  | acc, entry :: entries =>
    if afterCutoff cutoff entry then do
      let state ← acc.1.replayEntry entry
      replay cutoff (state, max acc.2 (entry.seq + 1)) entries
    else replay cutoff (acc.1, max acc.2 (entry.seq + 1)) entries

def openStore (records : List DogRecord) (edges : List (Uuid × Uuid)) (dir : Path) :
    Method S DurabilityError HybridStore := do
  Method.createDirAll DurabilityError.io dir
  let snapshot ← restore records edges (snapshotPathIn dir)
  let entries ← Wal.readWalEntries (walPath dir)
  let replayed ← replay snapshot.1 (snapshot.2, 0) entries
  Method.openOrCreate .io (walPath dir)
  return ⟨replayed.1, snapshotPathIn dir, walPath dir, replayed.2⟩

/-- Write the state as it is. The log stays. -/
def checkpoint : Method HybridStore DurabilityError Unit := do
  let s ← Method.self
  match encodeSnapshot (if s.nextSeq = 0 then none else some (s.nextSeq - 1), s.state) with
  | none => Method.fail .serde
  | some bytes => Method.writeFile .io s.snapshotPath bytes

def updateAge (id : Uuid) (age : UInt32) : Method HybridStore StoreError Unit := do
  let s ← Method.self
  Method.mapError .ofDurability (Wal.appendWalEntry s.walFile ⟨s.nextSeq, id, age⟩)
  Method.modifySelf fun s => { s with nextSeq := s.nextSeq + 1 }
  Method.onPart (·.state) (fun state s => { s with state := state })
    (CanonicalCachedState.updateAge id age)

end HybridStore

/-! ## The table with sorted files -/

structure LsmStore where
  records : AList (fun _ : Uuid => DogRecord)
  breedIndex : AList (fun _ : String => List Uuid)
  adjacencyIndex : AList (fun _ : Uuid => List Uuid)
  memtable : AList (fun _ : Uuid => UInt32)
  flushedGenerations : Nat
  dir : Path
  nextSeq : UInt64

namespace LsmStore

open MapPairs

variable {S : Type}

def generationsPath (dir : Path) : Path := dir ++ "/generations.bin".toList

def sstPath (dir : Path) (generation : Nat) : Path :=
  dir ++ ("/sst_".toList ++ (Nat.repr generation).toList ++ ".bin".toList)

/-- A table is written sorted by id. -/
def encodeTable (table : AList (fun _ : Uuid => UInt32)) : Option Bytes :=
  Codec.encode ((MapPairs.pairs table).insertionSort fun a b => a.1 ≤ b.1)

def decodeTable (bytes : Bytes) : Option (AList (fun _ : Uuid => UInt32)) :=
  (Codec.decode bytes : Option (List (Uuid × UInt32))).map fill

/-- The newest of the first `count` files that has an age for `id`. -/
def searchGenerations (dir : Path) (id : Uuid) : Nat → Method S DurabilityError (Option UInt32)
  | 0 => return none
  | count + 1 => do
    let bytes ← Method.readFile .io (sstPath dir count)
    match decodeTable bytes with
    | none => Method.fail .serde
    | some sst =>
      match sst.lookup id with
      | some age => return some age
      | none => searchGenerations dir id count

def resolveAge (id : Uuid) : Method LsmStore DurabilityError (Option UInt32) := do
  let s ← Method.self
  match s.memtable.lookup id with
  | some age => return some age
  | none =>
    let flushed ← searchGenerations s.dir id s.flushedGenerations
    return flushed.orElse fun _ => (s.records.lookup id).map (·.age)

def create (records : List DogRecord) (edges : List (Uuid × Uuid)) (dir : Path) :
    Method S DurabilityError LsmStore := do
  Method.createDirAll DurabilityError.io dir
  Method.createFile .io (walPath dir)
  return ⟨DogRecord.byId records, DogRecord.byBreed records, DogRecord.adjacency edges,
    ∅, 0, dir, 0⟩

/-- How many files were flushed. -/
def readGenerations (dir : Path) : Method S DurabilityError Nat := do
  let file ← Method.readIfPresent DurabilityError.io (generationsPath dir)
  match file with
  | none => return 0
  | some bytes =>
    match Codec.decode bytes with
    | none => Method.fail .serde
    | some count => return count

/-- The table and the next number a log gives. -/
def replay (entries : List WalEntry) : AList (fun _ : Uuid => UInt32) × UInt64 :=
  entries.foldl (fun acc entry => (acc.1.insert entry.id entry.age, entry.seq + 1)) (∅, 0)

def openStore (records : List DogRecord) (edges : List (Uuid × Uuid)) (dir : Path) :
    Method S DurabilityError LsmStore := do
  Method.createDirAll DurabilityError.io dir
  let flushedGenerations ← readGenerations dir
  let entries ← Wal.readWalEntries (walPath dir)
  Method.openOrCreate .io (walPath dir)
  return ⟨DogRecord.byId records, DogRecord.byBreed records, DogRecord.adjacency edges,
    (replay entries).1, flushedGenerations, dir, (replay entries).2⟩

def flush : Method LsmStore DurabilityError Unit := do
  let s ← Method.self
  match encodeTable s.memtable with
  | none => Method.fail .serde
  | some bytes =>
    Method.writeFile .io (sstPath s.dir s.flushedGenerations) bytes
    Method.modifySelf fun s => { s with flushedGenerations := s.flushedGenerations + 1 }
    match Codec.encode (s.flushedGenerations + 1) with
    | none => Method.fail .serde
    | some count =>
      Method.writeFile .io (generationsPath s.dir) count
      Method.modifySelf fun s => { s with memtable := ∅ }
      Method.createFile .io (walPath s.dir)

def get (id : Uuid) : Method LsmStore DurabilityError (Option DogRecord) := do
  let s ← Method.self
  match s.records.lookup id with
  | none => return none
  | some record =>
    let age ← Method.attempt (resolveAge id)
    return age.join.map fun age => ⟨record.id, record.breed, age⟩

def scanAges : Method LsmStore DurabilityError (List UInt32) := do
  let s ← Method.self
  let ages ← s.records.keys.mapM fun id => Method.attempt (resolveAge id)
  return ages.filterMap Option.join

def updateAge (id : Uuid) (age : UInt32) : Method LsmStore StoreError Unit := do
  let s ← Method.self
  if id ∈ s.records then
    Method.mapError .ofDurability (Wal.appendWalEntry (walPath s.dir) ⟨s.nextSeq, id, age⟩)
    Method.modifySelf fun s =>
      { s with nextSeq := s.nextSeq + 1, memtable := s.memtable.insert id age }
  else
    Method.fail (.notFound id)

end LsmStore

/-! ## The four as one -/

/-- What a variant can be asked. The checkpoint of the table with sorted files is its flush. -/
structure LogVariant (S : Type) where
  create : List DogRecord → List (Uuid × Uuid) → Path → Method Unit DurabilityError S
  openStore : List DogRecord → List (Uuid × Uuid) → Path → Method Unit DurabilityError S
  checkpoint : Method S DurabilityError Unit
  updateAge : Uuid → UInt32 → Method S StoreError Unit
  get : Uuid → Method S DurabilityError (Option DogRecord)
  scanAges : Method S DurabilityError (List UInt32)

/-- What both write-ahead logs are. -/
def WalStore.variant (fsync : Bool) : LogVariant WalStore where
  create := WalStore.create
  openStore := WalStore.openStore
  checkpoint := WalStore.checkpoint
  updateAge := WalStore.updateAge fsync
  get id := do
    let s ← Method.self
    return s.state.get id
  scanAges := do
    let s ← Method.self
    return s.state.scanAges

def WalFsyncStore : LogVariant WalStore := WalStore.variant true

def WalBufferedStore : LogVariant WalStore := WalStore.variant false

def HybridStore.variant : LogVariant HybridStore where
  create := HybridStore.create
  openStore := HybridStore.openStore
  checkpoint := HybridStore.checkpoint
  updateAge := HybridStore.updateAge
  get id := do
    let s ← Method.self
    return s.state.get id
  scanAges := do
    let s ← Method.self
    return s.state.scanAges

def LsmStore.variant : LogVariant LsmStore where
  create := LsmStore.create
  openStore := LsmStore.openStore
  checkpoint := LsmStore.flush
  updateAge := LsmStore.updateAge
  get := LsmStore.get
  scanAges := LsmStore.scanAges

/-! ## Histories -/

/-- What happens to a store, and what its storage does meanwhile. -/
inductive StoreEvent where
  | updateAge (id : Uuid) (age : UInt32) (plan : List Outcome)
  | checkpoint (plan : List Outcome)
  | reopen (records : List DogRecord) (edges : List (Uuid × Uuid))
  | get (id : Uuid)

/-- What the caller is told. There is no answer from a process that is gone. -/
inductive StoreReply where
  | done
  | refused (e : StoreError)
  | failed (e : DurabilityError)
  | record (record : Option DogRecord)
  | silence
  deriving DecidableEq

namespace LogVariant

variable {S : Type}

/-- The store of a process that has one, and the files. -/
abbrev Process (S : Type) : Type := Option S × Disk

/-- What a call is answered, and what it leaves. A process that crashes has no store. -/
def answer {ε α : Type} (m : Method S ε α) (value : α → StoreReply) (error : ε → StoreReply)
    (plan : List Outcome) :
    Process S → StoreReply × Process S
  | (none, d) => (.silence, none, d)
  | (some s, d) =>
    match m ⟨s, d, plan⟩ with
    | .ok a p => (value a, some p.self, p.disk)
    | .error (.error e) p => (error e, some p.self, p.disk)
    | .error _ p => (.silence, none, p.disk)

/-- What building a store is answered, and what it leaves. -/
def built (m : Method Unit DurabilityError S) (d : Disk) : StoreReply × Process S :=
  match m ⟨(), d, []⟩ with
  | .ok s p => (.done, some s, p.disk)
  | .error (.error e) p => (.failed e, none, p.disk)
  | .error _ p => (.silence, none, p.disk)

def step (L : LogVariant S) (dir : Path) (st : Process S) : StoreEvent → StoreReply × Process S
  | .updateAge id age plan => answer (L.updateAge id age) (fun _ => .done) .refused plan st
  | .checkpoint plan => answer L.checkpoint (fun _ => .done) .failed plan st
  | .reopen records edges => built (L.openStore records edges dir) st.2
  | .get id => answer (L.get id) .record .failed [] st

/-- What a history is answered. -/
def replies (L : LogVariant S) (dir : Path) : Process S → List StoreEvent → List StoreReply
  | _, [] => []
  | st, event :: events => (L.step dir st event).1 :: replies L dir (L.step dir st event).2 events

end LogVariant

end MultimodalDb
