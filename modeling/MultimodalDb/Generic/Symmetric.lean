import MultimodalDb.Generic.EdgeFiles
import MultimodalDb.Generic.RecordStore

/-!
# The layer of one symmetric relation

One adjacency over a store of records, with its blob and its log when the layer has a path. A link
is logged before the adjacency has it; a delete goes to the store first, and then takes the edges of
the record.
-/

namespace MultimodalDb

open NeighborLists
open StoredRecord hiding id

structure Symmetric (S Id : Type) where
  inner : S
  adjacency : NeighborLists Id
  /-- Where the edge blob lives; a layer without one keeps its edges in memory. -/
  edgesPath : Option Path

namespace Symmetric

variable {S T R Id IV V ε α : Type}

def setInner (inner : S) (s : Symmetric S Id) : Symmetric S Id := { s with inner := inner }

/-- Run a method of the store beneath. -/
def onInner (m : Method S ε α) : Method (Symmetric S Id) ε α :=
  Method.onPart Symmetric.inner setInner m

variable [DecidableEq Id]

def new (inner : S) (edges : List (Id × Id)) : Symmetric S Id := ⟨inner, ofEdges edges, none⟩

def withPath (edgesPath : Path) (s : Symmetric S Id) : Symmetric S Id :=
  { s with edgesPath := some edgesPath }

def hasEdge (s : Symmetric S Id) (a b : Id) : Bool := b ∈ s.adjacency.neighbors a

def neighbors (s : Symmetric S Id) (id : Id) : List Id := s.adjacency.neighbors id

variable [StoredRecord R Id IV V] [RecordStore S R Id V] [Serde Id]

/-! ## Creating and opening -/

section Opening

variable (R)

/-- A fresh layer starts with no edge log. -/
def create (inner : S) (edges : List (Id × Id)) (edgesPath : Path) :
    Method T DurabilityError (Symmetric S Id) := do
  InsertLog.clear (InsertLog.logPath edgesPath)
  EdgeBlob.write (SCHEMA_TAG R) edges edgesPath
  return (new inner edges).withPath edgesPath

/-- `open`: the log is folded in, the blob is brought up to date, and only then the log is removed.
-/
def openEdges (inner : S) (edges : List (Id × Id)) (edgesPath : Path) :
    Method T DurabilityError (Symmetric S Id) := do
  let log := InsertLog.logPath edgesPath
  let logged ← InsertLog.readEntries log (SCHEMA_TAG R)
  let edges := mergeEdgeLists edges logged
  let current ← EdgeBlob.isCurrentAt (SCHEMA_TAG R) edges edgesPath
  if current then pure () else EdgeBlob.write (SCHEMA_TAG R) edges edgesPath
  InsertLog.clear log
  return (new inner edges).withPath edgesPath

def readPortableEdges (edgesPath : Path) : Method T DurabilityError (List (Id × Id)) := do
  let persisted ← EdgeBlob.read (SCHEMA_TAG R) edgesPath
  let logged ← InsertLog.readEntries (InsertLog.logPath edgesPath) (SCHEMA_TAG R)
  return mergeEdgeLists persisted logged

def openPortable (inner : S) (edgesPath : Path) : Method T DurabilityError (Symmetric S Id) := do
  let edges ← readPortableEdges R edgesPath
  openEdges R inner edges edgesPath

end Opening

/-! ## Operations -/

variable (R) in
/-- Append to the log, when the layer has a path. -/
def logEdge (entry : LogEntry (Id × Id) Id) : Method (Symmetric S Id) DurabilityError Unit := do
  let s ← Method.self
  match s.edgesPath with
  | some path => InsertLog.append (InsertLog.logPath path) (SCHEMA_TAG R) entry
  | none => pure ()

/-- Add one edge. -/
def link (a b : Id) : Method (Symmetric S Id) (EdgeLayer.LinkError Id) LinkOutcome := do
  let s ← Method.self
  let left ← Method.checked (RecordStore.get s.inner a)
  if left.isNone then Method.fail (.unknownRecord a) else
  let right ← Method.checked (RecordStore.get s.inner b)
  if right.isNone then Method.fail (.unknownRecord b) else
  if a = b then Method.fail (.selfLoop a) else
  if s.hasEdge a b then return .alreadyLinked else
  Method.mapError .durability (logEdge R (.item (a, b)))
  Method.modifySelf (fun s => { s with adjacency := s.adjacency.pushEdge a b })
  return .linked

def insert (record : R) : Method (Symmetric S Id) (InsertError Id) Unit :=
  onInner (RecordStore.insert record)

def replace (record : R) : Method (Symmetric S Id) (ReplaceError Id) Unit :=
  onInner (RecordStore.replace record)

def update (id : Id) (value : V) : Method (Symmetric S Id) (NotFound Id) Unit :=
  onInner (RecordStore.update id value)

/-- The record in the store beneath, then every edge touching it: the tombstone is logged before the
adjacency changes. -/
def delete (id : Id) : Method (Symmetric S Id) (DeleteError Id) Unit := do
  onInner (RecordStore.delete id)
  let s ← Method.self
  if id ∈ s.adjacency then
    Method.mapError .durability (logEdge R (.tombstone id))
    Method.modifySelf (fun s => { s with adjacency := (s.adjacency.dropEdgesOf id).2 })
  else
    pure ()

end Symmetric

end MultimodalDb
