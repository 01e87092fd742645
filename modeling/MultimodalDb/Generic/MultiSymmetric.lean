import MultimodalDb.Generic.EdgeFiles
import MultimodalDb.Generic.RecordStore

/-!
# The layer of several symmetric relations

One adjacency for each label over a store of records. Each label has its own blob and log, and the
manifest says which labels there are; a link under a new label creates it. Under a foreign label the
far end of an edge is a record of another table, which this layer does not look for.
-/

namespace MultimodalDb

open NeighborLists
open StoredRecord hiding id

structure MultiSymmetric (S Id : Type) where
  inner : S
  adjacency : AList (fun _ : String => NeighborLists Id)
  /-- The path its blobs, logs and manifest hang off; a layer without one keeps its edges in memory.
  -/
  basePath : Option Path
  foreignLabels : List String

namespace MultiSymmetric

variable {S T R Id IV V ε α : Type}

def setInner (inner : S) (s : MultiSymmetric S Id) : MultiSymmetric S Id :=
  { s with inner := inner }

/-- Run a method of the store beneath. -/
def onInner (m : Method S ε α) : Method (MultiSymmetric S Id) ε α :=
  Method.onPart MultiSymmetric.inner setInner m

def setAdjacency (label : String) (adjacency : NeighborLists Id) (s : MultiSymmetric S Id) :
    MultiSymmetric S Id :=
  { s with adjacency := s.adjacency.insert label adjacency }

def withPath (base : Path) (s : MultiSymmetric S Id) : MultiSymmetric S Id :=
  { s with basePath := some base }

def withForeignLabels (labels : List String) (s : MultiSymmetric S Id) : MultiSymmetric S Id :=
  { s with foreignLabels := labels }

def isForeign (s : MultiSymmetric S Id) (label : String) : Bool := s.foreignLabels.contains label

variable [DecidableEq Id]

/-- The adjacency of each relation; of two with one label the last counts. -/
def new (inner : S) (relations : List (String × List (Id × Id))) : MultiSymmetric S Id :=
  ⟨inner, relations.foldl (fun adjacency r => adjacency.insert r.1 (ofEdges r.2)) ∅, none, []⟩

/-- The relations, and every label of the manifest they do not name, without edges. -/
def withManifestLabels (relations : List (String × List (Id × Id))) (manifest : List String) :
    List (String × List (Id × Id)) :=
  manifest.foldl (fun all label => if all.any (fun r => r.1 = label) then all
    else all ++ [(label, [])]) relations

/-! ## Queries -/

def neighborsByRelation (s : MultiSymmetric S Id) (relation : String) (id : Id) :
    Option (List Id) :=
  (s.adjacency.lookup relation).map (fun adjacency => adjacency.neighbors id)

def allNeighbors (s : MultiSymmetric S Id) (id : Id) : List Id :=
  s.adjacency.entries.flatMap (fun e => e.2.neighbors id)

def relationKinds (s : MultiSymmetric S Id) : List String := s.adjacency.keys

def edgeCount (s : MultiSymmetric S Id) (relation : String) : Option Nat :=
  (s.adjacency.lookup relation).map NeighborLists.edgeCount

variable [StoredRecord R Id IV V] [RecordStore S R Id V] [Serde Id]

/-! ## Creating and opening -/

section Opening

variable (R)

def createLabel (base : Path) (relation : String × List (Id × Id)) :
    Method T DurabilityError Unit := do
  let blobPath := labeledEdgesPath base relation.1
  InsertLog.clear (InsertLog.logPath blobPath)
  EdgeBlob.write (SCHEMA_TAG R) relation.2 blobPath

/-- One label's log is folded in, its blob is brought up to date, and only then its log is removed.
-/
def openLabel (base : Path) (relation : String × List (Id × Id)) :
    Method T DurabilityError (String × List (Id × Id)) := do
  let blobPath := labeledEdgesPath base relation.1
  let log := InsertLog.logPath blobPath
  let logged ← InsertLog.readEntries log (SCHEMA_TAG R)
  let edges := mergeEdgeLists relation.2 logged
  let current ← EdgeBlob.isCurrentAt (SCHEMA_TAG R) edges blobPath
  if current then pure () else EdgeBlob.write (SCHEMA_TAG R) edges blobPath
  InsertLog.clear log
  return (relation.1, edges)

def readLabel (base : Path) (relation : String × List (Id × Id)) :
    Method T DurabilityError (String × List (Id × Id)) := do
  let edges ← EdgeBlob.read (SCHEMA_TAG R) (labeledEdgesPath base relation.1)
  return (relation.1, edges)

def create (inner : S) (relations : List (String × List (Id × Id))) (base : Path) :
    Method T DurabilityError (MultiSymmetric S Id) := do
  relations.forM (createLabel R base)
  LabelManifest.write base (SCHEMA_TAG R) (relations.map (·.1))
  return (new inner relations).withPath base

/-- `open`: the relations given, and every other label of the manifest. -/
def openRelations (inner : S) (relations : List (String × List (Id × Id))) (base : Path) :
    Method T DurabilityError (MultiSymmetric S Id) := do
  let manifest ← LabelManifest.read base (SCHEMA_TAG R)
  let all ← (withManifestLabels relations manifest).mapM (openLabel R base)
  let labels := all.map (·.1)
  if labels = manifest then pure () else LabelManifest.write base (SCHEMA_TAG R) labels
  return (new inner all).withPath base

/-- Reopen from the files: the labels given and those of the manifest, each from its blob. -/
def openPortable (inner : S) (base : Path) (labels : List String) :
    Method T DurabilityError (MultiSymmetric S Id) := do
  let manifest ← LabelManifest.read base (SCHEMA_TAG R)
  let named := withManifestLabels (labels.map (fun label => (label, []))) manifest
  let relations ← named.mapM (readLabel R base)
  openRelations R inner relations base

end Opening

/-! ## Operations -/

section Parts

variable (R)

variable (Id) in
/-- The empty blob of a new label, and the label in the manifest. -/
def nameLabel (base : Path) (relation : String) : Method T DurabilityError Unit := do
  EdgeBlob.write (SCHEMA_TAG R) ([] : List (Id × Id)) (labeledEdgesPath base relation)
  let labels ← LabelManifest.read base (SCHEMA_TAG R)
  if relation ∈ labels then pure ()
  else LabelManifest.write base (SCHEMA_TAG R) (labels ++ [relation])

/-- Create a label there is no adjacency for: its blob and the manifest come before any edge. -/
def linkLabel (relation : String) : Method (MultiSymmetric S Id) DurabilityError Unit := do
  let s ← Method.self
  match s.adjacency.lookup relation with
  | some _ => pure ()
  | none =>
    match s.basePath with
    | some base => nameLabel R Id base relation
    | none => pure ()
    Method.modifySelf (setAdjacency relation ∅)

/-- Append to the log of a label, when the layer has a path. -/
def logEdge (relation : String) (entry : LogEntry (Id × Id) Id) :
    Method (MultiSymmetric S Id) DurabilityError Unit := do
  let s ← Method.self
  match s.basePath with
  | some base =>
    InsertLog.append (InsertLog.logPath (labeledEdgesPath base relation)) (SCHEMA_TAG R) entry
  | none => pure ()

/-- Add an edge between two ends that were checked, unless it is there. -/
def linkEnds (relation : String) (a b : Id) :
    Method (MultiSymmetric S Id) DurabilityError LinkOutcome := do
  let s ← Method.self
  match s.adjacency.lookup relation with
  | none => Method.panic
  | some adjacency =>
    if b ∈ adjacency.neighbors a then return .alreadyLinked else
    logEdge R relation (.item (a, b))
    Method.modifySelf (setAdjacency relation (adjacency.pushEdge a b))
    return .linked

/-- Every edge touching `id` under one label; the number of them. Nothing is logged when there are
none. -/
def detachUnder (label : String) (id : Id) : Method (MultiSymmetric S Id) (DeleteError Id) Nat := do
  let s ← Method.self
  match s.adjacency.lookup label with
  | none => Method.fail (.notFound id)
  | some adjacency =>
    if id ∈ adjacency then
      Method.mapError .durability (logEdge R label (.tombstone id))
      Method.modifySelf (setAdjacency label (adjacency.dropEdgesOf id).2)
      return (adjacency.dropEdgesOf id).1
    else
      return 0

end Parts

/-- Whether the far end may be linked: under a foreign label it is another table's to know. -/
def knowsFarEnd (relation : String) (b : Id) : Method (MultiSymmetric S Id) ε Bool := do
  let s ← Method.self
  if s.isForeign relation then return true
  else
    let found ← Method.checked (RecordStore.get s.inner b)
    return found.isSome

/-- Add one edge under a label, which is created when it is new. -/
def link (relation : String) (a b : Id) :
    Method (MultiSymmetric S Id) (EdgeLayer.LinkError Id) LinkOutcome := do
  if validRelationLabel relation = false then Method.fail (.invalidLabel relation) else
  let s ← Method.self
  let left ← Method.checked (RecordStore.get s.inner a)
  if left.isNone then Method.fail (.unknownRecord a) else
  let right ← knowsFarEnd relation b
  if right = false then Method.fail (.unknownRecord b) else
  if a = b then Method.fail (.selfLoop a) else
  Method.mapError .durability (linkLabel R relation)
  Method.mapError .durability (linkEnds R relation a b)

def insert (record : R) : Method (MultiSymmetric S Id) (InsertError Id) Unit :=
  onInner (RecordStore.insert record)

def replace (record : R) : Method (MultiSymmetric S Id) (ReplaceError Id) Unit :=
  onInner (RecordStore.replace record)

def update (id : Id) (value : V) : Method (MultiSymmetric S Id) (NotFound Id) Unit :=
  onInner (RecordStore.update id value)

variable (R) in
def detach (relation : String) (id : Id) : Method (MultiSymmetric S Id) (DeleteError Id) Nat :=
  detachUnder R relation id

/-- The record in the store beneath, then its edges under every label. -/
def delete (id : Id) : Method (MultiSymmetric S Id) (DeleteError Id) Unit := do
  onInner (RecordStore.delete id)
  let s ← Method.self
  s.adjacency.keys.forM (fun label => do
    let _ ← detachUnder R label id
    return ())

end MultiSymmetric

section Compact

variable {S R Id IV V : Type} [StoredRecord R Id IV V] [RecordStore S R Id V] [Serde Id]
  [LinearOrder Id]

/-- The store beneath first, then the edge blob. -/
def MultiSymmetric.compact : Method (MultiSymmetric S Id) DurabilityError CompactionReport := do
  let report ← onInner RecordStore.compact
  let s ← Method.self
  match s.basePath with
  | none => return report
  | some base =>
    s.adjacency.entries.foldlM (fun report e => do
      let folded ← compactEdgeBlob e.2 (labeledEdgesPath base e.1) (SCHEMA_TAG R)
      return if folded then { report with edgeLogsFolded := report.edgeLogsFolded + 1 } else report)
      report

end Compact

end MultimodalDb
