import MultimodalDb.Server.Catalog
import MultimodalDb.Server.RecordTables

/-!
# The reads of the adapters

What each adapter answers from the layers of its stack: it checks the field or the label that a
request names, and hands the rest to the layer that keeps an index for it. What the layers list is a
parameter; the order of their lists is none of the adapters' business.

A server is built from the adapters of the five tables. Here the storage behind them may fail: a
write then answers `Storage`, whatever it leaves behind.
-/

namespace MultimodalDb

/-- What the layers of a stack answer. -/
structure Layers (R V : Type) where
  allIds : Stack R → List RecordId
  filterEq : FieldRef → ScanValue → Stack R → List RecordId
  scan : Stack R → List V
  allNeighbors : RecordId → Stack R → List RecordId
  neighborsByRelation : String → RecordId → Stack R → Option (List RecordId)
  relationKinds : Stack R → List String
  countEdges : String → Stack R → Option Nat
  pageBy : Option (Int64 × RecordId) → Nat → Stack R → List RecordId

/-! ## Reads by field -/

/-- `filter_eq`: a field that has an index, with a value of its kind. -/
def filterEqBy (indexed : FieldRef → Option ValueKind) (known : FieldRef → Bool)
    (ids : FieldRef → ScanValue → List RecordId) (field : FieldRef) (value : ScanValue) :
    Except ErrorCode (List RecordId) :=
  match indexed field with
  | some kind => if valueMatchesKind kind value then .ok (ids field value) else .error .malformed
  | none => .error (if known field then .unsupported else .unknownField)

/-- `scan_field`: the one field that has a column. -/
def Domain.scanField {R V : Type} (D : Domain R V) (toScan : V → ScanValue) (values : List V)
    (field : FieldRef) : Except ErrorCode (List ScanValue) :=
  if field = D.field then
    .ok (values.map toScan)
  else
    .error (if field ∈ D.readOnly then .unsupported else .unknownField)

/-- The neighbors under a label, where the label is one. -/
def underLabel {α : Type} : Option α → Except ErrorCode α
  | some a => .ok a
  | none => .error .malformed

/-! ## The adapters -/

namespace DogRecord

def reads (L : Layers DogRecord UInt32) (r : Read) (s : Stack DogRecord) : r.Reply :=
  match r with
  | .allIds => L.allIds s
  | .filterEq .. => .error .unsupported
  | .scanField field => domain.scanField .u32 (L.scan s) field
  | .neighbors id => .ok (L.allNeighbors id s)
  | .neighborsByRelation id relation =>
    if relation = "littermate_of" then .ok (L.allNeighbors id s) else .error .malformed
  | .listRelationKinds => ["littermate_of"]
  | .parent _ | .children _ | .countEdges _ => .error .unsupported
  | r => r.nothing

end DogRecord

namespace Reminder

def reads (L : Layers Reminder ReminderStatus) (r : Read) (s : Stack Reminder) : r.Reply :=
  match r with
  | .allIds => L.allIds s
  | .filterEq field value =>
    filterEqBy (fun field => if field = FIELD_DUE_AT then some .i64 else none)
      (· ∈ [FIELD_STATUS, FIELD_TITLE]) (L.filterEq · · s) field value
  | .scanField field => domain.scanField (fun status => .u32 (statusToU32 status)) (L.scan s) field
  | .listRelationKinds => []
  | .parent _ | .children _ | .neighbors _ | .neighborsByRelation .. | .countEdges _ =>
    .error .unsupported
  | r => r.nothing

end Reminder

namespace Relation

def reads (L : Layers Relation Int64) (r : Read) (s : Stack Relation) : r.Reply :=
  match r with
  | .allIds => L.allIds s
  | .filterEq field value =>
    filterEqBy (fun field => if field = FIELD_SUBJECT then some .str else none) (· ≤
      FIELD_DELETED_AT) (L.filterEq · · s) field value
  | .scanField field => domain.scanField .i64 (L.scan s) field
  | .pageBy after limit => L.pageBy after limit s
  | .listRelationKinds => []
  | .parent _ | .children _ | .neighbors _ | .neighborsByRelation .. | .countEdges _ =>
    .error .unsupported
  | r => r.nothing

end Relation

namespace Memory

def reads (L : Layers Memory Int64) (r : Read) (s : Stack Memory) : r.Reply :=
  match r with
  | .allIds => L.allIds s
  | .filterEq field value =>
    filterEqBy (fun field => if field = FIELD_CATEGORY then some .str else none) (· ≤ FIELD_NODE_ID)
      (L.filterEq · · s) field value
  | .scanField field => domain.scanField .i64 (L.scan s) field
  | .neighbors id => .ok (L.allNeighbors id s)
  | .neighborsByRelation id relation => underLabel (L.neighborsByRelation relation id s)
  | .listRelationKinds => L.relationKinds s
  | .countEdges relation => underLabel ((L.countEdges relation s).map UInt64.ofNat)
  | .pageBy after limit => L.pageBy after limit s
  | .parent _ | .children _ => .error .unsupported
  | r => r.nothing

end Memory

namespace Entity

def reads (L : Layers Entity Int64) (r : Read) (s : Stack Entity) : r.Reply :=
  match r with
  | .allIds => L.allIds s
  -- A label is looked up among the names, aliases included.
  | .filterEq field value =>
    filterEqBy (fun field => if field = FIELD_KIND ∨ field = FIELD_LABEL then some .str else none)
      (· ∈ [FIELD_MENTION_COUNT, FIELD_ALIASES]) (L.filterEq · · s) field value
  | .scanField field => domain.scanField .i64 (L.scan s) field
  | .neighbors id => .ok (L.allNeighbors id s)
  | .neighborsByRelation id relation => underLabel (L.neighborsByRelation relation id s)
  | .listRelationKinds => L.relationKinds s
  | .countEdges relation => underLabel ((L.countEdges relation s).map UInt64.ofNat)
  | .parent _ | .children _ => .error .unsupported
  | r => r.nothing

end Entity

def Reminder.table (journaled : Bool) (index : (r : Read) → Stack Reminder → r.Reply)
    (report : Stack Reminder → CompactionReport) : Table where
  R := Reminder
  V := ReminderStatus
  domain := Reminder.domain
  tableName := "reminder"
  relations := none
  orderedBy := none
  journaled := journaled
  exclusiveBatches := false
  deletes := true
  index := index
  report := report
  foreign := nofun

def Relation.table (journaled : Bool) (index : (r : Read) → Stack Relation → r.Reply)
    (report : Stack Relation → CompactionReport) : Table where
  R := Relation
  V := Int64
  domain := Relation.domain
  tableName := "relation"
  relations := none
  orderedBy := some Relation.FIELD_UPDATED_AT
  journaled := journaled
  exclusiveBatches := true
  deletes := true
  index := index
  report := report
  foreign := nofun

/-- An adapter over the layers of its stack. -/
inductive Adapter where
  | dog (L : Layers DogRecord UInt32)
  | reminder (L : Layers Reminder ReminderStatus) (report : Stack Reminder → CompactionReport)
  | relation (L : Layers Relation Int64) (report : Stack Relation → CompactionReport)
  | memory (L : Layers Memory Int64) (report : Stack Memory → CompactionReport)
  | entity (L : Layers Entity Int64) (report : Stack Entity → CompactionReport)

def Adapter.table (journaled : Bool) : Adapter → Table
  | .dog L => DogRecord.table journaled (DogRecord.reads L)
  | .reminder L report => Reminder.table journaled (Reminder.reads L) report
  | .relation L report => Relation.table journaled (Relation.reads L) report
  | .memory L report => Memory.table journaled (Memory.reads L) report
  | .entity L report => Entity.table journaled (Entity.reads L) report

/-! ## Storage that fails -/

/-- A table with what its storage will do: a failure leaves behind what it says. -/
structure Faulty (σ : Type) where
  content : σ
  faults : List (Option (Nat × σ))

/-- The answer of a write whose storage fails; `k` is the operation that it fails at. -/
def Write.storageFails (k : Nat) : (w : Write) → Option w.Reply
  | .insertRecord .. | .replaceRecord .. | .replaceRecordIf .. | .deleteRecord _ | .linkRecords ..
  | .detachRecord .. | .compact => some (.error .storage)
  | .writeAtomic _ => some (.error (k, .storage))
  | .updateField .. | .applyTransaction .. | .applyTurn .. => none

namespace ConnectionStore

variable {σ : Type} (s : ConnectionStore σ)

def faultyWrite (w : Write) (f : Faulty σ) : w.Reply × Faulty σ :=
  match f.faults with
  | some (k, left) :: faults =>
    match w.storageFails k with
    | some reply => (reply, ⟨left, faults⟩)
    | none => ((s.write w f.content).1, ⟨(s.write w f.content).2, faults⟩)
  | faults => ((s.write w f.content).1, ⟨(s.write w f.content).2, faults.tail⟩)

/-- The same table, over storage that may fail. -/
def faulty : ConnectionStore (Faulty σ) :=
  { s with read := fun r f => s.read r f.content, write := s.faultyWrite }

end ConnectionStore

/-- A server of adapters, each journaled or not, over storage that may fail. -/
def servedTables {n : Nat} (name : Fin n → String) (adapter : Fin n → Adapter)
    (journaled : Fin n → Bool)
    (primary : Fin n) : Tables n fun i => Faulty (Stack ((adapter i).table (journaled i)).R) :=
  ⟨name, fun i => ((adapter i).table (journaled i)).store.faulty, primary⟩

end MultimodalDb
