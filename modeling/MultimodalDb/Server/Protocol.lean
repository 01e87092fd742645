import MultimodalDb.Codec

/-!
# The protocol

The values, requests and responses that cross the wire, and the one of them that is also written to
disk: a batch of transaction operations is what a journal entry holds, in the crate's codec.
-/

namespace MultimodalDb

def PROTOCOL_VERSION : UInt32 := 22

def SESSION_READ_YOUR_WRITES : UInt32 := 1

def SESSION_VALIDATE_ON_STAGE : UInt32 := 2

def SESSION_SNAPSHOT_ISOLATION : UInt32 := 4

def MAX_STAGED_OPS : Nat := 4096

def MAX_BATCH_OPS : Nat := 4096

def MAX_TRACKED_READS : Nat := 4096

abbrev RecordId := Uuid

abbrev FieldRef := UInt16

/-- A field's value. A float is given by its 64 bits. -/
inductive ScanValue where
  | u32 (value : UInt32)
  | i64 (value : Int64)
  | bool (value : Bool)
  | str (value : String)
  | f64 (bits : UInt64)
  | strList (values : List String)
  deriving DecidableEq

/-- A record as the wire carries it: its fields in tag order. -/
abbrev Fields := List (FieldRef × ScanValue)

/-- One write of a transaction batch. -/
@[ext] structure TransactionOp where
  id : RecordId
  field : FieldRef
  value : ScanValue
  deriving DecidableEq

inductive CompareOp where
  | eq
  | ne
  | lt
  | le
  | gt
  | ge
  deriving DecidableEq

namespace CompareOp

def isOrdering : CompareOp → Bool
  | lt | le | gt | ge => true
  | eq | ne => false

end CompareOp

structure Predicate where
  field : FieldRef
  op : CompareOp
  value : ScanValue
  deriving DecidableEq

inductive ErrorCode where
  | unknownField
  | unsupported
  | malformed
  | unauthenticated
  | unauthorized
  | recordNotFound
  | noSession
  | sessionOpen
  | sessionFull
  | journal
  | conflict
  | duplicate
  | storage
  | guardFailed
  deriving DecidableEq

/-- One run-time write of a batch, with the body of the single request it names. -/
inductive WriteOp where
  | insert (id : RecordId) (fields : Fields)
  | replace (id : RecordId) (fields : Fields)
  | replaceIf (id : RecordId) (fields : Fields) (guard : Predicate)
  | delete (id : RecordId)
  | link (left right : RecordId) (relation : String)
  deriving DecidableEq

inductive WriteResult where
  | inserted
  | duplicate
  | replaced
  | notFound
  | guardFailed
  | linked
  | alreadyLinked
  | deleted
  | failed (code : ErrorCode)
  deriving DecidableEq

inductive Selection where
  | all
  | fields (tags : List FieldRef)
  deriving DecidableEq

inductive AggregateFn where
  | count
  | sum
  | avg
  | min
  | max
  deriving DecidableEq

structure AggregateSpec where
  func : AggregateFn
  field : Option FieldRef
  deriving DecidableEq

structure AggregateGroup where
  key : Fields
  values : List ScanValue
  deriving DecidableEq

inductive JoinRelation where
  | neighbors (label : Option String)
  | parent
  | children
  deriving DecidableEq

structure JoinSpec where
  relation : JoinRelation
  rightTable : Option String
  left : Selection
  right : Selection
  leftFilter : List Predicate
  rightFilter : List Predicate
  limit : Option Nat
  deriving DecidableEq

structure JoinedRow where
  leftId : RecordId
  left : Fields
  rightId : RecordId
  right : Fields
  deriving DecidableEq

structure RelationDescriptor where
  name : String
  kind : JoinRelation
  targetTable : Option String
  deriving DecidableEq

inductive ParentLookup where
  | parent (id : RecordId)
  | noParent
  | childNotFound
  deriving DecidableEq

inductive ValueKind where
  | u32
  | i64
  | bool
  | str
  | strList
  deriving DecidableEq

structure FieldCapabilities where
  filterEq : Bool
  scan : Bool
  update : Bool
  deriving DecidableEq

structure FieldDescriptor where
  tag : FieldRef
  name : String
  valueKind : ValueKind
  capabilities : FieldCapabilities
  deriving DecidableEq

structure RelationCapabilities where
  parentChildren : Bool
  neighbors : Bool
  deriving DecidableEq

structure DomainSchema where
  fields : List FieldDescriptor
  relations : RelationCapabilities
  deriving DecidableEq

inductive Request where
  | getById (id : RecordId)
  | filterEq (field : FieldRef) (value : ScanValue)
  | scanField (field : FieldRef)
  | updateField (id : RecordId) (field : FieldRef) (value : ScanValue)
  | parent (id : RecordId)
  | children (id : RecordId)
  | neighbors (id : RecordId)
  | describeSchema
  | authenticate (token : String)
  | transaction (updates : List TransactionOp)
  | hello (protocolVersion : UInt32)
  | begin
  | commit
  | rollback
  | beginWith (flags : UInt32)
  | query (select : Selection) (filter : List Predicate) (limit : Option Nat)
  | aggregate (groupBy : List FieldRef) (filter : List Predicate) (aggregates : List AggregateSpec)
      (limit : Option Nat)
  | neighborsByRelation (id : RecordId) (relation : String)
  | listRelationKinds
  | join (spec : JoinSpec)
  | describeRelations
  | insert (id : RecordId) (fields : Fields)
  | link (left right : RecordId) (relation : String)
  | replace (id : RecordId) (fields : Fields)
  | use (table : String)
  | listTables
  | delete (id : RecordId)
  | compact
  | replaceIf (id : RecordId) (fields : Fields) (guard : Predicate)
  | page (orderBy : FieldRef) (after : Option (ScanValue × RecordId)) (limit : UInt64)
  | countEdges (relation : String)
  | writeBatch (ops : List WriteOp) (atomic : Bool)
  deriving DecidableEq

inductive Response where
  | record (id : RecordId) (fields : Fields)
  | recordList (records : List RecordId)
  | scanValues (values : List ScanValue)
  | id (id : RecordId)
  | schema (schema : DomainSchema)
  | notFound
  | noParent
  | ok
  | err (code : ErrorCode) (message : String)
  | transactionFailed (index : Nat) (code : ErrorCode) (message : String)
  | hello (protocolVersion : UInt32)
  | staged (index : Nat)
  | rows (rows : List (RecordId × Fields))
  | groups (groups : List AggregateGroup)
  | relationKinds (kinds : List String)
  | joinedRows (rows : List JoinedRow)
  | relations (relations : List RelationDescriptor)
  | tables (names : List String) (primary : String)
  | compacted (records slotsReclaimed logEntriesFolded edgeLogsFolded : UInt64)
  | count (count : UInt64)
  | batchResults (results : List WriteResult)
  deriving DecidableEq

/-! ## The encoding of a batch -/

namespace ScanValue

/-- What follows a variant's index. -/
@[reducible] def Payload : Fin 6 → Type
  | 0 => UInt32
  | 1 => Int64
  | 2 => Bool
  | 3 => String
  | 4 => UInt64
  | 5 => List String

instance : (i : Fin 6) → Serde (Payload i)
  | 0 => inferInstanceAs (Serde UInt32)
  | 1 => inferInstanceAs (Serde Int64)
  | 2 => inferInstanceAs (Serde Bool)
  | 3 => inferInstanceAs (Serde String)
  | 4 => inferInstanceAs (Serde UInt64)
  | 5 => inferInstanceAs (Serde (List String))

def toVariant : ScanValue → (i : Fin 6) × Payload i
  | u32 v => ⟨0, v⟩
  | i64 v => ⟨1, v⟩
  | bool v => ⟨2, v⟩
  | str v => ⟨3, v⟩
  | f64 v => ⟨4, v⟩
  | strList v => ⟨5, v⟩

def ofVariant : (i : Fin 6) × Payload i → ScanValue
  | ⟨0, v⟩ => u32 v
  | ⟨1, v⟩ => i64 v
  | ⟨2, v⟩ => bool v
  | ⟨3, v⟩ => str v
  | ⟨4, v⟩ => f64 v
  | ⟨5, v⟩ => strList v

theorem ofVariant_eq {value : ScanValue} {v : (i : Fin 6) × Payload i} :
    ofVariant v = value ↔ toVariant value = v := by
  constructor
  · rintro rfl
    match v with
    | ⟨0, v⟩ | ⟨1, v⟩ | ⟨2, v⟩ | ⟨3, v⟩ | ⟨4, v⟩ | ⟨5, v⟩ => rfl
  · rintro rfl
    cases value <;> rfl

instance : Serde ScanValue :=
  letI := Codec.variants Payload (by decide)
  Codec.refine toVariant (fun v => some (ofVariant v)) (by
    intro value v
    rw [Option.some.injEq]
    exact ofVariant_eq)

end ScanValue

instance : Serde TransactionOp :=
  Codec.refine (fun op => (op.id, op.field, op.value)) (fun (id, field, value) =>
    some ⟨id, field, value⟩) (by
      rintro op ⟨id, field, value⟩
      simp only [Option.some.injEq, Prod.mk.injEq, TransactionOp.ext_iff]
      constructor
      · rintro ⟨rfl, rfl, rfl⟩
        exact ⟨rfl, rfl, rfl⟩
      · rintro ⟨rfl, rfl, rfl⟩
        exact ⟨rfl, rfl, rfl⟩)

end MultimodalDb
