import MultimodalDb.Generic.MmapStore
import MultimodalDb.Lib.Program
import MultimodalDb.Server.Journaled
import MultimodalDb.Server.Query

/-!
# Tables

The connection stores of a server, and what one request does to one of them. A connection store
makes each of its reads and writes under its table's lock; between two of them the requests of other
connections make theirs. So a request is a program whose calls are these reads and writes, each with
the table it goes to.

A commit group is one call here: it takes a batch, or refuses it because it could not be journaled.
-/

namespace MultimodalDb

/-- A read of a table. -/
inductive Read where
  | get (id : RecordId)
  | allIds
  | filterEq (field : FieldRef) (value : ScanValue)
  | scanField (field : FieldRef)
  | parent (id : RecordId)
  | children (id : RecordId)
  | neighbors (id : RecordId)
  | neighborsByRelation (id : RecordId) (relation : String)
  | listRelationKinds
  | countEdges (relation : String)
  /-- The ids of a page in the order that the table keeps an index for. -/
  | pageBy (after : Option (Int64 × RecordId)) (limit : Nat)
  | validateOp (op : TransactionOp)

@[reducible] def Read.Reply : Read → Type
  | get _ => Option Fields
  | allIds => List RecordId
  | filterEq .. => Except ErrorCode (List RecordId)
  | scanField _ => Except ErrorCode (List ScanValue)
  | parent _ => Except ErrorCode ParentLookup
  | children _ => Except ErrorCode (List RecordId)
  | neighbors _ => Except ErrorCode (List RecordId)
  | neighborsByRelation .. => Except ErrorCode (List RecordId)
  | listRelationKinds => List String
  | countEdges _ => Except ErrorCode UInt64
  | pageBy .. => List RecordId
  | validateOp _ => Except ErrorCode Unit

/-- A write to a table. -/
inductive Write where
  | updateField (id : RecordId) (field : FieldRef) (value : ScanValue)
  | insertRecord (id : RecordId) (fields : Fields)
  | replaceRecord (id : RecordId) (fields : Fields)
  | replaceRecordIf (id : RecordId) (fields : Fields) (guard : Predicate)
  | deleteRecord (id : RecordId)
  | linkRecords (left right : RecordId) (relation : String)
  | detachRecord (relation : String) (id : RecordId)
  /-- An atomic batch, under one lock. -/
  | writeAtomic (ops : List WriteOp)
  | compact
  /-- A transaction of a table without a journal: checked and applied under one lock. -/
  | applyTransaction (updates : Batch) (readSet : List TrackedRead)
  /-- The turn of a journaled transaction: its reads checked and its writes applied. -/
  | applyTurn (updates : Batch) (readSet : List TrackedRead)

@[reducible] def Write.Reply : Write → Type
  | updateField .. => Except ErrorCode Bool
  | insertRecord .. => Except ErrorCode InsertOutcome
  | replaceRecord .. => Except ErrorCode ReplaceOutcome
  | replaceRecordIf .. => Except ErrorCode ReplaceIfOutcome
  | deleteRecord _ => Except ErrorCode DeleteOutcome
  | linkRecords .. => Except ErrorCode LinkOutcome
  | detachRecord .. => Except ErrorCode Nat
  | writeAtomic _ => Except (Nat × ErrorCode) (List WriteResult)
  | compact => Except ErrorCode CompactionReport
  | applyTransaction .. => Except (Nat × ErrorCode) Unit
  | applyTurn .. => Except (Nat × ErrorCode) Unit

inductive TableCall where
  | read (r : Read)
  | write (w : Write)
  /-- Whether the commit group made the batch durable and gave it its turn. -/
  | journal (updates : Batch)

@[reducible] def TableCall.Reply : TableCall → Type
  | read r => r.Reply
  | write w => w.Reply
  | journal _ => Bool

/-- A call, with the table it goes to. -/
structure Call (n : Nat) where
  table : Fin n
  call : TableCall

@[reducible] def Call.Reply {n : Nat} (c : Call n) : Type := c.call.Reply

/-- What a request does to the tables of a server. -/
abbrev Serving (n : Nat) := Program (Call n) Call.Reply

/-- One table's adapter. -/
structure ConnectionStore (σ : Type) where
  tableName : String
  describe : DomainSchema
  /-- The relations that the adapter lists itself. Else they follow from its schema and its labels.
  -/
  relations : Option (List RelationDescriptor)
  /-- The field whose order the table keeps an index for. -/
  orderedBy : Option FieldRef
  journaled : Bool
  /-- An atomic batch is one write, not a loop over its operations. -/
  exclusiveBatches : Bool
  read : (r : Read) → σ → r.Reply
  write : (w : Write) → σ → w.Reply × σ

/-- The tables that a server was built from. -/
structure Tables (n : Nat) (σ : Fin n → Type) where
  name : Fin n → String
  store : (i : Fin n) → ConnectionStore (σ i)
  primary : Fin n

def errorMessage : ErrorCode → String
  | .unknownField => "unrecognized field tag for this domain"
  | .unsupported => "this operation is not available for this field/domain"
  | .malformed => "the supplied value does not match this field's type"
  | .unauthenticated => "this connection has not presented a recognized token"
  | .unauthorized => "this connection's token does not permit this operation"
  | .recordNotFound => "this operation's id has no record"
  | .noSession => "no transaction session is open on this connection"
  | .sessionOpen => "a transaction session is already open on this connection"
  | .sessionFull => "this session already holds the maximum number of staged writes"
  | .journal => "the batch could not be journaled before applying it; nothing was applied"
  | .conflict => "this session's read set no longer matches current state; nothing was applied"
  | .duplicate => "a record with this id already exists; nothing was written"
  | .storage => "the record could not be made durable; nothing was written"
  | .guardFailed => "the guard did not hold against the stored record; nothing was written"

def errResponse (code : ErrorCode) : Response := .err code (errorMessage code)

def transactionFailed (e : Nat × ErrorCode) : Response :=
  .transactionFailed e.1 e.2 (errorMessage e.2)

namespace Tables

variable {n : Nat} {σ : Fin n → Type} (T : Tables n σ)

def read (i : Fin n) (r : Read) : Serving n r.Reply := Program.ask (⟨i, .read r⟩ : Call n)

def write (i : Fin n) (w : Write) : Serving n w.Reply := Program.ask (⟨i, .write w⟩ : Call n)

def journal (i : Fin n) (updates : Batch) : Serving n Bool :=
  Program.ask (⟨i, .journal updates⟩ : Call n)

/-- The first table of a name. -/
def position (name : String) : Option (Fin n) := (List.finRange n).find? fun i => T.name i = name

/-! ## The methods of a connection store that make several calls -/

def describeRelations (i : Fin n) : Serving n (List RelationDescriptor) :=
  match (T.store i).relations with
  | some relations => pure relations
  | none => do
    let labels ← read i .listRelationKinds
    return defaultRelationDescriptors (T.store i).describe labels

/-- The records of some ids, without those that are gone. -/
def getAll (i : Fin n) : List RecordId → Serving n (List PageRow)
  | [] => pure []
  | id :: ids => do
    match ← read i (.get id) with
    | none => getAll i ids
    | some fields => return (id, fields) :: (← getAll i ids)

def scanAll (i : Fin n) : Serving n (List PageRow) := do
  let ids ← read i .allIds
  getAll i ids

def pageByScan (i : Fin n) (orderBy : FieldRef) (after : Option (ScanValue × RecordId))
    (limit : Nat) :
    Serving n (List PageRow) := do
  let rows ← scanAll i
  getAll i (pageIds (rows.map fun (id, fields) => (id, pageKey fields orderBy)) after limit)

def page (i : Fin n) (orderBy : FieldRef) (after : Option (ScanValue × RecordId)) (limit : Nat) :
    Serving n (Except ErrorCode (List PageRow)) :=
  if (T.store i).orderedBy = some orderBy then
    match after with
    | none => do
      let ids ← read i (.pageBy none limit)
      return .ok (← getAll i ids)
    | some (.i64 stamp, id) => do
      let ids ← read i (.pageBy (some (stamp, id)) limit)
      return .ok (← getAll i ids)
    | some _ => pure (.error .malformed)
  else do
    return .ok (← pageByScan i orderBy after limit)

def applyWriteOp (i : Fin n) : WriteOp → Serving n WriteResult
  | .insert id fields => do
    match ← write i (.insertRecord id fields) with
    | .ok .inserted => return .inserted
    | .ok .duplicate => return .duplicate
    | .error code => return .failed code
  | .replace id fields => do
    match ← write i (.replaceRecord id fields) with
    | .ok .replaced => return .replaced
    | .ok .notFound => return .notFound
    | .error code => return .failed code
  | .replaceIf id fields guard => do
    match ← write i (.replaceRecordIf id fields guard) with
    | .ok .replaced => return .replaced
    | .ok .guardFailed => return .guardFailed
    | .ok .notFound => return .notFound
    | .error code => return .failed code
  | .delete id => do
    match ← write i (.deleteRecord id) with
    | .ok .deleted => return .deleted
    | .ok .notFound => return .notFound
    | .error code => return .failed code
  | .link left right relation => do
    match ← write i (.linkRecords left right relation) with
    | .ok .linked => return .linked
    | .ok .alreadyLinked => return .alreadyLinked
    | .error code => return .failed code

/-- The operations of a batch one by one. An atomic one ends at the first that fails. -/
def writeEach (i : Fin n) (atomic : Bool) :
    Nat → List WriteOp → Serving n (Except (Nat × ErrorCode) (List WriteResult))
  | _, [] => pure (.ok [])
  | k, op :: ops => do
    let result ← applyWriteOp i op
    match atomic, result with
    | true, .failed code => return .error (k, code)
    | _, _ => return (← writeEach i atomic (k + 1) ops).map (result :: ·)

def writeBatch (i : Fin n) (ops : List WriteOp) (atomic : Bool) :
    Serving n (Except (Nat × ErrorCode) (List WriteResult)) :=
  if atomic && (T.store i).exclusiveBatches then
    write i (.writeAtomic ops)
  else
    writeEach i atomic 0 ops

/-- `validate_batch` outside any lock: a read for each operation. -/
def validateBatch (i : Fin n) : Nat → Batch → Serving n (Except (Nat × ErrorCode) Unit)
  | _, [] => pure (.ok ())
  | k, op :: ops => do
    match ← read i (.validateOp op) with
    | .error code => return .error (k, code)
    | .ok () => validateBatch i (k + 1) ops

def applyTransaction (i : Fin n) (updates : Batch) (readSet : List TrackedRead) :
    Serving n (Except (Nat × ErrorCode) Unit) :=
  if (T.store i).journaled then do
    match ← validateBatch i 0 updates with
    | .error e => return .error e
    | .ok () =>
      if ← journal i updates then
        write i (.applyTurn updates readSet)
      else
        return .error (0, .journal)
  else
    write i (.applyTransaction updates readSet)

/-! ## Joins -/

def full (limit : Option Nat) (out : List JoinedRow) : Bool := limit.any (· ≤ out.length)

def relatedIds (i : Fin n) (relation : JoinRelation) (id : RecordId) : Serving n (List RecordId) :=
  match relation with
  | .neighbors none => do return (← read i (.neighbors id)).toOption.getD []
  | .neighbors (some label) => do return (← read i (.neighborsByRelation id label)).toOption.getD []
  | .parent => do
    match ← read i (.parent id) with
    | .ok (.parent parent) => return [parent]
    | _ => return []
  | .children => do return (← read i (.children id)).toOption.getD []

/-- The rows that one left row is joined to, until there are enough. -/
def joinRights (j : Fin n) (spec : JoinSpec) (leftRow : PageRow) :
    List RecordId → List JoinedRow → Serving n (List JoinedRow)
  | [], out => pure out
  | rightId :: ids, out => do
    if full spec.limit out then
      return out
    match ← read j (.get rightId) with
    | none => joinRights j spec leftRow ids out
    | some rightFields =>
      if spec.rightFilter.all (predicateMatches rightFields) then
        joinRights j spec leftRow ids
          (out ++ [⟨leftRow.1, selectFields leftRow.2 spec.left, rightId,
            selectFields rightFields spec.right⟩])
      else
        joinRights j spec leftRow ids out

def joinLefts (i j : Fin n) (spec : JoinSpec) :
  List PageRow → List JoinedRow → Serving n (List JoinedRow)
  | [], out => pure out
  | leftRow :: rows, out => do
    if full spec.limit out then
      return out
    if spec.leftFilter.all (predicateMatches leftRow.2) then
      let ids ← relatedIds i spec.relation leftRow.1
      joinLefts i j spec rows (← joinRights j spec leftRow ids out)
    else
      joinLefts i j spec rows out

def evaluateJoin (i j : Fin n) (spec : JoinSpec) : Serving n (List JoinedRow) := do
  if full spec.limit [] then
    return []
  let rows ← scanAll i
  joinLefts i j spec rows []

/-! ## Requests -/

/-- The requests that one table answers by itself. -/
def dispatch (i : Fin n) (req : Request) : Serving n Response := do
  let schema := (T.store i).describe
  match req with
  | .getById id =>
    match ← read i (.get id) with
    | some fields => return .record id fields
    | none => return .notFound
  | .filterEq field value =>
    match ← read i (.filterEq field value) with
    | .ok records => return .recordList records
    | .error code => return errResponse code
  | .scanField field =>
    match ← read i (.scanField field) with
    | .ok values => return .scanValues values
    | .error code => return errResponse code
  | .query select filter limit =>
    match validateQuery schema select filter with
    | .ok () => return .rows (evaluateQuery (← scanAll i) select filter limit)
    | .error code => return errResponse code
  | .aggregate groupBy filter aggregates limit =>
    match validateAggregate schema groupBy filter aggregates with
    | .ok () =>
      return .groups (evaluateAggregate (← scanAll i) groupBy filter aggregates limit schema)
    | .error code => return errResponse code
  | .updateField id field value =>
    match ← write i (.updateField id field value) with
    | .ok true => return .ok
    | .ok false => return .notFound
    | .error code => return errResponse code
  | .parent id =>
    match ← read i (.parent id) with
    | .ok (.parent parent) => return .id parent
    | .ok .noParent => return .noParent
    | .ok .childNotFound => return .notFound
    | .error code => return errResponse code
  | .children id =>
    match ← read i (.children id) with
    | .ok records => return .recordList records
    | .error code => return errResponse code
  | .neighbors id =>
    match ← read i (.neighbors id) with
    | .ok records => return .recordList records
    | .error code => return errResponse code
  | .neighborsByRelation id relation =>
    match ← read i (.neighborsByRelation id relation) with
    | .ok records => return .recordList records
    | .error code => return errResponse code
  | .listRelationKinds => return .relationKinds (← read i .listRelationKinds)
  | .countEdges relation =>
    match ← read i (.countEdges relation) with
    | .ok count => return .count count
    | .error code => return errResponse code
  | .writeBatch ops atomic =>
    match ← T.writeBatch i ops atomic with
    | .ok results => return .batchResults results
    | .error e => return transactionFailed e
  | .join spec =>
    match validateJoin schema (← T.describeRelations i) none spec with
    | .ok () => return .joinedRows (← evaluateJoin i i spec)
    | .error code => return errResponse code
  | .use table => return if table = (T.store i).tableName then .ok else errResponse .malformed
  | .listTables => return .tables [(T.store i).tableName] (T.store i).tableName
  | .describeRelations => return .relations (← T.describeRelations i)
  | .insert id fields =>
    match ← write i (.insertRecord id fields) with
    | .ok .inserted => return .ok
    | .ok .duplicate => return errResponse .duplicate
    | .error code => return errResponse code
  | .link left right relation =>
    match ← write i (.linkRecords left right relation) with
    | .ok _ => return .ok
    | .error code => return errResponse code
  | .replace id fields =>
    match ← write i (.replaceRecord id fields) with
    | .ok .replaced => return .ok
    | .ok .notFound => return .notFound
    | .error code => return errResponse code
  | .delete id =>
    match ← write i (.deleteRecord id) with
    | .ok .deleted => return .ok
    | .ok .notFound => return .notFound
    | .error code => return errResponse code
  | .replaceIf id fields guard =>
    match validatePredicate schema guard with
    | .error code => return errResponse code
    | .ok () =>
      match ← write i (.replaceRecordIf id fields guard) with
      | .ok .replaced => return .ok
      | .ok .notFound => return .notFound
      | .ok .guardFailed => return errResponse .guardFailed
      | .error code => return errResponse code
  | .page orderBy after limit =>
    match validatePage schema orderBy after limit with
    | .error code => return errResponse code
    | .ok () =>
      match ← T.page i orderBy after limit.toNat with
      | .ok rows => return .rows rows
      | .error code => return errResponse code
  | .compact =>
    match ← write i .compact with
    | .ok report =>
      return .compacted (UInt64.ofNat report.records) (UInt64.ofNat report.slotsReclaimed)
        (UInt64.ofNat report.logEntriesFolded) (UInt64.ofNat report.edgeLogsFolded)
    | .error code => return errResponse code
  | .describeSchema => return .schema schema
  -- These are the connection's own, which answers them before it comes to a table.
  | .authenticate _ | .hello _ | .begin | .beginWith _ | .commit | .rollback =>
    return errResponse .unsupported
  | .transaction updates =>
    match ← T.applyTransaction i updates [] with
    | .ok () => return .ok
    | .error e => return transactionFailed e

/-! ## Requests that reach several tables -/

def joinAcross (i : Fin n) (spec : JoinSpec) : Serving n Response := do
  let right := spec.rightTable.bind T.position
  let relations ← T.describeRelations i
  match validateJoin (T.store i).describe relations (right.map fun j => (T.store j).describe) spec,
      right with
  | .ok (), some j => return .joinedRows (← evaluateJoin i j spec)
  | .ok (), none => return errResponse .malformed
  | .error code, _ => return errResponse code

/-- The edges to a record of table `this` go from the relations of one table. -/
def detachRelations (j : Fin n) (this : String) (id : RecordId) :
    List RelationDescriptor → Serving n (Option ErrorCode)
  | [] => pure none
  | relation :: relations => do
    if relation.targetTable = some this then
      match ← write j (.detachRecord relation.name id) with
      | .ok _ | .error .unsupported | .error .malformed => detachRelations j this id relations
      | .error code => return some code
    else
      detachRelations j this id relations

def detachTables (this : String) (id : RecordId) : List (Fin n) → Serving n Response
  | [] => pure .ok
  | j :: js =>
    if T.name j = this then
      detachTables this id js
    else do
      let relations ← T.describeRelations j
      match ← detachRelations j this id relations with
      | some code => return errResponse code
      | none => detachTables this id js

def deleteAcross (i : Fin n) (id : RecordId) : Serving n Response := do
  let resp ← T.dispatch i (.delete id)
  if resp = .ok then
    T.detachTables (T.store i).tableName id (List.finRange n)
  else
    return resp

def linkAcross (i : Fin n) (left right : RecordId) (relation : String) : Serving n Response := do
  let relations ← T.describeRelations i
  match (relations.find? fun r => r.name = relation).bind (·.targetTable) with
  | none => T.dispatch i (.link left right relation)
  | some target =>
    match T.position target with
    | none => return errResponse .unsupported
    | some j =>
      match ← read j (.get right) with
      | none => return errResponse .recordNotFound
      | some _ => T.dispatch i (.link left right relation)

end Tables

end MultimodalDb
