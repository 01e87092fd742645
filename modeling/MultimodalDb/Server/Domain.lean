import MultimodalDb.Server.Journal
import MultimodalDb.Server.Stack

/-!
# Adapters

What a connection's requests do to a table. The adapters of the domains are written alike and differ
in what `Domain` holds: the record type and its wire shape, the one field that `UpdateField` and
transactions write, and the labels that `Link` accepts. Each of their functions is the one here at
the domain's own values.

A write whose storage fails answers `Storage`. What the storage does for each write is an argument
(`Storage`); a batch has a list of them, and beyond its end the storage works.
-/

namespace MultimodalDb

/-! ## Predicates -/

def valueMatchesKind : ValueKind → ScanValue → Bool
  | .u32, .u32 _ => true
  | .i64, .i64 _ => true
  | .bool, .bool _ => true
  | .str, .str _ => true
  | _, _ => false

def validatePredicate (schema : DomainSchema) (predicate : Predicate) : Except ErrorCode Unit :=
  match (schema.fields.find? fun f => f.tag = predicate.field).map (·.valueKind) with
  | none => .error .unknownField
  | some kind =>
    if valueMatchesKind kind predicate.value = false then
      .error .malformed
    else if predicate.op.isOrdering && !(kind = .u32 || kind = .i64) then
      .error .malformed
    else
      .ok ()

def orderingMatches (ordering : Ordering) (op : CompareOp) : Bool :=
  match op, ordering with
  | .lt, .lt | .gt, .gt | .le, .lt | .le, .eq | .ge, .gt | .ge, .eq => true
  | _, _ => false

def compareValues (actual : ScanValue) (op : CompareOp) (expected : ScanValue) : Bool :=
  match op with
  | .eq => actual = expected
  | .ne => actual ≠ expected
  | .lt | .le | .gt | .ge =>
    match actual, expected with
    | .u32 a, .u32 b => orderingMatches (compare a b) op
    | .i64 a, .i64 b => orderingMatches (compare a.toInt b.toInt) op
    | _, _ => false

def predicateMatches (fields : Fields) (predicate : Predicate) : Bool :=
  match fields.find? fun f => f.1 = predicate.field with
  | some (_, value) => compareValues value predicate.op predicate.value
  | none => false

/-! ## Domains -/

/-- A read that a session's commit checks again. -/
abbrev TrackedRead := RecordId × FieldRef × ScanValue

inductive InsertOutcome where
  | inserted
  | duplicate
  deriving DecidableEq

inductive ReplaceOutcome where
  | replaced
  | notFound
  deriving DecidableEq

inductive ReplaceIfOutcome where
  | replaced
  | notFound
  | guardFailed
  deriving DecidableEq

inductive DeleteOutcome where
  | deleted
  | notFound
  deriving DecidableEq

/-- What the adapters differ in. -/
structure Domain (R V : Type) where
  id : R → RecordId
  /-- The wire shape of a record, in tag order. -/
  fieldsOf : R → Fields
  fromFields : RecordId → Fields → Except ErrorCode R
  /-- The field that `UpdateField` and transactions write, and the values they write to it. -/
  field : FieldRef
  ofScan : ScanValue → Option V
  valid : V → Bool
  set : V → R → R
  readOnly : List FieldRef
  schema : DomainSchema
  /-- What `Link` says to a label before it looks at the stack. -/
  checkLabel : String → Except ErrorCode Unit
  foreign : String → Bool
  id_set : ∀ v r, id (set v r) = id r
  set_set : ∀ v w r, set v (set w r) = set v r
  id_fromFields : ∀ {i fields r}, fromFields i fields = .ok r → id r = i
  valid_checkLabel : ∀ {label}, checkLabel label = .ok () → validRelationLabel label = true

namespace Domain

/-- A domain without relations accepts no label. -/
theorem valid_of_unsupported {label : String}
    (h : (.error .unsupported : Except ErrorCode Unit) = .ok ()) :
    validRelationLabel label = true := by
  cases h

variable {R V : Type} (D : Domain R V)

/-- The precondition of one write of the field; `found` says that its record is there. -/
def checkWrite (field : FieldRef) (value : ScanValue) (found : Bool) : Except ErrorCode V :=
  if field = D.field then
    match D.ofScan value with
    | none => .error .malformed
    | some v =>
      if D.valid v = false then
        .error .malformed
      else if found then
        .ok v
      else
        .error .recordNotFound
  else if field ∈ D.readOnly then
    .error .unsupported
  else
    .error .unknownField

/-- `validate_batch` from operation `i` on. -/
def validateBatch (found : RecordId → Bool) : Nat → Batch → Except (Nat × ErrorCode) Unit
  | _, [] => .ok ()
  | i, op :: ops =>
    match D.checkWrite op.field op.value (found op.id) with
    | .error code => .error (i, code)
    | .ok _ => validateBatch found (i + 1) ops

/-- `apply_batch` from operation `i` on. It stops at the first record that is not there. -/
def applyBatch : Nat → Batch → Stack R → Except (Nat × ErrorCode) Unit × Stack R
  | _, [], s => (.ok (), s)
  | i, op :: ops, s =>
    match D.ofScan op.value with
    | none => applyBatch (i + 1) ops s
    | some v =>
      match s.update D.set op.id v with
      | (true, s') => applyBatch (i + 1) ops s'
      | (false, s') => (.error (i, .recordNotFound), s')

/-- The committed value of a field of a record. -/
def current (s : Stack R) (id : RecordId) (field : FieldRef) : Option ScanValue :=
  (s.rows id).bind fun r => ((D.fieldsOf r).find? fun f => f.1 = field).map (·.2)

def checkReadSet (reads : List TrackedRead) (s : Stack R) : Except (Nat × ErrorCode) Unit :=
  if reads.all fun (id, field, value) => D.current s id field = some value then
    .ok ()
  else
    .error (0, .conflict)

/-! ### The methods of a connection store -/

def get (s : Stack R) (id : RecordId) : Option Fields := (s.rows id).map D.fieldsOf

def updateField (s : Stack R) (id : RecordId) (field : FieldRef) (value : ScanValue) :
    Except ErrorCode Bool × Stack R :=
  match D.checkWrite field value true with
  | .error code => (.error code, s)
  | .ok v =>
    let (found, s') := s.update D.set id v
    (.ok found, s')

/-- A change of one record, made when its log entry is durable. -/
def whenLogged {α : Type} (storage : Storage) (reply : α) (s s' : Stack R) :
    Except ErrorCode α × Stack R :=
  match storage with
  | .works => (.ok reply, s')
  | .refuses | .stops _ => (.error .storage, s)

/-- `insert` of the stack. -/
def insertRow (storage : Storage) (s : Stack R) (r : R) :
    Except ErrorCode InsertOutcome × Stack R :=
  match s.rows (D.id r) with
  | some _ => (.ok .duplicate, s)
  | none => whenLogged storage .inserted s (s.setRow (D.id r) (some r))

def insertRecord (storage : Storage) (s : Stack R) (id : RecordId) (fields : Fields) :
    Except ErrorCode InsertOutcome × Stack R :=
  match D.fromFields id fields with
  | .error code => (.error code, s)
  | .ok r => D.insertRow storage s r

/-- `replace` of the stack. -/
def replaceRow (storage : Storage) (s : Stack R) (r : R) :
    Except ErrorCode ReplaceOutcome × Stack R :=
  match s.rows (D.id r) with
  | none => (.ok .notFound, s)
  | some _ => whenLogged storage .replaced s (s.setRow (D.id r) (some r))

def replaceRecord (storage : Storage) (s : Stack R) (id : RecordId) (fields : Fields) :
    Except ErrorCode ReplaceOutcome × Stack R :=
  match D.fromFields id fields with
  | .error code => (.error code, s)
  | .ok r => D.replaceRow storage s r

/-- `replace_if` of the stack: the read, the guard and the write under one lock. -/
def replaceRowIf (storage : Storage) (s : Stack R) (r : R) (guard : Predicate) :
    Except ErrorCode ReplaceIfOutcome × Stack R :=
  match s.rows (D.id r) with
  | none => (.ok .notFound, s)
  | some stored =>
    if predicateMatches (D.fieldsOf stored) guard then
      whenLogged storage .replaced s (s.setRow (D.id r) (some r))
    else
      (.ok .guardFailed, s)

def replaceRecordIf (storage : Storage) (s : Stack R) (id : RecordId) (fields : Fields)
    (guard : Predicate) : Except ErrorCode ReplaceIfOutcome × Stack R :=
  match D.fromFields id fields with
  | .error code => (.error code, s)
  | .ok r => D.replaceRowIf storage s r guard

/-- `delete` of the stack: the record's tombstone, and then one under each label that has an edge of
the record. -/
def deleteRecord (storage : Storage) (s : Stack R) (id : RecordId) :
    Except ErrorCode DeleteOutcome × Stack R :=
  match s.delete id with
  | (false, s') => (.ok .notFound, s')
  | (true, s') =>
    match storage with
    | .works => (.ok .deleted, s')
    | .refuses => (.error .storage, s)
    | .stops done =>
      if s.edgesWithin id done then (.ok .deleted, s') else (.error .storage, s.deletePart id done)

/-- The answer to a link the stack refused. -/
def linkErrorCode : LinkError → ErrorCode
  | .unknownRecord _ => .recordNotFound
  | .selfLoop _ | .invalidLabel _ => .malformed

/-- `link` of the stack: the files of a new label, and then the edge's log entry. -/
def linkRow (storage : Storage) (s : Stack R) (left right : RecordId) (relation : String) :
    Except ErrorCode LinkOutcome × Stack R :=
  match s.link D.foreign relation left right with
  | (.error e, s') => (.error (linkErrorCode e), s')
  | (.ok .alreadyLinked, s') => (.ok .alreadyLinked, s')
  | (.ok .linked, s') =>
    match storage with
    | .works => (.ok .linked, s')
    | .refuses => (.error .storage, s)
    | .stops _ => (.error .storage, s.withLabel relation)

def linkRecords (storage : Storage) (s : Stack R) (left right : RecordId) (relation : String) :
    Except ErrorCode LinkOutcome × Stack R :=
  match D.checkLabel relation with
  | .error code => (.error code, s)
  | .ok () => D.linkRow storage s left right relation

def detachRecord (storage : Storage) (s : Stack R) (relation : String) (id : RecordId) :
    Except ErrorCode Nat × Stack R :=
  match D.checkLabel relation with
  | .error code => (.error code, s)
  | .ok () =>
    match s.detach relation id with
    | (none, s') => (.error .malformed, s')
    -- without an edge to drop nothing is logged
    | (some 0, s') => (.ok 0, s')
    | (some n, s') => whenLogged storage n s s'

/-! ### Batches of writes -/

/-- `apply_write_op`: one write of a batch, through the method that a single request would call. -/
def applyWriteOp (storage : Storage) (op : WriteOp) (s : Stack R) : WriteResult × Stack R :=
  match op with
  | .insert id fields =>
    match D.insertRecord storage s id fields with
    | (.ok .inserted, s') => (.inserted, s')
    | (.ok .duplicate, s') => (.duplicate, s')
    | (.error code, s') => (.failed code, s')
  | .replace id fields =>
    match D.replaceRecord storage s id fields with
    | (.ok .replaced, s') => (.replaced, s')
    | (.ok .notFound, s') => (.notFound, s')
    | (.error code, s') => (.failed code, s')
  | .replaceIf id fields guard =>
    match D.replaceRecordIf storage s id fields guard with
    | (.ok .replaced, s') => (.replaced, s')
    | (.ok .guardFailed, s') => (.guardFailed, s')
    | (.ok .notFound, s') => (.notFound, s')
    | (.error code, s') => (.failed code, s')
  | .delete id =>
    match deleteRecord storage s id with
    | (.ok .deleted, s') => (.deleted, s')
    | (.ok .notFound, s') => (.notFound, s')
    | (.error code, s') => (.failed code, s')
  | .link left right relation =>
    match D.linkRecords storage s left right relation with
    | (.ok .linked, s') => (.linked, s')
    | (.ok .alreadyLinked, s') => (.alreadyLinked, s')
    | (.error code, s') => (.failed code, s')

end Domain

/-- A write of an atomic batch with its fields parsed and its guard and label checked. -/
inductive PreparedWrite (R : Type) where
  | insert (r : R)
  | replace (r : R)
  | replaceIf (r : R) (guard : Predicate)
  | delete (id : RecordId)
  | link (left right : RecordId) (relation : String)

namespace Domain

variable {R V : Type} (D : Domain R V)

def prepareWrite (op : WriteOp) : Except ErrorCode (PreparedWrite R) :=
  match op with
  | .insert id fields => (D.fromFields id fields).map .insert
  | .replace id fields => (D.fromFields id fields).map .replace
  | .replaceIf id fields guard =>
    match validatePredicate D.schema guard with
    | .error code => .error code
    | .ok () => (D.fromFields id fields).map (.replaceIf · guard)
  | .delete id => .ok (.delete id)
  | .link left right relation => (D.checkLabel relation).map fun _ => .link left right relation

def applyPrepared (storage : Storage) (prepared : PreparedWrite R) (s : Stack R) :
    Except ErrorCode WriteResult × Stack R :=
  match prepared with
  | .insert r =>
    match D.insertRow storage s r with
    | (.ok .inserted, s') => (.ok .inserted, s')
    | (.ok .duplicate, s') => (.ok .duplicate, s')
    | (.error code, s') => (.error code, s')
  | .replace r =>
    match D.replaceRow storage s r with
    | (.ok .replaced, s') => (.ok .replaced, s')
    | (.ok .notFound, s') => (.ok .notFound, s')
    | (.error code, s') => (.error code, s')
  | .replaceIf r guard =>
    match s.rows (D.id r) with
    | none => (.ok .notFound, s)
    | some stored =>
      if predicateMatches (D.fieldsOf stored) guard then
        match D.replaceRow storage s r with
        | (.ok .replaced, s') => (.ok .replaced, s')
        | (.ok .notFound, s') => (.ok .notFound, s')
        | (.error code, s') => (.error code, s')
      else
        (.ok .guardFailed, s)
  | .delete id =>
    match deleteRecord storage s id with
    | (.ok .deleted, s') => (.ok .deleted, s')
    | (.ok .notFound, s') => (.ok .notFound, s')
    | (.error code, s') => (.error code, s')
  | .link left right relation =>
    match D.linkRow storage s left right relation with
    | (.ok .linked, s') => (.ok .linked, s')
    | (.ok .alreadyLinked, s') => (.ok .alreadyLinked, s')
    | (.error code, s') => (.error code, s')

/-- The first part of an atomic batch, with no lock held. -/
def prepareAll : Nat → List WriteOp → Except (Nat × ErrorCode) (List (PreparedWrite R))
  | _, [] => .ok []
  | i, op :: ops =>
    match D.prepareWrite op with
    | .error code => .error (i, code)
    | .ok prepared => (prepareAll (i + 1) ops).map (prepared :: ·)

/-- The link whose left endpoint is not in the table, if there is one. -/
def missingLeft (s : Stack R) : Nat → List (PreparedWrite R) → Option Nat
  | _, [] => none
  | i, .link left _ _ :: rest =>
    if (s.rows left).isNone then some i else missingLeft s (i + 1) rest
  | i, _ :: rest => missingLeft s (i + 1) rest

/-- What the storage does for a write of a batch. -/
def storageAt (storage : List Storage) (i : Nat) : Storage := storage[i]?.getD .works

@[simp] theorem storageAt_nil (i : Nat) : storageAt [] i = .works := rfl

/-- The prepared writes in order. The first that fails ends the batch; what was written stays. -/
def applyAll (storage : List Storage) : Nat → List (PreparedWrite R) → Stack R →
    Except (Nat × ErrorCode) (List WriteResult) × Stack R
  | _, [], s => (.ok [], s)
  | i, prepared :: rest, s =>
    match D.applyPrepared (storageAt storage i) prepared s with
    | (.error code, s') => (.error (i, code), s')
    | (.ok result, s') =>
      let (results, s'') := applyAll storage (i + 1) rest s'
      (results.map (result :: ·), s'')

/-- The part of an atomic batch under the lock. -/
def applyExclusive (storage : List Storage) (prepared : List (PreparedWrite R)) (s : Stack R) :
    Except (Nat × ErrorCode) (List WriteResult) × Stack R :=
  match missingLeft s 0 prepared with
  | some i => (.error (i, .recordNotFound), s)
  | none => D.applyAll storage 0 prepared s

/-- `write_batch` of an atomic batch. -/
def writeAtomic (storage : List Storage) (ops : List WriteOp) (s : Stack R) :
    Except (Nat × ErrorCode) (List WriteResult) × Stack R :=
  match D.prepareAll 0 ops with
  | .error e => (.error e, s)
  | .ok prepared => D.applyExclusive storage prepared s

/-- `write_batch` of a pipelined batch from write `i` on: each on its own. -/
def writePipelined (storage : List Storage) :
  Nat → List WriteOp → Stack R → List WriteResult × Stack R
  | _, [], s => ([], s)
  | i, op :: ops, s =>
    let (result, s') := D.applyWriteOp (storageAt storage i) op s
    let (results, s'') := writePipelined storage (i + 1) ops s'
    (result :: results, s'')

def writeBatch (storage : List Storage) (ops : List WriteOp) (atomic : Bool) (s : Stack R) :
    Except (Nat × ErrorCode) (List WriteResult) × Stack R :=
  if atomic then
    D.writeAtomic storage ops s
  else
    let (results, s') := D.writePipelined storage 0 ops s
    (.ok results, s')

end Domain

end MultimodalDb
