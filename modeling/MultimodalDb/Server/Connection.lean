import MultimodalDb.Server.Tables

/-!
# Connections

What a connection keeps between its requests, and what each request does: the gates that it passes
one after another, the session that it opens, stages writes in and ends, and the table that it is
on. The budget of failed logins that connections of one peer share is an input of a login.
-/

namespace MultimodalDb

inductive TokenClass where
  | readOnly
  | readWrite
  deriving DecidableEq

def MAX_AUTH_FAILURES : Nat := 5

structure ServeOptions where
  readOnlyToken : Option String
  readWriteToken : Option String
  certificateClasses : List (Bytes × TokenClass)

namespace ServeOptions

variable (options : ServeOptions)

def isConfigured : Bool :=
  options.readOnlyToken.isSome || options.readWriteToken.isSome ||
    !options.certificateClasses.isEmpty

/-- The class of a token. A token that is both is read-only. -/
def check (token : String) : Option TokenClass :=
  if options.readOnlyToken = some token then
    some .readOnly
  else if options.readWriteToken = some token then
    some .readWrite
  else
    none

def classForCertificate (leaf : Bytes) : Option TokenClass :=
  (options.certificateClasses.find? fun c => c.1 = leaf).map (·.2)

end ServeOptions

/-! ## Sessions -/

/-- The reads that a session tracks, each key with the value it was last read to have. -/
abbrev ReadSet := List ((RecordId × FieldRef) × ScanValue)

/-- One value read. A key beyond the cap is not tracked. -/
def trackRead (reads : ReadSet) (key : RecordId × FieldRef) (value : ScanValue) : ReadSet :=
  if key ∈ reads.map (·.1) then
    reads.map fun entry => if entry.1 = key then (key, value) else entry
  else if reads.length < MAX_TRACKED_READS then
    reads ++ [(key, value)]
  else
    reads

def recordReadSet (reads : ReadSet) (id : RecordId) (fields : Fields) : ReadSet :=
  fields.foldl (fun reads (field, value) => trackRead reads (id, field) value) reads

/-- The read set as a commit passes it on. -/
def trackedReads (reads : ReadSet) : List TrackedRead :=
  reads.map fun ((id, field), value) => (id, field, value)

def sameKind : ScanValue → ScanValue → Bool
  | .u32 _, .u32 _ | .i64 _, .i64 _ | .bool _, .bool _ | .str _, .str _ | .f64 _, .f64 _
  | .strList _, .strList _ => true
  | _, _ => false

/-- The fields of a record with the last write that is staged for each laid over them. -/
def overlayStaged (id : RecordId) (fields : Fields) (staged : Batch)
    (updatable : List FieldRef) : Fields :=
  fields.map fun (field, value) =>
    if field ∈ updatable then
      match staged.reverse.find? fun op => op.id = id ∧ op.field = field with
      | some op => if sameKind op.value value then (field, op.value) else (field, value)
      | none => (field, value)
    else
      (field, value)

structure Conn (n : Nat) where
  authenticated : Option TokenClass
  firstFrame : Bool
  negotiated : UInt32
  table : Fin n
  session : Option Batch
  /-- The updatable fields, while a session reads its own writes. -/
  readYourWrites : Option (List FieldRef)
  validateOnStage : Bool
  snapshotReads : Option ReadSet
  failures : Nat
  deriving DecidableEq

/-- What becomes of a request: the connection after it, the answer, and whether the server hangs up.
-/
structure Served (n : Nat) where
  conn : Conn n
  response : Response
  closed : Bool

/-! ## Responses -/

def isStrList : ScanValue → Bool
  | .strList _ => true
  | _ => false

/-- The nearest older shape of a response. -/
def downgradeForVersion (resp : Response) (negotiated : UInt32) : Response :=
  match resp with
  | .record id fields =>
    if negotiated < 11 then .record id (fields.filter fun f => !isStrList f.2) else resp
  | .rows rows =>
    if negotiated < 11 then
      .rows (rows.map fun (id, fields) => (id, fields.filter fun f => !isStrList f.2))
    else
      resp
  | .schema schema =>
    if negotiated < 11 then
      .schema { schema with fields := schema.fields.filter fun f => f.valueKind ≠ .strList }
    else
      resp
  | .transactionFailed index .journal _ =>
    if negotiated < 4 then transactionFailed (index, .unsupported) else resp
  | .transactionFailed index .conflict _ =>
    if negotiated < 7 then transactionFailed (index, .unsupported) else resp
  | _ => resp

namespace Tables

variable {n : Nat} {σ : Fin n → Type} (T : Tables n σ)

/-- A connection that was just accepted. -/
def admitted (options : ServeOptions) (certificate : Option Bytes) : Conn n where
  authenticated :=
    match certificate.bind options.classForCertificate with
    | some cls => some cls
    | none => if options.isConfigured then none else some .readWrite
  firstFrame := true
  negotiated := 1
  table := T.primary
  session := none
  readYourWrites := none
  validateOnStage := false
  snapshotReads := none
  failures := 0

def hello (c : Conn n) (protocolVersion : UInt32) : Conn n × Response :=
  if c.firstFrame = false || protocolVersion = 0 then
    ({ c with firstFrame := false }, errResponse .malformed)
  else
    let negotiated := min protocolVersion PROTOCOL_VERSION
    ({ c with firstFrame := false, negotiated }, .hello negotiated)

/-- A login. `throttled` says that the peer is over its budget of failed ones. -/
def authenticate (options : ServeOptions) (throttled : Bool) (c : Conn n) (token : String) :
    Conn n × Response :=
  if options.isConfigured = false then
    (c, .ok)
  else if throttled then
    ({ c with failures := c.failures + 1 }, errResponse .unauthenticated)
  else
    match options.check token with
    | some cls => ({ c with authenticated := some cls }, .ok)
    | none => ({ c with failures := c.failures + 1 }, errResponse .unauthenticated)

/-- The requests that a read-only connection is refused. -/
def isWrite : Request → Bool
  | .updateField .. | .transaction _ | .commit | .insert .. | .link .. | .replace .. | .delete _
  | .compact | .replaceIf .. | .writeBatch .. => true
  | _ => false

/-! ## The session's requests -/

def knownFlags (negotiated : UInt32) : UInt32 :=
  SESSION_READ_YOUR_WRITES ||| (if 6 ≤ negotiated then SESSION_VALIDATE_ON_STAGE else 0) |||
    (if 7 ≤ negotiated then SESSION_SNAPSHOT_ISOLATION else 0)

def hasFlag (flags flag : UInt32) : Bool := flags &&& flag ≠ 0

def updatable (schema : DomainSchema) : List FieldRef :=
  (schema.fields.filter fun f => f.capabilities.update).map (·.tag)

def beginWith (c : Conn n) (flags : UInt32) : Conn n × Response :=
  if flags &&& ~~~knownFlags c.negotiated ≠ 0 then
    (c, errResponse .malformed)
  else if c.session.isSome then
    (c, errResponse .sessionOpen)
  else
    ({ c with
        session := some []
        readYourWrites :=
          if hasFlag flags SESSION_READ_YOUR_WRITES
            then some (updatable (T.store c.table).describe) else none
        validateOnStage := hasFlag flags SESSION_VALIDATE_ON_STAGE
        snapshotReads := if hasFlag flags SESSION_SNAPSHOT_ISOLATION then some [] else none }, .ok)

def begin (c : Conn n) : Conn n × Response :=
  if c.session.isSome then
    (c, errResponse .sessionOpen)
  else
    ({ c with
      session := some [], readYourWrites := none, validateOnStage := false, snapshotReads := none },
      .ok)

/-- The connection with its session's state dropped. -/
def endSession (c : Conn n) : Conn n :=
  { c with
    session := none, readYourWrites := none, validateOnStage := false, snapshotReads := none }

def rollback (c : Conn n) : Conn n × Response :=
  (endSession c, if c.session.isSome then .ok else errResponse .noSession)

def commit (c : Conn n) : Serving n (Conn n × Response) :=
  match c.session with
  | none => pure (endSession c, errResponse .noSession)
  | some batch => do
    match ← T.applyTransaction c.table batch (c.snapshotReads.elim [] trackedReads) with
    | .ok () => return (endSession c, .ok)
    | .error e => return (endSession c, transactionFailed e)

/-- A write that joins the staged ones, unless there are too many. -/
def pushStaged (c : Conn n) (staged : Batch) (op : TransactionOp) : Conn n × Response :=
  if staged.length < MAX_STAGED_OPS then
    ({ c with session := some (staged ++ [op]) }, .staged staged.length)
  else
    (c, errResponse .sessionFull)

/-- A write in a session. -/
def stage (c : Conn n) (staged : Batch) (op : TransactionOp) : Serving n (Conn n × Response) :=
  if c.validateOnStage then do
    match ← read c.table (.validateOp op) with
    | .error code => return (c, errResponse code)
    | .ok () => return pushStaged c staged op
  else
    pure (pushStaged c staged op)

/-- A read of a record in a session. The committed values are tracked, the staged ones are shown. -/
def getInSession (c : Conn n) (staged : Batch) (id : RecordId) : Serving n (Conn n × Response) := do
  match ← read c.table (.get id) with
  | none => return (c, .notFound)
  | some fields =>
    let snapshotReads := c.snapshotReads.map fun reads => recordReadSet reads id fields
    let shown := c.readYourWrites.elim fields (overlayStaged id fields staged)
    return ({ c with snapshotReads }, .record id shown)

/-! ## The gates of a request -/

/-- A write that is never staged: refused in a session, and unknown below the version that brought
it. -/
def unstaged (c : Conn n) (since : UInt32) (serve : Serving n Response) : Serving n Response :=
  if c.session.isSome then
    pure (errResponse .sessionOpen)
  else if c.negotiated < since then
    pure (errResponse .malformed)
  else
    serve

/-- A request that is unknown below a version. -/
def versioned (c : Conn n) (since : UInt32) (serve : Serving n Response) : Serving n Response :=
  if c.negotiated < since then pure (errResponse .malformed) else serve

/-- A request behind the authentication and read-only gates. -/
def request (c : Conn n) (req : Request) : Serving n (Conn n × Response) :=
  let keep (serve : Serving n Response) : Serving n (Conn n × Response) := do return (c, ← serve)
  match req with
  | .begin => pure (if c.negotiated < 3 then (c, errResponse .malformed) else begin c)
  | .commit => if c.negotiated < 3 then pure (c, errResponse .malformed) else T.commit c
  | .rollback => pure (if c.negotiated < 3 then (c, errResponse .malformed) else rollback c)
  | .beginWith flags => pure (if c.negotiated < 5 then (c, errResponse .malformed)
      else T.beginWith c flags)
  | .getById id =>
    match c.session with
    | some staged =>
      if c.readYourWrites.isSome || c.snapshotReads.isSome then
        getInSession c staged id
      else
        keep (T.dispatch c.table req)
    | none => keep (T.dispatch c.table req)
  | .updateField id field value =>
    match c.session with
    | some staged => stage c staged ⟨id, field, value⟩
    | none => keep (T.dispatch c.table req)
  | .transaction _ => keep (unstaged c 0 (T.dispatch c.table req))
  | .insert .. => keep (unstaged c 13 (T.dispatch c.table req))
  | .link left right relation => keep (unstaged c 14 (T.linkAcross c.table left right relation))
  | .replace .. => keep (unstaged c 15 (T.dispatch c.table req))
  | .delete id => keep (unstaged c 17 (T.deleteAcross c.table id))
  | .compact => keep (unstaged c 18 (T.dispatch c.table req))
  | .replaceIf .. => keep (unstaged c 19 (T.dispatch c.table req))
  | .writeBatch ops _ =>
    keep (unstaged c 22
      (if MAX_BATCH_OPS < ops.length then pure (errResponse .malformed)
        else T.dispatch c.table req))
  | .join spec =>
    keep (versioned c 12
      (if spec.rightTable.isSome then T.joinAcross c.table spec else T.dispatch c.table req))
  | .describeRelations => keep (versioned c 12 (T.dispatch c.table req))
  | .page .. => keep (versioned c 20 (T.dispatch c.table req))
  | .countEdges _ => keep (versioned c 21 (T.dispatch c.table req))
  | .use table =>
    pure (if c.negotiated < 16 then (c, errResponse .malformed)
      else if c.session.isSome then (c, errResponse .sessionOpen)
      else
        match T.position table with
        | some i => ({ c with table := i }, .ok)
        | none => (c, errResponse .malformed))
  | .listTables =>
    keep (versioned c 16 (pure (.tables ((List.finRange n).map T.name) (T.name T.primary))))
  | _ => keep (T.dispatch c.table req)

/-- One turn of the connection's loop. -/
def handle (options : ServeOptions) (throttled : Bool) (c : Conn n) (req : Request) :
    Serving n (Served n) :=
  match req with
  | .hello protocolVersion =>
    let (c, resp) := hello c protocolVersion
    pure ⟨c, resp, false⟩
  | .authenticate token =>
    let (c, resp) := authenticate options throttled { c with firstFrame := false } token
    pure ⟨c, resp, MAX_AUTH_FAILURES ≤ c.failures⟩
  | req =>
    let c := { c with firstFrame := false }
    match c.authenticated with
    | none => pure ⟨c, errResponse .unauthenticated, false⟩
    | some cls =>
      if cls = .readOnly && isWrite req then
        pure ⟨c, errResponse .unauthorized, false⟩
      else do
        let (c, resp) ← T.request c req
        return ⟨c, downgradeForVersion resp c.negotiated, false⟩

end Tables

end MultimodalDb
