import MultimodalDb.Lib.Program
import MultimodalDb.Server.Protocol
import Mathlib.Data.List.AList

/-!
# The client

A client that knows its server by the schema it asked for. Its methods are programs of requests; the
reply to one is the server's response, or says that the frames did not cross.

`Gives A m c Q` tells of a method what it comes to, from the client `c`, behind replies that satisfy
`A`; and `Tells R m c made` what it comes to in terms of the requests made until then.
-/

namespace MultimodalDb

inductive ClientError where
  | frame
  | unknownField (name : String)
  | unsupported (what : String)
  | server (code : ErrorCode) (message : String)
  | unexpectedResponse (expected : String)
  | sql (message : String)
  deriving DecidableEq

structure SchemaDrivenClient where
  schema : DomainSchema
  relations : List RelationDescriptor
  serverProtocolVersion : UInt32
  /-- The table that was selected; none is the server's primary one. -/
  currentTable : Option String
  tableSchemas : AList fun _ : String => DomainSchema

abbrev ClientReply (_ : Request) := Except ClientError Response

abbrev ClientM := ExceptT ClientError (StateT SchemaDrivenClient (Program Request ClientReply))

namespace ClientM

/-- What a method comes to, as long as the replies satisfy `A`. -/
def Gives {α : Type} (A : (req : Request) → ClientReply req → Prop) (m : ClientM α)
    (c : SchemaDrivenClient) (Q : Except ClientError α → SchemaDrivenClient → Prop) : Prop :=
  Program.Returns A (fun r => Q r.1 r.2) (m c)

variable {α β : Type} {A : (req : Request) → ClientReply req → Prop} {c : SchemaDrivenClient}
  {Q : Except ClientError α → SchemaDrivenClient → Prop}
  {R : Except ClientError β → SchemaDrivenClient → Prop} {m : ClientM α}

theorem gives_pure {a : α} (h : Q (.ok a) c) : Gives A (pure a) c Q := h

theorem gives_bind {f : α → ClientM β} (h : Gives A m c fun r c' =>
    match r with
    | .ok a => Gives A (f a) c' R
    | .error e => R (.error e) c') : Gives A (m >>= f) c R := by
  refine Program.Returns.bind (p := m c) h fun r hr => ?_
  obtain ⟨r | a, c'⟩ := r
  · exact hr
  · exact hr

def Tells {α : Type} (R : Program.Trace Request ClientReply → Except ClientError α →
    SchemaDrivenClient → Prop)
    (m : ClientM α) (c : SchemaDrivenClient) (made : Program.Trace Request ClientReply) : Prop :=
  Program.Yields (fun made r => R made r.1 r.2) (m c) made

section Tells

variable {made : Program.Trace Request ClientReply}
  {T : Program.Trace Request ClientReply → Except ClientError α → SchemaDrivenClient → Prop}
  {U : Program.Trace Request ClientReply → Except ClientError β → SchemaDrivenClient → Prop}

theorem tells_pure {a : α} (h : T made (.ok a) c) : Tells T (pure a) c made := h

theorem tells_throw {e : ClientError} (h : T made (.error e) c) : Tells T (throw e) c made := h

theorem tells_bind {f : α → ClientM β} (h : Tells (fun made r c' =>
    match r with
    | .ok a => Tells U (f a) c' made
    | .error e => U made (.error e) c') m c made) : Tells U (m >>= f) c made := by
  refine Program.Yields.bind (p := m c) h fun made r hr => ?_
  obtain ⟨r | a, c'⟩ := r
  · exact hr
  · exact hr

theorem tells_get {f : SchemaDrivenClient → ClientM β} (h : Tells U (f c) c made) :
    Tells U (get >>= f) c made := h

theorem tells_modify {f : SchemaDrivenClient → SchemaDrivenClient} {g : PUnit → ClientM β}
    (h : Tells U (g ⟨⟩) (f c) made) : Tells U (modify f >>= g) c made := h

end Tells

theorem gives_get {f : SchemaDrivenClient → ClientM β} (h : Gives A (f c) c R) :
    Gives A (get >>= f) c R := h

end ClientM

namespace SchemaDrivenClient

open ClientM

def roundtrip (req : Request) : ClientM Response :=
  fun c => Program.call req fun reply => .done (reply, c)

theorem gives_roundtrip {β : Type} {A : (req : Request) → ClientReply req → Prop}
    {c : SchemaDrivenClient} {R : Except ClientError β → SchemaDrivenClient → Prop} {req : Request}
    {f : Response → ClientM β} (h : ∀ reply, A req reply →
      match reply with
      | .ok response => Gives A (f response) c R
      | .error e => R (.error e) c) : Gives A (roundtrip req >>= f) c R := by
  refine gives_bind fun reply hReply => ?_
  have hNext := h reply hReply
  cases reply with
  | ok response => exact hNext
  | error e => exact hNext

/-- The same in terms of the requests made. -/
theorem tells_roundtrip {β : Type} {c : SchemaDrivenClient}
    {made : Program.Trace Request ClientReply}
    {U : Program.Trace Request ClientReply → Except ClientError β → SchemaDrivenClient → Prop}
    {req : Request} {f : Response → ClientM β} (h : ∀ reply : ClientReply req,
      match reply with
      | .ok response => Tells U (f response) c (⟨req, Except.ok response⟩ :: made)
      | .error e => U (⟨req, Except.error e⟩ :: made) (.error e) c) :
    Tells U (roundtrip req >>= f) c made := by
  refine tells_bind fun reply => ?_
  have hNext := h reply
  cases reply with
  | ok response => exact hNext
  | error e => exact hNext

/-- The response of a request that is answered with records. -/
def recordList : Response → ClientM (List RecordId)
  | .recordList records => return records
  | .err code message => throw (.server code message)
  | _ => throw (.unexpectedResponse "RecordList")

def neighbors (id : RecordId) : ClientM (List RecordId) := do
  let c ← get
  if !c.schema.relations.neighbors then throw (.unsupported "Neighbors on this domain")
  recordList (← roundtrip (.neighbors id))

def neighborsByRelation (id : RecordId) (relation : String) : ClientM (List RecordId) := do
  let c ← get
  if !c.schema.relations.neighbors then throw (.unsupported "NeighborsByRelation on this domain")
  if c.serverProtocolVersion < 10 then throw (.unsupported "neighbors_by_relation")
  recordList (← roundtrip (.neighborsByRelation id relation))

/-! ## Tables -/

def listTables : ClientM (List String × String) := do
  let c ← get
  if c.serverProtocolVersion < 16 then throw (.unsupported "list_tables")
  match ← roundtrip .listTables with
  | .tables names primary => return (names, primary)
  | .err code message => throw (.server code message)
  | _ => throw (.unexpectedResponse "Tables")

def selectTable (table : String) : ClientM Unit := do
  match ← roundtrip (.use table) with
  | .ok => return ()
  | .err code message => throw (.server code message)
  | _ => throw (.unexpectedResponse "Ok")

/-- A request whose failure is looked at later. -/
def request (req : Request) : ClientM (ClientReply req) :=
  fun c => Program.call req fun reply => .done (.ok reply, c)

/-- The schema in a reply. -/
def describedSchema : Except ClientError Response → ClientM DomainSchema
  | .ok (.schema schema) => return schema
  | .ok (.err code message) => throw (.server code message)
  | .ok _ => throw (.unexpectedResponse "Schema")
  | .error e => throw e

/-- The table to switch back to. -/
def backTo (c : SchemaDrivenClient) : ClientM String :=
  match c.currentTable with
  | some current => return current
  | none => do return (← listTables).2

/-- Another table's schema: switch to it, ask, switch back, and keep the answer. -/
def schemaOf (table : String) : ClientM DomainSchema := do
  let c ← get
  match c.tableSchemas.lookup table with
  | some schema => return schema
  | none =>
    if c.serverProtocolVersion < 16 then throw (.unsupported "cross-table join")
    let back ← backTo c
    selectTable table
    let described ← request .describeSchema
    selectTable back
    let schema ← describedSchema described
    modify fun c => { c with tableSchemas := c.tableSchemas.insert table schema }
    return schema

/-- Where the schema of another table came from: from the cache, or from the server behind a switch
to the table. -/
inductive Learned (c : SchemaDrivenClient) (made : Program.Trace Request ClientReply)
    (table : String) :
    DomainSchema → Prop where
  | cached {schema} : c.tableSchemas.lookup table = some schema → Learned c made table schema
  | described {schema} (later earlier : Program.Trace Request ClientReply) :
    made = later ++ ⟨.describeSchema, .ok (.schema schema)⟩ :: ⟨.use table, .ok .ok⟩ :: earlier →
      Learned c made table schema

section Tables

variable {c : SchemaDrivenClient} {made : Program.Trace Request ClientReply}

theorem tells_listTables : Tells (fun _ _ c' => c' = c) listTables c made := by
  refine tells_get ?_
  split
  · exact tells_throw rfl
  · refine tells_roundtrip fun reply => ?_
    cases reply with
    | error e => rfl
    | ok response => cases response <;> rfl

theorem tells_backTo : Tells (fun _ _ c' => c' = c) (backTo c) c made := by
  unfold backTo
  split
  · exact tells_pure rfl
  · refine tells_bind (Program.Yields.mono tells_listTables ?_)
    rintro made' ⟨r | tables, c'⟩ rfl
    · rfl
    · exact tells_pure rfl

theorem tells_selectTable (table : String) : Tells (fun made' r c' => c' = c ∧
    ∀ u, r = .ok u → made' = ⟨.use table, .ok .ok⟩ :: made) (selectTable table) c made := by
  refine tells_roundtrip fun reply => ?_
  cases reply with
  | error e => exact ⟨rfl, nofun⟩
  | ok response =>
    cases response
    case ok => exact tells_pure ⟨rfl, fun _ _ => rfl⟩
    all_goals exact tells_throw ⟨rfl, nofun⟩

theorem tells_request {β : Type} {U : Program.Trace Request ClientReply → Except ClientError β →
    SchemaDrivenClient → Prop} {req : Request} {f : ClientReply req → ClientM β}
    (h : ∀ reply, Tells U (f reply) c (⟨req, reply⟩ :: made)) :
      Tells U (request req >>= f) c made :=
  tells_bind fun reply => h reply

theorem tells_schemaOf (table : String) : Tells (fun made r c' => c'.schema = c.schema ∧
    ∀ schema, r = .ok schema → Learned c made table schema) (schemaOf table) c made := by
  refine tells_get ?_
  cases hCached : c.tableSchemas.lookup table with
  | some schema =>
    refine tells_pure ⟨rfl, ?_⟩
    rintro _ ⟨rfl⟩
    exact .cached hCached
  | none =>
    dsimp only
    split
    · exact tells_throw ⟨rfl, nofun⟩
    · refine tells_bind (Program.Yields.mono tells_backTo ?_)
      rintro made₁ ⟨r | back, c₁⟩ rfl
      · exact ⟨rfl, nofun⟩
      refine tells_bind (Program.Yields.mono (tells_selectTable table) ?_)
      rintro made₂ ⟨r | u, c₂⟩ ⟨rfl, hSelected⟩
      · exact ⟨rfl, nofun⟩
      obtain rfl := hSelected u rfl
      refine tells_request fun described => ?_
      refine tells_bind (Program.Yields.mono (tells_selectTable back) ?_)
      rintro made₃ ⟨r | u, c₃⟩ ⟨rfl, hBack⟩
      · exact ⟨rfl, nofun⟩
      obtain rfl := hBack u rfl
      cases described with
      | error e => exact tells_throw ⟨rfl, nofun⟩
      | ok response =>
        cases response
        case schema schema =>
          refine tells_bind (tells_pure ?_)
          refine tells_modify ?_
          refine tells_pure ?_
          refine ⟨rfl, ?_⟩
          rintro _ ⟨rfl⟩
          let switchedBack : Program.Trace Request ClientReply := [⟨.use back, .ok .ok⟩]
          exact .described switchedBack made₁ rfl
        all_goals exact tells_throw ⟨rfl, nofun⟩

end Tables

end SchemaDrivenClient

end MultimodalDb
