import MultimodalDb.Python.RoundTrip

/-!
# The client's protocol module

The classes of the wire shapes with their specs, as the client's protocol module lists them, and the
four functions that write and read a request and a response.
-/

namespace MultimodalDb.Python

namespace Protocol

/-- `tuple(self.field)`. -/
def asTuple : Post := .tuple .keep

/-- `tuple(tuple(item) for item in self.field)`. -/
def asPairs : Post := .tuple asTuple

def valueKind : Spec := .intEnum "ValueKind" ["U32", "I64", "Bool", "Str", "StrList"]

def compareOp : Spec := .intEnum "CompareOp" ["Eq", "Ne", "Lt", "Le", "Gt", "Ge"]

def aggregateFn : Spec := .intEnum "AggregateFn" ["Count", "Sum", "Avg", "Min", "Max"]

def errorCode :
  Spec := .intEnum "ErrorCode" ["UnknownField", "Unsupported", "Malformed", "Unauthenticated",
  "Unauthorized", "RecordNotFound", "NoSession", "SessionOpen", "SessionFull", "Journal",
  "Conflict", "Duplicate", "Storage", "GuardFailed"]

def scanValue : Spec := .family <| .ofList [
  ("U32", 0, .ofList [("value", .u32, .keep)]),
  ("I64", 1, .ofList [("value", .i64, .keep)]),
  ("Bool", 2, .ofList [("value", .bool, .keep)]),
  ("Str", 3, .ofList [("value", .str, .keep)]),
  ("F64", 4, .ofList [("value", .f64, .keep)]),
  ("StrList", 5, .ofList [("value", .vec .str, asTuple)])]

def selection : Spec := .family <| .ofList [
  ("SelectAll", 0, .nil),
  ("SelectFields", 1, .ofList [("fields", .vec .u16, asTuple)])]

def joinRelation : Spec := .family <| .ofList [
  ("Neighbors", 0, .ofList [("label", .opt .str, .keep)]),
  ("Parent", 1, .nil),
  ("Children", 2, .nil)]

def predicate : Spec := .struct "Predicate" <| .ofList [
  ("field", .u16, .keep), ("op", compareOp, .keep), ("value", scanValue, .keep)]

def transactionOp : Spec := .struct "TransactionOp" <| .ofList [
  ("id", .uuid, .keep), ("field", .u16, .keep), ("value", scanValue, .keep)]

def aggregateSpec : Spec := .struct "AggregateSpec" <| .ofList [
  ("func", aggregateFn, .keep), ("field", .opt .u16, .keep)]

/-- `FIELDS`. -/
def fields : Spec := .vec (.tuple .u16 scanValue)

def aggregateGroup : Spec := .struct "AggregateGroup" <| .ofList [
  ("key", fields, asPairs), ("values", .vec scanValue, asTuple)]

def fieldCapabilities : Spec := .struct "FieldCapabilities" <| .ofList [
  ("filter_eq", .bool, .keep), ("scan", .bool, .keep), ("update", .bool, .keep)]

def fieldDescriptor : Spec := .struct "FieldDescriptor" <| .ofList [
  ("tag", .u16, .keep), ("name", .str, .keep), ("value_kind", valueKind, .keep),
  ("capabilities", fieldCapabilities, .keep)]

def relationCapabilities : Spec := .struct "RelationCapabilities" <| .ofList [
  ("parent_children", .bool, .keep), ("neighbors", .bool, .keep)]

def domainSchema : Spec := .struct "DomainSchema" <| .ofList [
  ("fields", .vec fieldDescriptor, asTuple), ("relations", relationCapabilities, .keep)]

def joinSpec : Spec := .struct "JoinSpec" <| .ofList [
  ("relation", joinRelation, .keep), ("right_table", .opt .str, .keep), ("left", selection, .keep),
  ("right", selection, .keep), ("left_filter", .vec predicate, asTuple),
  ("right_filter", .vec predicate, asTuple), ("limit", .opt .u64, .keep)]

def joinedRow : Spec := .struct "JoinedRow" <| .ofList [
  ("left_id", .uuid, .keep), ("left", fields, asPairs), ("right_id", .uuid, .keep),
    ("right", fields, asPairs)]

def relationDescriptor : Spec := .struct "RelationDescriptor" <| .ofList [
  ("name", .str, .keep), ("kind", joinRelation, .keep), ("target_table", .opt .str, .keep)]

def writeOp : Spec := .family <| .ofList [
  ("WoInsert", 0, .ofList [("id", .uuid, .keep), ("fields", fields, asPairs)]),
  ("WoReplace", 1, .ofList [("id", .uuid, .keep), ("fields", fields, asPairs)]),
  ("WoReplaceIf", 2, .ofList [("id", .uuid, .keep), ("fields", fields, asPairs),
    ("guard", predicate, .keep)]),
  ("WoDelete", 3, .ofList [("id", .uuid, .keep)]),
  ("WoLink", 4, .ofList [("left", .uuid, .keep), ("right", .uuid, .keep),
    ("relation", .str, .keep)])]

def writeResult : Spec := .family <| .ofList [
  ("WrInserted", 0, .nil),
  ("WrDuplicate", 1, .nil),
  ("WrReplaced", 2, .nil),
  ("WrNotFound", 3, .nil),
  ("WrGuardFailed", 4, .nil),
  ("WrLinked", 5, .nil),
  ("WrAlreadyLinked", 6, .nil),
  ("WrDeleted", 7, .nil),
  ("WrFailed", 8, .ofList [("code", errorCode, .keep)])]

def request : Spec := .family <| .ofList [
  ("GetById", 0, .ofList [("id", .uuid, .keep)]),
  ("FilterEq", 1, .ofList [("field", .u16, .keep), ("value", scanValue, .keep)]),
  ("ScanField", 2, .ofList [("field", .u16, .keep)]),
  ("UpdateField", 3, .ofList [("id", .uuid, .keep), ("field", .u16, .keep),
    ("value", scanValue, .keep)]),
  ("ParentReq", 4, .ofList [("id", .uuid, .keep)]),
  ("ChildrenReq", 5, .ofList [("id", .uuid, .keep)]),
  ("NeighborsReq", 6, .ofList [("id", .uuid, .keep)]),
  ("DescribeSchema", 7, .nil),
  ("Authenticate", 8, .ofList [("token", .str, .keep)]),
  ("Transaction", 9, .ofList [("updates", .vec transactionOp, asTuple)]),
  ("Hello", 10, .ofList [("protocol_version", .u32, .keep)]),
  ("Begin", 11, .nil),
  ("Commit", 12, .nil),
  ("Rollback", 13, .nil),
  ("BeginWith", 14, .ofList [("flags", .u32, .keep)]),
  ("Query", 15, .ofList [("select", selection, .keep), ("filter", .vec predicate, asTuple),
    ("limit", .opt .u64, .keep)]),
  ("Aggregate", 16, .ofList [("group_by", .vec .u16, asTuple), ("filter", .vec predicate, asTuple),
    ("aggregates", .vec aggregateSpec, asTuple), ("limit", .opt .u64, .keep)]),
  ("NeighborsByRelation", 17, .ofList [("id", .uuid, .keep), ("relation", .str, .keep)]),
  ("ListRelationKinds", 18, .nil),
  ("Join", 19, .ofList [("spec", joinSpec, .keep)]),
  ("DescribeRelations", 20, .nil),
  ("Insert", 21, .ofList [("id", .uuid, .keep), ("fields", fields, asPairs)]),
  ("Link", 22, .ofList [("left", .uuid, .keep), ("right", .uuid, .keep),
    ("relation", .str, .keep)]),
  ("Replace", 23, .ofList [("id", .uuid, .keep), ("fields", fields, asPairs)]),
  ("Use", 24, .ofList [("table", .str, .keep)]),
  ("ListTables", 25, .nil),
  ("Delete", 26, .ofList [("id", .uuid, .keep)]),
  ("Compact", 27, .nil),
  ("ReplaceIf", 28, .ofList [("id", .uuid, .keep), ("fields", fields, asPairs),
    ("guard", predicate, .keep)]),
  ("Page", 29, .ofList [("order_by", .u16, .keep), ("after", .opt (.tuple scanValue .uuid), .keep),
    ("limit", .u64, .keep)]),
  ("CountEdges", 30, .ofList [("relation", .str, .keep)]),
  ("WriteBatch", 31, .ofList [("ops", .vec writeOp, asTuple), ("atomic", .bool, .keep)])]

def response : Spec := .family <| .ofList [
  ("Record", 0, .ofList [("id", .uuid, .keep), ("fields", fields, asPairs)]),
  ("RecordList", 1, .ofList [("records", .vec .uuid, asTuple)]),
  ("ScanValues", 2, .ofList [("values", .vec scanValue, asTuple)]),
  ("Id", 3, .ofList [("id", .uuid, .keep)]),
  ("Schema", 4, .ofList [("schema", domainSchema, .keep)]),
  ("NotFound", 5, .nil),
  ("NoParent", 6, .nil),
  ("Ok", 7, .nil),
  ("Err", 8, .ofList [("code", errorCode, .keep), ("message", .str, .keep)]),
  ("TransactionFailed", 9, .ofList [("index", .u64, .keep), ("code", errorCode, .keep),
    ("message", .str, .keep)]),
  ("HelloResp", 10, .ofList [("protocol_version", .u32, .keep)]),
  ("Staged", 11, .ofList [("index", .u32, .keep)]),
  -- `tuple((rid, tuple(tuple(f) for f in fields)) for rid, fields in self.rows)`
  ("Rows", 12, .ofList [("rows", .vec (.tuple .uuid fields), .tuple (.pair .keep asPairs))]),
  ("Groups", 13, .ofList [("groups", .vec aggregateGroup, asTuple)]),
  ("RelationKinds", 14, .ofList [("kinds", .vec .str, asTuple)]),
  ("JoinedRows", 15, .ofList [("rows", .vec joinedRow, asTuple)]),
  ("Relations", 16, .ofList [("relations", .vec relationDescriptor, asTuple)]),
  ("Tables", 17, .ofList [("names", .vec .str, asTuple), ("primary", .str, .keep)]),
  ("Compacted", 18, .ofList [("records", .u64, .keep), ("slots_reclaimed", .u64, .keep),
    ("log_entries_folded", .u64, .keep), ("edge_logs_folded", .u64, .keep)]),
  ("Count", 19, .ofList [("count", .u64, .keep)]),
  ("BatchResults", 20, .ofList [("results", .vec writeResult, asTuple)])]

theorem sound_request : request.sound = true := by decide +kernel

theorem sound_response : response.sound = true := by decide +kernel

end Protocol

/-! ## Messages -/

/-- A message that is read to the end of its data. -/
def Spec.decode (s : Spec) (data : Bytes) : Except Error Value :=
  StateT.run' (do
    let value ← decodeValue s
    Reader.finish
    return value) ⟨0, data⟩

section Decode

variable {s : Spec} {v : Value} {data : Bytes}

theorem Spec.decode_eq (s : Spec) (data : Bytes) : s.decode data =
    (decodeValue s ⟨0, data⟩ >>= fun x => Reader.finish x.2 >>= fun y => .ok (x.1, y.2)).map
      (fun x => x.1) := rfl

/-- `decode` of what the walker makes of the whole data. -/
theorem Spec.decode_of_run {w : Value} {r : Reader} (h : decodeValue s ⟨0, data⟩ = .ok (w, r)) :
    s.decode data = if r.rest.length = 0 then .ok w
      else .error (.codec (.trailing r.rest.length)) := by
  rw [Spec.decode_eq, h]
  show Except.map _ (Reader.finish r >>= fun y => .ok (w, y.2)) = _
  unfold Reader.finish
  split <;> rfl

theorem Spec.decode_of_error {e : Error} (h : decodeValue s ⟨0, data⟩ = .error e) :
    s.decode data = .error e := by
  rw [Spec.decode_eq, h]
  rfl

theorem Spec.decode_written (hSound : s.sound = true) (hFlat : s.flat = true) (hTyped : Typed s v)
    (h : encodeValue s v = .ok data) : s.decode data = .ok v := by
  obtain ⟨bs, hWritten, hGives⟩ := encodes hSound hTyped
  obtain rfl := Except.ok.inj (hWritten.symm.trans h)
  have hRead := hGives 0 []
  rw [List.append_nil, raw_flat hFlat hTyped] at hRead
  rw [Spec.decode_of_run hRead]
  exact if_pos rfl

/-- What is read to the end is what a well typed value is written as; else the client raises a
`CodecError`. -/
theorem Spec.decode_cases (hSound : s.sound = true) (data : Bytes) :
    (∃ v, Typed s v ∧ encodeValue s v = .ok data) ∨
      ∃ cause, s.decode data = .error (.codec cause) := by
  obtain ⟨hOk, hError⟩ := decodes hSound ⟨0, data⟩
  cases hRun : decodeValue s ⟨0, data⟩ with
  | error e =>
    obtain ⟨cause, rfl⟩ := hError e hRun
    exact .inr ⟨cause, Spec.decode_of_error hRun⟩
  | ok x =>
    obtain ⟨w, r⟩ := x
    obtain ⟨bs, hData, v, hTyped, rfl, hWritten⟩ := hOk w r hRun
    by_cases hEnd : r.rest = []
    · refine .inl ⟨v, hTyped, ?_⟩
      rw [hWritten]
      exact congrArg _ (by rw [show data = _ from hData, hEnd, List.append_nil])
    · refine .inr ⟨.trailing r.rest.length, ?_⟩
      rw [Spec.decode_of_run hRun]
      exact if_neg fun h => hEnd (List.eq_nil_of_length_eq_zero h)

end Decode

def encodeRequest (req : Value) : Except Error Bytes := encodeValue Protocol.request req

def decodeRequest (data : Bytes) : Except Error Value := Protocol.request.decode data

def encodeResponse (resp : Value) : Except Error Bytes := encodeValue Protocol.response resp

def decodeResponse (data : Bytes) : Except Error Value := Protocol.response.decode data

end MultimodalDb.Python
