import MultimodalDb.Python.Protocol
import MultimodalDb.Server.Wire

/-!
# The two ends of the wire

The server derives its encoding from its types, the client walks its specs. `Mirror s f` says that
they agree on a type: `f` gives the client's value for a value of the server, both are written as
the same bytes, and every well typed value of the client is the value for one of the server.
-/

namespace MultimodalDb.Python

variable {α β : Type} {bs data : Bytes}

/-! ## The client's values -/

namespace Value

def ofOption (f : α → Value) (o : Option α) : Value := o.elim .none f

def ofList (f : α → Value) (as : List α) : Value := .tuple (as.map f)

def ofPair (f : α → Value) (g : β → Value) (p : α × β) : Value := .tuple [f p.1, g p.2]

def ofUInt16 (n : UInt16) : Value := .int n.toNat

def ofUInt32 (n : UInt32) : Value := .int n.toNat

def ofUInt64 (n : UInt64) : Value := .int n.toNat

def ofNat (n : Nat) : Value := .int n

def ofInt64 (n : Int64) : Value := .int n.toInt

def ofMember [DecidableEq α] (enum : String) (members : List α) (a : α) : Value :=
  .member enum (members.idxOf a)

def ofScanValue : ScanValue → Value
  | .u32 n => .object "U32" [("value", ofUInt32 n)]
  | .i64 n => .object "I64" [("value", ofInt64 n)]
  | .bool b => .object "Bool" [("value", .bool b)]
  | .str s => .object "Str" [("value", .str s)]
  | .f64 bits => .object "F64" [("value", .float bits)]
  | .strList ss => .object "StrList" [("value", ofList .str ss)]

def ofFields : MultimodalDb.Fields → Value := ofList (ofPair ofUInt16 ofScanValue)

def ofSelection : Selection → Value
  | .all => .object "SelectAll" []
  | .fields tags => .object "SelectFields" [("fields", ofList ofUInt16 tags)]

def ofJoinRelation : JoinRelation → Value
  | .neighbors label => .object "Neighbors" [("label", ofOption .str label)]
  | .parent => .object "Parent" []
  | .children => .object "Children" []

def ofErrorCode : ErrorCode → Value := ofMember "ErrorCode" ErrorCode.variants

def ofPredicate (p : Predicate) : Value :=
  .object "Predicate" [
    ("field", ofUInt16 p.field), ("op", ofMember "CompareOp" CompareOp.variants p.op),
    ("value", ofScanValue p.value)]

def ofTransactionOp (op : TransactionOp) : Value :=
  .object "TransactionOp" [
    ("id", .uuid op.id), ("field", ofUInt16 op.field), ("value", ofScanValue op.value)]

def ofAggregateSpec (spec : AggregateSpec) : Value :=
  .object "AggregateSpec" [
    ("func", ofMember "AggregateFn" AggregateFn.variants spec.func),
      ("field", ofOption ofUInt16 spec.field)]

def ofAggregateGroup (group : AggregateGroup) : Value :=
  .object "AggregateGroup" [("key", ofFields group.key),
    ("values", ofList ofScanValue group.values)]

def ofFieldCapabilities (caps : FieldCapabilities) : Value :=
  .object "FieldCapabilities" [
    ("filter_eq", .bool caps.filterEq), ("scan", .bool caps.scan), ("update", .bool caps.update)]

def ofFieldDescriptor (field : FieldDescriptor) : Value :=
  .object "FieldDescriptor" [
    ("tag", ofUInt16 field.tag), ("name", .str field.name),
    ("value_kind", ofMember "ValueKind" ValueKind.variants field.valueKind),
    ("capabilities", ofFieldCapabilities field.capabilities)]

def ofRelationCapabilities (caps : RelationCapabilities) : Value :=
  .object "RelationCapabilities" [
    ("parent_children", .bool caps.parentChildren), ("neighbors", .bool caps.neighbors)]

def ofDomainSchema (schema : DomainSchema) : Value :=
  .object "DomainSchema" [
    ("fields", ofList ofFieldDescriptor schema.fields),
      ("relations", ofRelationCapabilities schema.relations)]

def ofJoinSpec (spec : JoinSpec) : Value :=
  .object "JoinSpec" [
    ("relation", ofJoinRelation spec.relation), ("right_table", ofOption .str spec.rightTable),
    ("left", ofSelection spec.left), ("right", ofSelection spec.right),
    ("left_filter", ofList ofPredicate spec.leftFilter),
    ("right_filter", ofList ofPredicate spec.rightFilter), ("limit", ofOption ofNat spec.limit)]

def ofJoinedRow (row : JoinedRow) : Value :=
  .object "JoinedRow" [
    ("left_id", .uuid row.leftId), ("left", ofFields row.left), ("right_id", .uuid row.rightId),
    ("right", ofFields row.right)]

def ofRelationDescriptor (relation : RelationDescriptor) : Value :=
  .object "RelationDescriptor" [
    ("name", .str relation.name), ("kind", ofJoinRelation relation.kind),
    ("target_table", ofOption .str relation.targetTable)]

def ofWriteOp : WriteOp → Value
  | .insert id fields => .object "WoInsert" [("id", .uuid id), ("fields", ofFields fields)]
  | .replace id fields => .object "WoReplace" [("id", .uuid id), ("fields", ofFields fields)]
  | .replaceIf id fields guard =>
    .object "WoReplaceIf" [("id", .uuid id), ("fields", ofFields fields),
      ("guard", ofPredicate guard)]
  | .delete id => .object "WoDelete" [("id", .uuid id)]
  | .link left right relation =>
    .object "WoLink" [("left", .uuid left), ("right", .uuid right), ("relation", .str relation)]

def ofWriteResult : WriteResult → Value
  | .inserted => .object "WrInserted" []
  | .duplicate => .object "WrDuplicate" []
  | .replaced => .object "WrReplaced" []
  | .notFound => .object "WrNotFound" []
  | .guardFailed => .object "WrGuardFailed" []
  | .linked => .object "WrLinked" []
  | .alreadyLinked => .object "WrAlreadyLinked" []
  | .deleted => .object "WrDeleted" []
  | .failed code => .object "WrFailed" [("code", ofErrorCode code)]

def ofRequest : Request → Value
  | .getById id => .object "GetById" [("id", .uuid id)]
  | .filterEq field value =>
    .object "FilterEq" [("field", ofUInt16 field), ("value", ofScanValue value)]
  | .scanField field => .object "ScanField" [("field", ofUInt16 field)]
  | .updateField id field value =>
    .object "UpdateField" [("id", .uuid id), ("field", ofUInt16 field),
      ("value", ofScanValue value)]
  | .parent id => .object "ParentReq" [("id", .uuid id)]
  | .children id => .object "ChildrenReq" [("id", .uuid id)]
  | .neighbors id => .object "NeighborsReq" [("id", .uuid id)]
  | .describeSchema => .object "DescribeSchema" []
  | .authenticate token => .object "Authenticate" [("token", .str token)]
  | .transaction updates => .object "Transaction" [("updates", ofList ofTransactionOp updates)]
  | .hello version => .object "Hello" [("protocol_version", ofUInt32 version)]
  | .begin => .object "Begin" []
  | .commit => .object "Commit" []
  | .rollback => .object "Rollback" []
  | .beginWith flags => .object "BeginWith" [("flags", ofUInt32 flags)]
  | .query select filter limit =>
    .object "Query" [
      ("select", ofSelection select), ("filter", ofList ofPredicate filter),
        ("limit", ofOption ofNat limit)]
  | .aggregate groupBy filter aggregates limit =>
    .object "Aggregate" [
      ("group_by", ofList ofUInt16 groupBy), ("filter", ofList ofPredicate filter),
      ("aggregates", ofList ofAggregateSpec aggregates), ("limit", ofOption ofNat limit)]
  | .neighborsByRelation id relation =>
    .object "NeighborsByRelation" [("id", .uuid id), ("relation", .str relation)]
  | .listRelationKinds => .object "ListRelationKinds" []
  | .join spec => .object "Join" [("spec", ofJoinSpec spec)]
  | .describeRelations => .object "DescribeRelations" []
  | .insert id fields => .object "Insert" [("id", .uuid id), ("fields", ofFields fields)]
  | .link left right relation =>
    .object "Link" [("left", .uuid left), ("right", .uuid right), ("relation", .str relation)]
  | .replace id fields => .object "Replace" [("id", .uuid id), ("fields", ofFields fields)]
  | .use table => .object "Use" [("table", .str table)]
  | .listTables => .object "ListTables" []
  | .delete id => .object "Delete" [("id", .uuid id)]
  | .compact => .object "Compact" []
  | .replaceIf id fields guard =>
    .object "ReplaceIf" [("id", .uuid id), ("fields", ofFields fields),
      ("guard", ofPredicate guard)]
  | .page orderBy after limit =>
    .object "Page" [
      ("order_by", ofUInt16 orderBy), ("after", ofOption (ofPair ofScanValue .uuid) after),
      ("limit", ofUInt64 limit)]
  | .countEdges relation => .object "CountEdges" [("relation", .str relation)]
  | .writeBatch ops atomic =>
    .object "WriteBatch" [("ops", ofList ofWriteOp ops), ("atomic", .bool atomic)]

def ofResponse : Response → Value
  | .record id fields => .object "Record" [("id", .uuid id), ("fields", ofFields fields)]
  | .recordList records => .object "RecordList" [("records", ofList .uuid records)]
  | .scanValues values => .object "ScanValues" [("values", ofList ofScanValue values)]
  | .id id => .object "Id" [("id", .uuid id)]
  | .schema schema => .object "Schema" [("schema", ofDomainSchema schema)]
  | .notFound => .object "NotFound" []
  | .noParent => .object "NoParent" []
  | .ok => .object "Ok" []
  | .err code message => .object "Err" [("code", ofErrorCode code), ("message", .str message)]
  | .transactionFailed index code message =>
    .object "TransactionFailed" [
      ("index", ofNat index), ("code", ofErrorCode code), ("message", .str message)]
  | .hello version => .object "HelloResp" [("protocol_version", ofUInt32 version)]
  | .staged index => .object "Staged" [("index", ofNat index)]
  | .rows rows => .object "Rows" [("rows", ofList (ofPair .uuid ofFields) rows)]
  | .groups groups => .object "Groups" [("groups", ofList ofAggregateGroup groups)]
  | .relationKinds kinds => .object "RelationKinds" [("kinds", ofList .str kinds)]
  | .joinedRows rows => .object "JoinedRows" [("rows", ofList ofJoinedRow rows)]
  | .relations relations =>
    .object "Relations" [("relations", ofList ofRelationDescriptor relations)]
  | .tables names primary =>
    .object "Tables" [("names", ofList .str names), ("primary", .str primary)]
  | .compacted records slotsReclaimed logEntriesFolded edgeLogsFolded =>
    .object "Compacted" [
      ("records", ofUInt64 records), ("slots_reclaimed", ofUInt64 slotsReclaimed),
      ("log_entries_folded", ofUInt64 logEntriesFolded),
        ("edge_logs_folded", ofUInt64 edgeLogsFolded)]
  | .count count => .object "Count" [("count", ofUInt64 count)]
  | .batchResults results => .object "BatchResults" [("results", ofList ofWriteResult results)]

end Value

/-! ## Mirrors -/

/-- The client's values for the values of a type. -/
structure Mirror [Serde α] (s : Spec) (f : α → Value) : Prop where
  written {a bs} : s.sound = true → Serde.put a = some bs → Typed s (f a) ∧
    encodeValue s (f a) = .ok bs
  onto {v} : Typed s v → ∃ a bs, Serde.put a = some bs ∧ f a = v

/-- The attributes for the fields of a struct or of a variant. -/
structure FieldsMirror [Serde α] (fields : Fields) (f : α → List (String × Value)) : Prop where
  written {a bs} : fields.sound = true → Serde.put a = some bs →
    TypedFields fields (f a) ∧ encodeFields fields (f a) = .ok bs
  onto {attributes} : TypedFields fields attributes → ∃ a bs, Serde.put a = some bs ∧
    f a = attributes

/-- The objects for the variants of an enum, in order. -/
inductive Rows (f : α → Value) : List (Codec.Variant α) → Variants → Prop where
  | nil : Rows f [] .nil
  | cons {P : Type} {_ : Serde P} {make : P → α} {variants : List (Codec.Variant α)} {cls : String}
    {index : Nat}
    {fields : Fields} {rest : Variants} {g : P → List (String × Value)}
    (hFields : FieldsMirror fields g)
    (hObject : ∀ p, f (make p) = .object cls (g p)) (hRest : Rows f variants rest) :
    Rows f ({ Payload := P, make := make } :: variants) (.cons cls index fields rest)

/-! ## Integers, strings and ids -/

/-- An integer that is written as its value. -/
theorem Mirror.unsigned [Serde α] {s : Spec} (width : Nat) {f : α → Nat}
    (hPut : ∀ {a bs}, Serde.put a = some bs → f a < 256 ^ width ∧ bs = Bytes.leBytes width (f a))
    (hOnto : ∀ n < 256 ^ width, ∃ a bs, Serde.put a = some bs ∧ f a = n)
    (hWritten : ∀ n : Nat, encodeValue s (.int n) = Writer.unsigned width (.int n))
    (hTyped : ∀ n : Nat, n < 256 ^ width → Typed s (.int n))
    (hInt : ∀ v, Typed s v → ∃ n : Nat, n < 256 ^ width ∧ v = .int n) :
    Mirror s fun a => .int (f a) where
  written := by
    intro a bs _ h
    obtain ⟨hRange, rfl⟩ := hPut h
    exact ⟨hTyped _ hRange, (hWritten _).trans (Writer.unsigned_int hRange)⟩
  onto := by
    intro v h
    obtain ⟨n, hRange, rfl⟩ := hInt v h
    obtain ⟨a, bs, hSome, rfl⟩ := hOnto n hRange
    exact ⟨a, bs, hSome, rfl⟩

theorem mirror_u16 : Mirror .u16 Value.ofUInt16 :=
  Mirror.unsigned 2 (f := UInt16.toNat) (fun {a _} h => ⟨a.toNat_lt, (Option.some.inj h).symm⟩)
    (fun n h => ⟨.ofNat n, _, rfl, UInt16.toNat_ofNat_of_lt' h⟩) (fun _ => rfl)
      (fun _ h => .u16 h) (by
      intro v h
      cases h with
      | u16 h => exact ⟨_, h, rfl⟩)

theorem mirror_u32 : Mirror .u32 Value.ofUInt32 :=
  Mirror.unsigned 4 (f := UInt32.toNat) (fun {a _} h => ⟨a.toNat_lt, (Option.some.inj h).symm⟩)
    (fun n h => ⟨.ofNat n, _, rfl, UInt32.toNat_ofNat_of_lt' h⟩) (fun _ => rfl)
      (fun _ h => .u32 h) (by
      intro v h
      cases h with
      | u32 h => exact ⟨_, h, rfl⟩)

theorem typed_u64 {v : Value} (h : Typed .u64 v) : ∃ n : Nat, n < 256 ^ 8 ∧ v = .int n := by
  cases h with
  | u64 h => exact ⟨_, h, rfl⟩

theorem mirror_u64 : Mirror .u64 Value.ofUInt64 :=
  Mirror.unsigned 8 (f := UInt64.toNat) (fun {a _} h => ⟨a.toNat_lt, (Option.some.inj h).symm⟩)
    (fun n h => ⟨.ofNat n, _, rfl, UInt64.toNat_ofNat_of_lt' h⟩) (fun _ => rfl) (fun _ h => .u64 h)
    fun _ => typed_u64

theorem mirror_nat : Mirror .u64 Value.ofNat :=
  Mirror.unsigned 8 (f := fun n : Nat => n) (fun {n bs} h => by
      change (if n < 256 ^ 8 then some (Bytes.leBytes 8 n) else none) = some bs at h
      split at h
      · next hRange => exact ⟨hRange, (Option.some.inj h).symm⟩
      · cases h)
    (fun n h => ⟨n, _, if_pos h, rfl⟩) (fun _ => rfl) (fun _ h => .u64 h) fun _ => typed_u64

/-- The index of a staged write. -/
theorem mirror_count32 : @Mirror _ Codec.count32 .u32 Value.ofNat :=
  letI := Codec.count32
  Mirror.unsigned 4 (f := fun n : Nat => n) (fun {n bs} h => by
      change (if n < UInt32.size then Serde.put (UInt32.ofNat n) else none) = some bs at h
      split at h
      · next hRange =>
        refine ⟨hRange, (Option.some.inj h).symm.trans ?_⟩
        exact congrArg (Bytes.leBytes 4) (UInt32.toNat_ofNat_of_lt' hRange)
      · cases h)
    (fun n h => ⟨n, _, if_pos h, rfl⟩) (fun _ => rfl) (fun _ h => .u32 h) (by
      intro v h
      cases h with
      | u32 h => exact ⟨_, h, rfl⟩)

theorem mirror_i64 : Mirror .i64 Value.ofInt64 where
  written := by
    intro n bs _ h
    have hRange : -2 ^ 63 ≤ n.toInt ∧ n.toInt < 2 ^ 63 := ⟨Int64.le_toInt n, Int64.toInt_lt n⟩
    refine ⟨.i64 hRange, ?_⟩
    rw [Value.ofInt64, encodeValue, Writer.i64_int hRange, Int64.ofInt_toInt]
    exact congrArg _ (Option.some.inj h)
  onto := by
    intro v h
    cases h with
    | @i64 n h => exact ⟨.ofInt n, _, rfl, congrArg _ (Int64.toInt_ofInt_of_le h.1 h.2)⟩

theorem mirror_f64 : Mirror .f64 Value.float where
  written := by
    intro bits bs _ h
    exact ⟨.f64 bits, congrArg _ (Option.some.inj h)⟩
  onto := by
    intro v h
    cases h with
    | f64 bits => exact ⟨bits, _, rfl, rfl⟩

theorem mirror_bool : Mirror .bool Value.bool where
  written := by
    intro b bs _ h
    refine ⟨.bool b, ?_⟩
    rw [encodeValue, Writer.bool_bool, ← Option.some.inj h]
    cases b <;> rfl
  onto := by
    intro v h
    cases h with
    | bool b => exact ⟨b, _, rfl, rfl⟩

theorem put_bytes (data : Bytes) :
    Serde.put data = if data.length < 256 ^ 8 then some (Bytes.leBytes 8 data.length ++ data)
      else none := by
  show (if data.length < 256 ^ 8 then (Codec.putAll data).map (Bytes.leBytes 8 data.length ++ ·)
    else none) = _
  rw [Codec.putAll_bytes, Option.map_some]

theorem mirror_str : Mirror .str Value.str where
  written := by
    intro s bs _ h
    change Serde.put s.toByteArray.data.toList = some bs at h
    rw [put_bytes] at h
    split at h
    · next hRange => exact ⟨.str hRange,
        (Writer.string_str hRange).trans (congrArg _ (Option.some.inj h))⟩
    · cases h
  onto := by
    intro v h
    cases h with
    | @str s h => exact ⟨s, _, (put_bytes _).trans (if_pos h), rfl⟩

theorem mirror_uuid : Mirror .uuid Value.uuid where
  written := by
    intro u bs _ h
    change Serde.put u.bytes = some bs at h
    rw [put_bytes, u.length_bytes] at h
    exact ⟨.uuid u, (Writer.uuid_uuid u).trans (congrArg _ (Option.some.inj h))⟩
  onto := by
    intro v h
    cases h with
    | uuid u => exact ⟨u, _, (put_bytes _).trans (if_pos (by rw [u.length_bytes]; decide)), rfl⟩

theorem mirror_member [DecidableEq α] {name : String} {members : List α}
    {names : List String} [Serde α]
    (hPut : ∀ a, Serde.put a = Serde.put (UInt32.ofNat (members.idxOf a))) (hAll : ∀ a, a ∈ members)
    (hNodup : members.Nodup) (hNames : names.length = members.length)
    (hFew : members.length < 2 ^ 32) :
    Mirror (.intEnum name names) (Value.ofMember name members) where
  written := by
    intro a bs _ h
    have hWithin : members.idxOf a < members.length := List.idxOf_lt_length_of_mem (hAll a)
    have hRange : members.idxOf a < 256 ^ 4 := by omega
    refine ⟨.intEnum (by rwa [hNames]), ?_⟩
    have hWritten : encodeValue (.intEnum name names) (Value.ofMember name members a) =
      Writer.unsigned 4 (.int (members.idxOf a)) := rfl
    rw [hWritten, Writer.unsigned_int hRange]
    rw [hPut] at h
    rw [← Option.some.inj h]
    exact congrArg (fun n => Except.ok (Bytes.leBytes 4 n)) (UInt32.toNat_ofNat_of_lt' hRange).symm
  onto := by
    intro v h
    cases h with
    | @intEnum _ _ i h =>
      have hWithin : i < members.length := by rwa [← hNames]
      refine ⟨members[i], _, hPut _, ?_⟩
      rw [Value.ofMember, hNodup.idxOf_getElem]

/-! ## Options and sequences -/

theorem Mirror.opt [Serde α] {s : Spec} {f : α → Value} (h : Mirror s f) :
    Mirror (.opt s) (Value.ofOption f) where
  written := by
    intro o bs hSound hSome
    rw [Spec.sound, Bool.and_eq_true, Bool.not_eq_true'] at hSound
    cases o with
    | none =>
      refine ⟨.optNone, ?_⟩
      rw [← Option.some.inj hSome]
      rfl
    | some a =>
      obtain ⟨front, hFront, rfl⟩ := Option.map_eq_some_iff.mp hSome
      obtain ⟨hTyped, hWritten⟩ := h.written hSound.1 hFront
      refine ⟨.optSome hTyped, ?_⟩
      rw [Value.ofOption, Option.elim_some, encodeValue_opt (hTyped.ne_none hSound.2), hWritten]
      rfl
  onto := by
    intro v hTyped
    cases hTyped with
    | optNone => exact ⟨none, _, rfl, rfl⟩
    | optSome hTyped =>
      obtain ⟨a, front, hFront, rfl⟩ := h.onto hTyped
      exact ⟨some a, _, Option.map_eq_some_iff.mpr ⟨front, hFront, rfl⟩, rfl⟩

theorem Mirror.items [Serde α] {s : Spec} {f : α → Value} (h : Mirror s f) (hSound : s.sound = true)
    {as : List α} {bs : Bytes} (hAll : Codec.putAll as = some bs) :
    (∀ v ∈ as.map f, Typed s v) ∧
      ∃ written, (as.map f).mapM (encodeValue s) = .ok written ∧ written.flatten = bs := by
  induction as generalizing bs with
  | nil => exact ⟨List.forall_mem_nil _, [], rfl, Option.some.inj hAll⟩
  | cons a as ih =>
    obtain ⟨front, hFront, more, hMore, rfl⟩ : ∃ front, Serde.put a = some front ∧ ∃ more,
        Codec.putAll as = some more ∧ front ++ more = bs := by
      simpa [Codec.putAll, Option.bind_eq_some_iff] using hAll
    obtain ⟨hTyped, hWritten⟩ := h.written hSound hFront
    obtain ⟨hItems, written, hRest, rfl⟩ := ih hMore
    refine ⟨List.forall_mem_cons.mpr ⟨hTyped, hItems⟩, front :: written, ?_, rfl⟩
    rw [List.map_cons, List.mapM_cons, hWritten, hRest]
    rfl

theorem Mirror.onto_items [Serde α] {s : Spec} {f : α → Value} (h : Mirror s f) {items : List Value}
    (hItems : ∀ v ∈ items, Typed s v) : ∃ as bs, Codec.putAll as = some bs ∧ as.map f = items := by
  induction items with
  | nil => exact ⟨[], [], rfl, rfl⟩
  | cons v items ih =>
    obtain ⟨hHead, hTail⟩ := List.forall_mem_cons.mp hItems
    obtain ⟨a, front, hFront, rfl⟩ := h.onto hHead
    obtain ⟨as, more, hMore, rfl⟩ := ih hTail
    refine ⟨a :: as, front ++ more, ?_, rfl⟩
    rw [Codec.putAll, hFront, hMore]
    rfl

theorem Mirror.vec [Serde α] {s : Spec} {f : α → Value} (h : Mirror s f) :
    Mirror (.vec s) (Value.ofList f) where
  written := by
    intro as bs hSound hSome
    rw [Spec.sound] at hSound
    change (if as.length < 256 ^ 8 then (Codec.putAll as).map (Bytes.leBytes 8 as.length ++ ·)
      else none) = some bs
      at hSome
    split at hSome
    · next hRange =>
      obtain ⟨body, hBody, rfl⟩ := Option.map_eq_some_iff.mp hSome
      obtain ⟨hItems, written, hWritten, rfl⟩ := h.items hSound hBody
      refine ⟨.vec (by rwa [List.length_map]) hItems, ?_⟩
      rw [Value.ofList, encodeValue, Value.items?]
      dsimp only
      rw [List.length_map, Writer.u64, Writer.unsigned_int hRange, hWritten]
      rfl
    · cases hSome
  onto := by
    intro v hTyped
    cases hTyped with
    | vec hLength hItems =>
      obtain ⟨as, body, hBody, rfl⟩ := h.onto_items hItems
      rw [List.length_map] at hLength
      refine ⟨as, Bytes.leBytes 8 as.length ++ body, (if_pos hLength).trans ?_, rfl⟩
      rw [hBody]
      rfl

theorem Mirror.pair [Serde α] [Serde β] {first second : Spec} {f : α → Value} {g : β → Value}
    (hf : Mirror first f) (hg : Mirror second g) :
    Mirror (.tuple first second) (Value.ofPair f g) where
  written := by
    intro p bs hSound hSome
    rw [Spec.sound, Bool.and_eq_true] at hSound
    obtain ⟨front, hFront, back, hBack, rfl⟩ : ∃ front, Serde.put p.1 = some front ∧ ∃ back,
        Serde.put p.2 = some back ∧ front ++ back = bs := by
      simpa [Serde.put, Option.bind_eq_some_iff] using hSome
    obtain ⟨hTypedFirst, hFirst⟩ := hf.written hSound.1 hFront
    obtain ⟨hTypedSecond, hSecond⟩ := hg.written hSound.2 hBack
    refine ⟨.tuple hTypedFirst hTypedSecond, ?_⟩
    rw [Value.ofPair, encodeValue, Value.items?]
    dsimp only
    rw [hFirst, hSecond]
    rfl
  onto := by
    intro v hTyped
    cases hTyped with
    | tuple ha hb =>
      obtain ⟨a, front, hFront, rfl⟩ := hf.onto ha
      obtain ⟨b, back, hBack, rfl⟩ := hg.onto hb
      refine ⟨(a, b), front ++ back, ?_, rfl⟩
      show (Serde.put a >>= fun x => Serde.put b >>= fun y => some (x ++ y)) = _
      rw [hFront, hBack]
      rfl

/-! ## Fields -/

theorem FieldsMirror.nil : FieldsMirror .nil fun _ : Unit => [] where
  written := by
    intro _ bs _ h
    rw [← Option.some.inj h]
    exact ⟨.nil, rfl⟩
  onto := by
    intro attributes h
    cases h with
    | nil => exact ⟨(), _, rfl, rfl⟩

theorem FieldsMirror.one [Serde α] {name : String} {s : Spec} {post : Post} {f : α → Value}
    (h : Mirror s f) :
    FieldsMirror (.cons name s post .nil) fun a => [(name, f a)] where
  written := by
    intro a bs hSound hSome
    simp only [Fields.sound, Bool.and_eq_true] at hSound
    obtain ⟨hTyped, hWritten⟩ := h.written hSound.1.1.2 hSome
    refine ⟨.cons hTyped .nil, ?_⟩
    rw [encodeFields, List.lookup_cons_self]
    dsimp only
    rw [hWritten]
    exact congrArg Except.ok (List.append_nil bs)
  onto := by
    intro attributes hTyped
    cases hTyped with
    | cons hv hRest =>
      cases hRest with
      | nil =>
        obtain ⟨a, bs, hSome, rfl⟩ := h.onto hv
        exact ⟨a, bs, hSome, rfl⟩

theorem FieldsMirror.cons [Serde α] [Serde β] {name : String} {s : Spec} {post : Post}
    {rest : Fields}
    {f : α → Value} {g : β → List (String × Value)} (hf : Mirror s f) (hg : FieldsMirror rest g) :
    FieldsMirror (.cons name s post rest) fun p : α × β => (name, f p.1) :: g p.2 where
  written := by
    intro p bs hSound hSome
    simp only [Fields.sound, Bool.and_eq_true, Bool.not_eq_true', List.contains_eq_mem,
      decide_eq_false_iff_not]
      at hSound
    obtain ⟨⟨⟨hFresh, hSub⟩, -⟩, hMore⟩ := hSound
    obtain ⟨front, hFront, back, hBack, rfl⟩ : ∃ front, Serde.put p.1 = some front ∧ ∃ back,
        Serde.put p.2 = some back ∧ front ++ back = bs := by
      simpa [Serde.put, Option.bind_eq_some_iff] using hSome
    obtain ⟨hTyped, hWritten⟩ := hf.written hSub hFront
    obtain ⟨hTypedRest, hWrittenRest⟩ := hg.written hMore hBack
    refine ⟨.cons hTyped hTypedRest, ?_⟩
    rw [encodeFields, List.lookup_cons_self]
    dsimp only
    rw [hWritten, encodeFields_cons hFresh, hWrittenRest]
    rfl
  onto := by
    intro attributes hTyped
    cases hTyped with
    | cons hv hRest =>
      obtain ⟨a, front, hFront, rfl⟩ := hf.onto hv
      obtain ⟨b, back, hBack, rfl⟩ := hg.onto hRest
      refine ⟨(a, b), front ++ back, ?_, rfl⟩
      show (Serde.put a >>= fun x => Serde.put b >>= fun y => some (x ++ y)) = _
      rw [hFront, hBack]
      rfl

/-! ## Structs and enums -/

/-- A struct is written as the tuple of its fields. -/
theorem FieldsMirror.struct [Serde α] [Serde β] {cls : String} {fields : Fields}
    {f : β → List (String × Value)}
    (h : FieldsMirror fields f) (e : α ≃ β) (hPut : ∀ a, Serde.put a = Serde.put (e a)) :
    Mirror (.struct cls fields) fun a => .object cls (f (e a)) where
  written := by
    intro a bs hSound hSome
    rw [Spec.sound] at hSound
    rw [hPut] at hSome
    obtain ⟨hTyped, hWritten⟩ := h.written hSound hSome
    exact ⟨.struct hTyped, hWritten⟩
  onto := by
    intro v hTyped
    cases hTyped with
    | struct hTyped =>
      obtain ⟨b, bs, hSome, rfl⟩ := h.onto hTyped
      refine ⟨e.symm b, bs, ?_, ?_⟩
      · rw [hPut, Equiv.apply_symm_apply, hSome]
      · rw [Equiv.apply_symm_apply]

/-- The object for a value of a variant is written under the variant's index. -/
theorem Rows.written {f : α → Value} {variants : List (Codec.Variant α)} {rows : Variants}
    (h : Rows f variants rows) {first : Nat} (hSound : rows.soundFrom first = true)
    (i : Fin variants.length) {p : (variants.get i).Payload}
    {bs : Bytes} (hSome : (variants.get i).serde.put p = some bs) :
    ∃ cls attributes, f ((variants.get i).make p) = .object cls attributes ∧
      TypedVariant rows cls attributes ∧ encodeVariant rows cls attributes = (do
        let front ← Writer.u32 (.int (first + i : Nat))
        return front ++ bs) := by
  induction h generalizing first with
  | nil => exact i.elim0
  | @cons P _ make variants cls index fields rest g hFields hObject hRest ih =>
    simp only [Variants.soundFrom, Bool.and_eq_true, beq_iff_eq, Bool.not_eq_true',
      List.contains_eq_mem, decide_eq_false_iff_not] at hSound
    obtain ⟨⟨⟨rfl, hFresh⟩, hSub⟩, hMore⟩ := hSound
    cases i using Fin.cases with
    | zero =>
      obtain ⟨hTyped, hWritten⟩ := hFields.written hSub hSome
      refine ⟨cls, g p, hObject p, .here hTyped, ?_⟩
      rw [encodeVariant, if_pos rfl, hWritten]
      rfl
    | succ k =>
      obtain ⟨other, attributes, hOther, hTyped, hWritten⟩ := ih hMore k hSome
      refine ⟨other, attributes, hOther, .there hTyped, ?_⟩
      have hNe : other ≠ cls := by
        rintro rfl
        exact hFresh hTyped.mem_classes
      rw [encodeVariant, if_neg hNe, hWritten, Fin.val_succ, Nat.add_right_comm, Nat.add_assoc]

theorem Rows.onto {f : α → Value} {variants : List (Codec.Variant α)} {rows : Variants}
    (h : Rows f variants rows)
    {cls : String} {attributes : List (String × Value)}
    (hTyped : TypedVariant rows cls attributes) :
    ∃ i : Fin variants.length, ∃ p bs, (variants.get i).serde.put p = some bs ∧
      f ((variants.get i).make p) = .object cls attributes := by
  induction h with
  | nil => cases hTyped
  | cons hFields hObject _ ih =>
    cases hTyped with
    | here hTyped =>
      obtain ⟨p, bs, hSome, rfl⟩ := hFields.onto hTyped
      exact ⟨⟨0, Nat.succ_pos _⟩, p, bs, hSome, hObject p⟩
    | there hTyped =>
      obtain ⟨i, p, bs, hSome, hOther⟩ := ih hTyped
      exact ⟨i.succ, p, bs, hSome, hOther⟩

theorem Rows.length_eq {f : α → Value} {variants : List (Codec.Variant α)} {rows : Variants}
    (h : Rows f variants rows) : variants.length = rows.length := by
  induction h with
  | nil => rfl
  | cons _ _ _ ih => rw [List.length_cons, ih, Variants.length]

theorem Rows.family [Serde α] {f : α → Value} {variants : List (Codec.Variant α)} {rows : Variants}
    (h : Rows f variants rows)
    (hOnto : ∀ a, ∃ i : Fin variants.length, ∃ p, (variants.get i).make p = a)
    (hPut : ∀ (i : Fin variants.length) p, Serde.put ((variants.get i).make p) = (do
      let front ← Serde.put (UInt32.ofNat i)
      let rest ← (variants.get i).serde.put p
      some (front ++ rest))) : Mirror (.family rows) f where
  written := by
    intro a bs hSound hSome
    rw [Spec.sound, Bool.and_eq_true, decide_eq_true_iff] at hSound
    obtain ⟨i, p, rfl⟩ := hOnto a
    rw [hPut] at hSome
    obtain ⟨front, hFront, rest, hRest, rfl⟩ : ∃ front, Serde.put (UInt32.ofNat i) =
        some front ∧ ∃ rest, (variants.get i).serde.put p = some rest ∧ front ++ rest = bs := by
      simpa [Option.bind_eq_some_iff] using hSome
    obtain ⟨cls, attributes, hObject, hTyped, hWritten⟩ := h.written hSound.1 i hRest
    have hRange : (i : Nat) < 256 ^ 4 := by
      have hWithin := i.isLt
      have hCount := h.length_eq
      omega
    rw [hObject]
    refine ⟨.family hTyped, ?_⟩
    rw [encodeValue, hWritten, Nat.zero_add, Writer.u32, Writer.unsigned_int hRange,
      ← Option.some.inj hFront]
    exact congrArg (fun n => Except.ok (Bytes.leBytes 4 n ++ rest))
      (UInt32.toNat_ofNat_of_lt' hRange).symm
  onto := by
    intro v hTyped
    cases hTyped with
    | family hTyped =>
      obtain ⟨i, p, bs, hSome, hObject⟩ := h.onto hTyped
      refine ⟨(variants.get i).make p, Bytes.leBytes 4 (UInt32.ofNat i).toNat ++ bs, ?_, hObject⟩
      rw [hPut, hSome]
      rfl

/-- An enum whose encoding is derived from its variants. -/
theorem Rows.derived {f : α → Value} {variants : List (Codec.Variant α)} {rows : Variants}
    (h : Rows f variants rows)
    {toVariant : α → (i : Fin variants.length) × (variants.get i).Payload}
    {hFew : variants.length < 2 ^ 32}
    {hMake : ∀ a, (variants.get (toVariant a).1).make (toVariant a).2 = a}
    (hVariant : ∀ i p, toVariant ((variants.get i).make p) = ⟨i, p⟩) :
    @Mirror _ (Codec.family variants toVariant hFew hMake hVariant) (.family rows) f := by
  let := Codec.family variants toVariant hFew hMake hVariant
  refine h.family (fun a => ⟨_, _, hMake a⟩) fun i p => ?_
  let : ∀ i, Serde (variants.get i).Payload := fun i => (variants.get i).serde
  let := Codec.variants (fun i => (variants.get i).Payload) hFew
  show Serde.put (toVariant ((variants.get i).make p)) = _
  rw [hVariant]
  rfl

end MultimodalDb.Python
