import MultimodalDb.Python.Mirror

/-!
# Client and server agree

Every request and every response is written as the same bytes at both ends, and whatever bytes
arrive, both ends read the same message of them or both refuse.
-/

namespace MultimodalDb.Python

variable {α : Type} {bs data : Bytes}

/-! ## The types of the protocol -/

/-- The variants of a field's value, in order. -/
def scanValueVariants : List (Codec.Variant ScanValue) := [
  { Payload := UInt32, make := .u32 },
  { Payload := Int64, make := .i64 },
  { Payload := Bool, make := .bool },
  { Payload := String, make := .str },
  { Payload := UInt64, make := .f64 },
  { Payload := List String, make := .strList }]

theorem mirror_scanValue : Mirror Protocol.scanValue Value.ofScanValue := by
  have hRows : Rows Value.ofScanValue scanValueVariants (.ofList [
      ("U32", 0, .ofList [("value", .u32, .keep)]),
      ("I64", 1, .ofList [("value", .i64, .keep)]),
      ("Bool", 2, .ofList [("value", .bool, .keep)]),
      ("Str", 3, .ofList [("value", .str, .keep)]),
      ("F64", 4, .ofList [("value", .f64, .keep)]),
      ("StrList", 5, .ofList [("value", .vec .str, Protocol.asTuple)])]) :=
    .cons (.one mirror_u32) (fun _ => rfl) <|
    .cons (.one mirror_i64) (fun _ => rfl) <|
    .cons (.one mirror_bool) (fun _ => rfl) <|
    .cons (.one mirror_str) (fun _ => rfl) <|
    .cons (.one mirror_f64) (fun _ => rfl) <|
    .cons (.one mirror_str.vec) (fun _ => rfl) .nil
  refine hRows.family (fun value => ?_) fun i p => ?_
  · cases value with
    | u32 n => exact ⟨⟨0, by decide⟩, n, rfl⟩
    | i64 n => exact ⟨⟨1, by decide⟩, n, rfl⟩
    | bool b => exact ⟨⟨2, by decide⟩, b, rfl⟩
    | str s => exact ⟨⟨3, by decide⟩, s, rfl⟩
    | f64 bits => exact ⟨⟨4, by decide⟩, bits, rfl⟩
    | strList ss => exact ⟨⟨5, by decide⟩, ss, rfl⟩
  · fin_cases i <;> rfl

theorem mirror_selection : Mirror Protocol.selection Value.ofSelection := by
  refine Rows.derived ?_ Selection.toVariant_make
  exact
    .cons .nil (fun _ => rfl) <|
    .cons (.one mirror_u16.vec) (fun _ => rfl) .nil

theorem mirror_joinRelation : Mirror Protocol.joinRelation Value.ofJoinRelation := by
  refine Rows.derived ?_ JoinRelation.toVariant_make
  exact
    .cons (.one mirror_str.opt) (fun _ => rfl) <|
    .cons .nil (fun _ => rfl) <|
    .cons .nil (fun _ => rfl) .nil

theorem mirror_errorCode : Mirror Protocol.errorCode Value.ofErrorCode :=
  mirror_member (fun _ => rfl) (by intro a; cases a <;> decide) (by decide) rfl (by decide)

theorem mirror_compareOp :
    Mirror Protocol.compareOp (Value.ofMember "CompareOp" CompareOp.variants) :=
  mirror_member (fun _ => rfl) (by intro a; cases a <;> decide) (by decide) rfl (by decide)

theorem mirror_fields : Mirror Protocol.fields Value.ofFields :=
  (mirror_u16.pair mirror_scanValue).vec

theorem mirror_predicate : Mirror Protocol.predicate Value.ofPredicate :=
  FieldsMirror.struct (.cons mirror_u16 <| .cons mirror_compareOp <| .one mirror_scanValue)
    Predicate.tuple fun _ => rfl

/-- A transaction's operation as the tuple of its fields. -/
def transactionOpTuple : TransactionOp ≃ RecordId × FieldRef × ScanValue where
  toFun := fun a => (a.id, a.field, a.value)
  invFun := fun t => ⟨t.1, t.2.1, t.2.2⟩
  left_inv := fun _ => rfl
  right_inv := fun _ => rfl

theorem mirror_transactionOp : Mirror Protocol.transactionOp Value.ofTransactionOp :=
  FieldsMirror.struct (.cons mirror_uuid <| .cons mirror_u16 <| .one mirror_scanValue)
    transactionOpTuple fun _ => rfl

theorem mirror_aggregateFn :
    Mirror Protocol.aggregateFn (Value.ofMember "AggregateFn" AggregateFn.variants) :=
  mirror_member (fun _ => rfl) (by intro a; cases a <;> decide) (by decide) rfl (by decide)

theorem mirror_valueKind :
    Mirror Protocol.valueKind (Value.ofMember "ValueKind" ValueKind.variants) :=
  mirror_member (fun _ => rfl) (by intro a; cases a <;> decide) (by decide) rfl (by decide)

theorem mirror_aggregateSpec : Mirror Protocol.aggregateSpec Value.ofAggregateSpec :=
  FieldsMirror.struct (.cons mirror_aggregateFn <| .one mirror_u16.opt) AggregateSpec.tuple
    fun _ => rfl

theorem mirror_aggregateGroup : Mirror Protocol.aggregateGroup Value.ofAggregateGroup :=
  FieldsMirror.struct (.cons mirror_fields <| .one mirror_scanValue.vec) AggregateGroup.tuple
    fun _ => rfl

theorem mirror_fieldCapabilities : Mirror Protocol.fieldCapabilities Value.ofFieldCapabilities :=
  FieldsMirror.struct (.cons mirror_bool <| .cons mirror_bool <| .one mirror_bool)
    FieldCapabilities.tuple fun _ => rfl

theorem mirror_fieldDescriptor : Mirror Protocol.fieldDescriptor Value.ofFieldDescriptor :=
  FieldsMirror.struct
    (.cons mirror_u16 <| .cons mirror_str <| .cons mirror_valueKind <|
      .one mirror_fieldCapabilities)
    FieldDescriptor.tuple fun _ => rfl

theorem mirror_relationCapabilities :
    Mirror Protocol.relationCapabilities Value.ofRelationCapabilities :=
  FieldsMirror.struct (.cons mirror_bool <| .one mirror_bool) RelationCapabilities.tuple
    fun _ => rfl

theorem mirror_domainSchema : Mirror Protocol.domainSchema Value.ofDomainSchema :=
  FieldsMirror.struct (.cons mirror_fieldDescriptor.vec <| .one mirror_relationCapabilities)
    DomainSchema.tuple fun _ => rfl

theorem mirror_joinSpec : Mirror Protocol.joinSpec Value.ofJoinSpec :=
  FieldsMirror.struct
    (.cons mirror_joinRelation <| .cons mirror_str.opt <| .cons mirror_selection <|
      .cons mirror_selection <|
      .cons mirror_predicate.vec <| .cons mirror_predicate.vec <| .one mirror_nat.opt)
    JoinSpec.tuple fun _ => rfl

theorem mirror_joinedRow : Mirror Protocol.joinedRow Value.ofJoinedRow :=
  FieldsMirror.struct (.cons mirror_uuid <| .cons mirror_fields <| .cons mirror_uuid <|
    .one mirror_fields) JoinedRow.tuple fun _ => rfl

theorem mirror_relationDescriptor : Mirror Protocol.relationDescriptor Value.ofRelationDescriptor :=
  FieldsMirror.struct (.cons mirror_str <| .cons mirror_joinRelation <| .one mirror_str.opt)
    RelationDescriptor.tuple fun _ => rfl

theorem mirror_writeOp : Mirror Protocol.writeOp Value.ofWriteOp := by
  refine Rows.derived ?_ WriteOp.toVariant_make
  exact
    .cons (.cons mirror_uuid <| .one mirror_fields) (fun _ => rfl) <|
    .cons (.cons mirror_uuid <| .one mirror_fields) (fun _ => rfl) <|
    .cons (.cons mirror_uuid <| .cons mirror_fields <| .one mirror_predicate) (fun _ => rfl) <|
    .cons (.one mirror_uuid) (fun _ => rfl) <|
    .cons (.cons mirror_uuid <| .cons mirror_uuid <| .one mirror_str) (fun _ => rfl) .nil

theorem mirror_writeResult : Mirror Protocol.writeResult Value.ofWriteResult := by
  refine Rows.derived ?_ WriteResult.toVariant_make
  exact
    .cons .nil (fun _ => rfl) <|
    .cons .nil (fun _ => rfl) <|
    .cons .nil (fun _ => rfl) <|
    .cons .nil (fun _ => rfl) <|
    .cons .nil (fun _ => rfl) <|
    .cons .nil (fun _ => rfl) <|
    .cons .nil (fun _ => rfl) <|
    .cons .nil (fun _ => rfl) <|
    .cons (.one mirror_errorCode) (fun _ => rfl) .nil

/-! ## Requests and responses -/

theorem mirror_request : Mirror Protocol.request Value.ofRequest := by
  refine Rows.derived ?_ Request.toVariant_make
  exact
    .cons (.one mirror_uuid) (fun _ => rfl) <|
    .cons (.cons mirror_u16 <| .one mirror_scanValue) (fun _ => rfl) <|
    .cons (.one mirror_u16) (fun _ => rfl) <|
    .cons (.cons mirror_uuid <| .cons mirror_u16 <| .one mirror_scanValue) (fun _ => rfl) <|
    .cons (.one mirror_uuid) (fun _ => rfl) <|
    .cons (.one mirror_uuid) (fun _ => rfl) <|
    .cons (.one mirror_uuid) (fun _ => rfl) <|
    .cons .nil (fun _ => rfl) <|
    .cons (.one mirror_str) (fun _ => rfl) <|
    .cons (.one mirror_transactionOp.vec) (fun _ => rfl) <|
    .cons (.one mirror_u32) (fun _ => rfl) <|
    .cons .nil (fun _ => rfl) <|
    .cons .nil (fun _ => rfl) <|
    .cons .nil (fun _ => rfl) <|
    .cons (.one mirror_u32) (fun _ => rfl) <|
    .cons (.cons mirror_selection <| .cons mirror_predicate.vec <| .one mirror_nat.opt)
    (fun _ => rfl) <| .cons
      (.cons mirror_u16.vec <| .cons mirror_predicate.vec <| .cons mirror_aggregateSpec.vec <|
        .one mirror_nat.opt)
      (fun _ => rfl) <|
    .cons (.cons mirror_uuid <| .one mirror_str) (fun _ => rfl) <|
    .cons .nil (fun _ => rfl) <|
    .cons (.one mirror_joinSpec) (fun _ => rfl) <|
    .cons .nil (fun _ => rfl) <|
    .cons (.cons mirror_uuid <| .one mirror_fields) (fun _ => rfl) <|
    .cons (.cons mirror_uuid <| .cons mirror_uuid <| .one mirror_str) (fun _ => rfl) <|
    .cons (.cons mirror_uuid <| .one mirror_fields) (fun _ => rfl) <|
    .cons (.one mirror_str) (fun _ => rfl) <|
    .cons .nil (fun _ => rfl) <|
    .cons (.one mirror_uuid) (fun _ => rfl) <|
    .cons .nil (fun _ => rfl) <|
    .cons (.cons mirror_uuid <| .cons mirror_fields <| .one mirror_predicate) (fun _ => rfl) <|
    .cons (.cons mirror_u16 <| .cons (mirror_scanValue.pair mirror_uuid).opt <| .one mirror_u64)
    (fun _ => rfl) <| .cons (.one mirror_str) (fun _ => rfl) <|
    .cons (.cons mirror_writeOp.vec <| .one mirror_bool) (fun _ => rfl) .nil

theorem mirror_response : Mirror Protocol.response Value.ofResponse := by
  refine Rows.derived ?_ Response.toVariant_make
  exact
    .cons (.cons mirror_uuid <| .one mirror_fields) (fun _ => rfl) <|
    .cons (.one mirror_uuid.vec) (fun _ => rfl) <|
    .cons (.one mirror_scanValue.vec) (fun _ => rfl) <|
    .cons (.one mirror_uuid) (fun _ => rfl) <|
    .cons (.one mirror_domainSchema) (fun _ => rfl) <|
    .cons .nil (fun _ => rfl) <|
    .cons .nil (fun _ => rfl) <|
    .cons .nil (fun _ => rfl) <|
    .cons (.cons mirror_errorCode <| .one mirror_str) (fun _ => rfl) <|
    .cons (.cons mirror_nat <| .cons mirror_errorCode <| .one mirror_str) (fun _ => rfl) <|
    .cons (.one mirror_u32) (fun _ => rfl) <|
    .cons (@FieldsMirror.one _ Codec.count32 _ _ _ _ mirror_count32) (fun _ => rfl) <|
    .cons (.one (mirror_uuid.pair mirror_fields).vec) (fun _ => rfl) <|
    .cons (.one mirror_aggregateGroup.vec) (fun _ => rfl) <|
    .cons (.one mirror_str.vec) (fun _ => rfl) <|
    .cons (.one mirror_joinedRow.vec) (fun _ => rfl) <|
    .cons (.one mirror_relationDescriptor.vec) (fun _ => rfl) <|
    .cons (.cons mirror_str.vec <| .one mirror_str) (fun _ => rfl) <|
    .cons (.cons mirror_u64 <| .cons mirror_u64 <| .cons mirror_u64 <| .one mirror_u64)
    (fun _ => rfl) <| .cons (.one mirror_u64) (fun _ => rfl) <|
    .cons (.one mirror_writeResult.vec) (fun _ => rfl) .nil

/-! ## The agreement -/

/-- What the two ends make of the same bytes: the client's value for the server's message, or an
error at both. -/
def Agree (f : α → Value) (read : Except Error Value) : Option α → Prop
  | some a => read = .ok (f a)
  | none => ∃ cause, read = .error (.codec cause)

theorem Mirror.agree [Serde α] {s : Spec} {f : α → Value} (h : Mirror s f) (hSound : s.sound = true)
    (hFlat : s.flat = true) (data : Bytes) : Agree f (s.decode data) (Codec.decode data) := by
  cases hDecode : (Codec.decode data : Option α) with
  | some a =>
    rw [Codec.decode_eq_some] at hDecode
    obtain ⟨hTyped, hWritten⟩ := h.written hSound hDecode
    exact Spec.decode_written hSound hFlat hTyped hWritten
  | none =>
    obtain ⟨v, hTyped, hWritten⟩ | hRefused := Spec.decode_cases hSound data
    · obtain ⟨a, bs, hSome, rfl⟩ := h.onto hTyped
      obtain rfl := Except.ok.inj ((h.written hSound hSome).2.symm.trans hWritten)
      rw [Codec.decode_eq_some.mpr hSome] at hDecode
      cases hDecode
    · exact hRefused

/-- **The client's functions for a family are the server's derived encoding of a type.** -/
structure Speaks [Serde α] (s : Spec) (encode : Value → Except Error Bytes)
    (decode : Bytes → Except Error Value) (f : α → Value) : Prop where
  /-- The well typed values are those for the messages that the server can write. -/
  typed v : Typed s v ↔ ∃ a bs, v = f a ∧ Codec.encode a = some bs
  /-- Both ends write the same bytes. -/
  written {a bs} : Codec.encode a = some bs → encode (f a) = .ok bs
  /-- What is written is read back. -/
  read_back {v} : Typed s v → ∃ bs, encode v = .ok bs ∧ decode bs = .ok v
  /-- Whatever is read is written as the bytes it was read of. -/
  rewritten data : (∃ v, decode data = .ok v ∧ Typed s v ∧ encode v = .ok data) ∨
    ∃ cause, decode data = .error (.codec cause)
  /-- Both ends read the same message, or both refuse. -/
  agree data : Agree f (decode data) (Codec.decode data)

theorem Mirror.speaks [Serde α] {s : Spec} {f : α → Value} (h : Mirror s f)
    (hSound : s.sound = true) (hFlat : s.flat = true) : Speaks s (encodeValue s) s.decode f where
  typed := by
    intro v
    constructor
    · intro hTyped
      obtain ⟨a, bs, hSome, rfl⟩ := h.onto hTyped
      exact ⟨a, bs, rfl, hSome⟩
    · rintro ⟨a, bs, rfl, hSome⟩
      exact (h.written hSound hSome).1
  written := fun hSome => (h.written hSound hSome).2
  read_back := by
    intro v hTyped
    obtain ⟨bs, hWritten, -⟩ := encodes hSound hTyped
    exact ⟨bs, hWritten, Spec.decode_written hSound hFlat hTyped hWritten⟩
  rewritten := by
    intro data
    obtain ⟨v, hTyped, hWritten⟩ | hRefused := Spec.decode_cases hSound data
    · exact .inl ⟨v, Spec.decode_written hSound hFlat hTyped hWritten, hTyped, hWritten⟩
    · exact .inr hRefused
  agree := h.agree hSound hFlat

theorem speaks_request : Speaks Protocol.request encodeRequest decodeRequest Value.ofRequest :=
  mirror_request.speaks Protocol.sound_request rfl

theorem speaks_response : Speaks Protocol.response encodeResponse decodeResponse Value.ofResponse :=
  mirror_response.speaks Protocol.sound_response rfl

/-- **The client speaks the server's protocol**, in its requests and in its responses. -/
theorem client_speaks :
    Speaks Protocol.request encodeRequest decodeRequest Value.ofRequest ∧
      Speaks Protocol.response encodeResponse decodeResponse Value.ofResponse :=
  ⟨speaks_request, speaks_response⟩

example : encodeRequest (.ofRequest (.delete (.ofNat 7))) =
    .ok ([26, 0, 0, 0, 16, 0, 0, 0, 0, 0, 0, 0] ++ (Uuid.ofNat 7).bytes) := by decide +kernel

end MultimodalDb.Python
