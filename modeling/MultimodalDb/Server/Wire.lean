import MultimodalDb.Server.Protocol
import Mathlib.Logic.Equiv.Defs
import Mathlib.Tactic.FinCases
import Mathlib.Data.Fintype.Basic

/-!
# The encoding of requests and responses

What deriving `Serialize` and `Deserialize` gives the remaining types of the protocol: a struct is
its fields, an enum is the index of its variant with the fields of that.
-/

namespace MultimodalDb

namespace Codec

variable {α β : Type}

/-- The encoding of what a value is the same as. -/
@[reducible] def ofEquiv [Serde β] (e : α ≃ β) : Serde α :=
  refine e (fun b => some (e.symm b)) fun {a b} => by
    rw [Option.some.injEq, Equiv.symm_apply_eq, eq_comm]

/-- A variant of an enum: what its fields are, and the value they make. -/
structure Variant (α : Type) where
  Payload : Type
  [serde : Serde Payload]
  make : Payload → α

/-- An enum, given by its variants in order. -/
@[reducible] def family (vs : List (Variant α))
    (toVariant : α → (i : Fin vs.length) × (vs.get i).Payload)
    (hFew : vs.length < 2 ^ 32) (hMake : ∀ a, (vs.get (toVariant a).1).make (toVariant a).2 = a)
    (hVariant : ∀ i p, toVariant ((vs.get i).make p) = ⟨i, p⟩) : Serde α :=
  letI : ∀ i, Serde (vs.get i).Payload := fun i => (vs.get i).serde
  letI := variants (fun i => (vs.get i).Payload) hFew
  ofEquiv ⟨toVariant, fun v => (vs.get v.1).make v.2, hMake, fun v => hVariant v.1 v.2⟩

/-- Nothing is written for no fields. -/
instance : Serde Unit where
  put _ := some []
  get bs := some ((), bs)
  get_put := by
    intro a bs h rest
    cases h
    rfl
  put_get := by
    intro bs a rest h
    cases h
    exact ⟨[], rfl, rfl⟩

/-- A count that is a `u32`. One that four bytes do not hold has no encoding. -/
@[reducible] def count32 : Serde Nat where
  put n := if n < UInt32.size then Serde.put (UInt32.ofNat n) else none
  get bs := (Serde.get bs : Option (UInt32 × Bytes)).map fun p => (p.1.toNat, p.2)
  get_put := by
    intro n bs h rest
    split at h
    · next hSmall =>
      rw [Serde.get_put h, Option.map_some, UInt32.toNat_ofNat_of_lt' hSmall]
    · cases h
  put_get := by
    intro bs n rest h
    obtain ⟨p, hGet, hPair⟩ := Option.map_eq_some_iff.mp h
    cases hPair
    rw [if_pos p.1.toNat_lt, UInt32.ofNat_toNat]
    exact Serde.put_get hGet

end Codec

/-! ## Enums without fields -/

namespace ValueKind

def variants : List ValueKind := [.u32, .i64, .bool, .str, .strList]

instance : Serde ValueKind :=
  Codec.enumIndex variants (by intro a; cases a <;> decide) (by decide) (by decide)

end ValueKind

namespace CompareOp

def variants : List CompareOp := [.eq, .ne, .lt, .le, .gt, .ge]

instance : Serde CompareOp :=
  Codec.enumIndex variants (by intro a; cases a <;> decide) (by decide) (by decide)

end CompareOp

namespace AggregateFn

def variants : List AggregateFn := [.count, .sum, .avg, .min, .max]

instance : Serde AggregateFn :=
  Codec.enumIndex variants (by intro a; cases a <;> decide) (by decide) (by decide)

end AggregateFn

namespace ErrorCode

def variants : List ErrorCode := [
  .unknownField, .unsupported, .malformed, .unauthenticated, .unauthorized,
  .recordNotFound, .noSession,
  .sessionOpen, .sessionFull, .journal, .conflict, .duplicate, .storage, .guardFailed]

instance : Serde ErrorCode :=
  Codec.enumIndex variants (by intro a; cases a <;> decide) (by decide) (by decide)

end ErrorCode

/-! ## The parts of requests and responses -/

namespace Selection

@[reducible] def variants : List (Codec.Variant Selection) := [
  { Payload := Unit, make := fun _ => .all },
  { Payload := List FieldRef, make := .fields }]

def toVariant : Selection → (i : Fin variants.length) × (variants.get i).Payload
  | .all => ⟨0, ()⟩
  | .fields tags => ⟨1, tags⟩

theorem toVariant_make (i : Fin variants.length) (p : (variants.get i).Payload) :
    toVariant ((variants.get i).make p) = ⟨i, p⟩ := by
  fin_cases i <;> rfl

instance : Serde Selection :=
  Codec.family variants toVariant (by decide) (by
    intro value
    cases value <;> rfl) toVariant_make

end Selection

namespace JoinRelation

@[reducible] def variants : List (Codec.Variant JoinRelation) := [
  { Payload := Option String, make := .neighbors },
  { Payload := Unit, make := fun _ => .parent },
  { Payload := Unit, make := fun _ => .children }]

def toVariant : JoinRelation → (i : Fin variants.length) × (variants.get i).Payload
  | .neighbors label => ⟨0, label⟩
  | .parent => ⟨1, ()⟩
  | .children => ⟨2, ()⟩

theorem toVariant_make (i : Fin variants.length) (p : (variants.get i).Payload) :
    toVariant ((variants.get i).make p) = ⟨i, p⟩ := by
  fin_cases i <;> rfl

instance : Serde JoinRelation :=
  Codec.family variants toVariant (by decide) (by
    intro value
    cases value <;> rfl) toVariant_make

end JoinRelation

def Predicate.tuple : Predicate ≃ FieldRef × CompareOp × ScanValue where
  toFun := fun a => (a.field, a.op, a.value)
  invFun := fun t => ⟨t.1, t.2.1, t.2.2⟩
  left_inv := fun _ => rfl
  right_inv := fun _ => rfl

instance : Serde Predicate := Codec.ofEquiv Predicate.tuple

def AggregateSpec.tuple : AggregateSpec ≃ AggregateFn × Option FieldRef where
  toFun := fun a => (a.func, a.field)
  invFun := fun t => ⟨t.1, t.2⟩
  left_inv := fun _ => rfl
  right_inv := fun _ => rfl

instance : Serde AggregateSpec := Codec.ofEquiv AggregateSpec.tuple

def AggregateGroup.tuple : AggregateGroup ≃ Fields × List ScanValue where
  toFun := fun a => (a.key, a.values)
  invFun := fun t => ⟨t.1, t.2⟩
  left_inv := fun _ => rfl
  right_inv := fun _ => rfl

instance : Serde AggregateGroup := Codec.ofEquiv AggregateGroup.tuple

def FieldCapabilities.tuple : FieldCapabilities ≃ Bool × Bool × Bool where
  toFun := fun a => (a.filterEq, a.scan, a.update)
  invFun := fun t => ⟨t.1, t.2.1, t.2.2⟩
  left_inv := fun _ => rfl
  right_inv := fun _ => rfl

instance : Serde FieldCapabilities := Codec.ofEquiv FieldCapabilities.tuple

def FieldDescriptor.tuple :
    FieldDescriptor ≃ FieldRef × String × ValueKind × FieldCapabilities where
  toFun := fun a => (a.tag, a.name, a.valueKind, a.capabilities)
  invFun := fun t => ⟨t.1, t.2.1, t.2.2.1, t.2.2.2⟩
  left_inv := fun _ => rfl
  right_inv := fun _ => rfl

instance : Serde FieldDescriptor := Codec.ofEquiv FieldDescriptor.tuple

def RelationCapabilities.tuple : RelationCapabilities ≃ Bool × Bool where
  toFun := fun a => (a.parentChildren, a.neighbors)
  invFun := fun t => ⟨t.1, t.2⟩
  left_inv := fun _ => rfl
  right_inv := fun _ => rfl

instance : Serde RelationCapabilities := Codec.ofEquiv RelationCapabilities.tuple

def DomainSchema.tuple : DomainSchema ≃ List FieldDescriptor × RelationCapabilities where
  toFun := fun a => (a.fields, a.relations)
  invFun := fun t => ⟨t.1, t.2⟩
  left_inv := fun _ => rfl
  right_inv := fun _ => rfl

instance : Serde DomainSchema := Codec.ofEquiv DomainSchema.tuple

def JoinSpec.tuple : JoinSpec ≃ JoinRelation × Option String × Selection × Selection ×
    List Predicate × List Predicate × Option Nat where
  toFun :=
    fun a => (a.relation, a.rightTable, a.left, a.right, a.leftFilter, a.rightFilter, a.limit)
  invFun := fun t => ⟨t.1, t.2.1, t.2.2.1, t.2.2.2.1, t.2.2.2.2.1, t.2.2.2.2.2.1, t.2.2.2.2.2.2⟩
  left_inv := fun _ => rfl
  right_inv := fun _ => rfl

instance : Serde JoinSpec := Codec.ofEquiv JoinSpec.tuple

def JoinedRow.tuple : JoinedRow ≃ RecordId × Fields × RecordId × Fields where
  toFun := fun a => (a.leftId, a.left, a.rightId, a.right)
  invFun := fun t => ⟨t.1, t.2.1, t.2.2.1, t.2.2.2⟩
  left_inv := fun _ => rfl
  right_inv := fun _ => rfl

instance : Serde JoinedRow := Codec.ofEquiv JoinedRow.tuple

def RelationDescriptor.tuple : RelationDescriptor ≃ String × JoinRelation × Option String where
  toFun := fun a => (a.name, a.kind, a.targetTable)
  invFun := fun t => ⟨t.1, t.2.1, t.2.2⟩
  left_inv := fun _ => rfl
  right_inv := fun _ => rfl

instance : Serde RelationDescriptor := Codec.ofEquiv RelationDescriptor.tuple

namespace WriteOp

@[reducible] def variants : List (Codec.Variant WriteOp) := [
  { Payload := RecordId × Fields, make := fun p => .insert p.1 p.2 },
  { Payload := RecordId × Fields, make := fun p => .replace p.1 p.2 },
  { Payload := RecordId × Fields × Predicate, make := fun p => .replaceIf p.1 p.2.1 p.2.2 },
  { Payload := RecordId, make := .delete },
  { Payload := RecordId × RecordId × String, make := fun p => .link p.1 p.2.1 p.2.2 }]

def toVariant : WriteOp → (i : Fin variants.length) × (variants.get i).Payload
  | .insert id fields => ⟨0, (id, fields)⟩
  | .replace id fields => ⟨1, (id, fields)⟩
  | .replaceIf id fields guard => ⟨2, (id, fields, guard)⟩
  | .delete id => ⟨3, id⟩
  | .link left right relation => ⟨4, (left, right, relation)⟩

theorem toVariant_make (i : Fin variants.length) (p : (variants.get i).Payload) :
    toVariant ((variants.get i).make p) = ⟨i, p⟩ := by
  fin_cases i <;> rfl

instance : Serde WriteOp :=
  Codec.family variants toVariant (by decide) (by
    intro value
    cases value <;> rfl) toVariant_make

end WriteOp

namespace WriteResult

@[reducible] def variants : List (Codec.Variant WriteResult) := [
  { Payload := Unit, make := fun _ => .inserted },
  { Payload := Unit, make := fun _ => .duplicate },
  { Payload := Unit, make := fun _ => .replaced },
  { Payload := Unit, make := fun _ => .notFound },
  { Payload := Unit, make := fun _ => .guardFailed },
  { Payload := Unit, make := fun _ => .linked },
  { Payload := Unit, make := fun _ => .alreadyLinked },
  { Payload := Unit, make := fun _ => .deleted },
  { Payload := ErrorCode, make := .failed }]

def toVariant : WriteResult → (i : Fin variants.length) × (variants.get i).Payload
  | .inserted => ⟨0, ()⟩
  | .duplicate => ⟨1, ()⟩
  | .replaced => ⟨2, ()⟩
  | .notFound => ⟨3, ()⟩
  | .guardFailed => ⟨4, ()⟩
  | .linked => ⟨5, ()⟩
  | .alreadyLinked => ⟨6, ()⟩
  | .deleted => ⟨7, ()⟩
  | .failed code => ⟨8, code⟩

theorem toVariant_make (i : Fin variants.length) (p : (variants.get i).Payload) :
    toVariant ((variants.get i).make p) = ⟨i, p⟩ := by
  fin_cases i <;> rfl

instance : Serde WriteResult :=
  Codec.family variants toVariant (by decide) (by
    intro value
    cases value <;> rfl) toVariant_make

end WriteResult

/-! ## Requests and responses -/

namespace Request

@[reducible] def variants : List (Codec.Variant Request) := [
  { Payload := RecordId, make := .getById },
  { Payload := FieldRef × ScanValue, make := fun p => .filterEq p.1 p.2 },
  { Payload := FieldRef, make := .scanField },
  { Payload := RecordId × FieldRef × ScanValue, make := fun p => .updateField p.1 p.2.1 p.2.2 },
  { Payload := RecordId, make := .parent },
  { Payload := RecordId, make := .children },
  { Payload := RecordId, make := .neighbors },
  { Payload := Unit, make := fun _ => .describeSchema },
  { Payload := String, make := .authenticate },
  { Payload := List TransactionOp, make := .transaction },
  { Payload := UInt32, make := .hello },
  { Payload := Unit, make := fun _ => .begin },
  { Payload := Unit, make := fun _ => .commit },
  { Payload := Unit, make := fun _ => .rollback },
  { Payload := UInt32, make := .beginWith },
  { Payload := Selection × List Predicate × Option Nat, make := fun p => .query p.1 p.2.1 p.2.2 },
  { Payload := List FieldRef × List Predicate × List AggregateSpec × Option Nat,
    make := fun p => .aggregate p.1 p.2.1 p.2.2.1 p.2.2.2 },
  { Payload := RecordId × String, make := fun p => .neighborsByRelation p.1 p.2 },
  { Payload := Unit, make := fun _ => .listRelationKinds },
  { Payload := JoinSpec, make := .join },
  { Payload := Unit, make := fun _ => .describeRelations },
  { Payload := RecordId × Fields, make := fun p => .insert p.1 p.2 },
  { Payload := RecordId × RecordId × String, make := fun p => .link p.1 p.2.1 p.2.2 },
  { Payload := RecordId × Fields, make := fun p => .replace p.1 p.2 },
  { Payload := String, make := .use },
  { Payload := Unit, make := fun _ => .listTables },
  { Payload := RecordId, make := .delete },
  { Payload := Unit, make := fun _ => .compact },
  { Payload := RecordId × Fields × Predicate, make := fun p => .replaceIf p.1 p.2.1 p.2.2 },
  { Payload := FieldRef × Option (ScanValue × RecordId) × UInt64,
    make := fun p => .page p.1 p.2.1 p.2.2 },
  { Payload := String, make := .countEdges },
  { Payload := List WriteOp × Bool, make := fun p => .writeBatch p.1 p.2 }]

def toVariant : Request → (i : Fin variants.length) × (variants.get i).Payload
  | .getById id => ⟨0, id⟩
  | .filterEq field value => ⟨1, (field, value)⟩
  | .scanField field => ⟨2, field⟩
  | .updateField id field value => ⟨3, (id, field, value)⟩
  | .parent id => ⟨4, id⟩
  | .children id => ⟨5, id⟩
  | .neighbors id => ⟨6, id⟩
  | .describeSchema => ⟨7, ()⟩
  | .authenticate token => ⟨8, token⟩
  | .transaction updates => ⟨9, updates⟩
  | .hello protocolVersion => ⟨10, protocolVersion⟩
  | .begin => ⟨11, ()⟩
  | .commit => ⟨12, ()⟩
  | .rollback => ⟨13, ()⟩
  | .beginWith flags => ⟨14, flags⟩
  | .query select filter limit => ⟨15, (select, filter, limit)⟩
  | .aggregate groupBy filter aggregates limit => ⟨16, (groupBy, filter, aggregates, limit)⟩
  | .neighborsByRelation id relation => ⟨17, (id, relation)⟩
  | .listRelationKinds => ⟨18, ()⟩
  | .join spec => ⟨19, spec⟩
  | .describeRelations => ⟨20, ()⟩
  | .insert id fields => ⟨21, (id, fields)⟩
  | .link left right relation => ⟨22, (left, right, relation)⟩
  | .replace id fields => ⟨23, (id, fields)⟩
  | .use table => ⟨24, table⟩
  | .listTables => ⟨25, ()⟩
  | .delete id => ⟨26, id⟩
  | .compact => ⟨27, ()⟩
  | .replaceIf id fields guard => ⟨28, (id, fields, guard)⟩
  | .page orderBy after limit => ⟨29, (orderBy, after, limit)⟩
  | .countEdges relation => ⟨30, relation⟩
  | .writeBatch ops atomic => ⟨31, (ops, atomic)⟩

theorem toVariant_make (i : Fin variants.length) (p : (variants.get i).Payload) :
    toVariant ((variants.get i).make p) = ⟨i, p⟩ := by
  fin_cases i <;> rfl

instance : Serde Request :=
  Codec.family variants toVariant (by decide) (by
    intro value
    cases value <;> rfl) toVariant_make

end Request

namespace Response

@[reducible] def variants : List (Codec.Variant Response) := [
  { Payload := RecordId × Fields, make := fun p => .record p.1 p.2 },
  { Payload := List RecordId, make := .recordList },
  { Payload := List ScanValue, make := .scanValues },
  { Payload := RecordId, make := .id },
  { Payload := DomainSchema, make := .schema },
  { Payload := Unit, make := fun _ => .notFound },
  { Payload := Unit, make := fun _ => .noParent },
  { Payload := Unit, make := fun _ => .ok },
  { Payload := ErrorCode × String, make := fun p => .err p.1 p.2 },
  { Payload := Nat × ErrorCode × String, make := fun p => .transactionFailed p.1 p.2.1 p.2.2 },
  { Payload := UInt32, make := .hello },
  { Payload := Nat, serde := Codec.count32, make := .staged },
  { Payload := List (RecordId × Fields), make := .rows },
  { Payload := List AggregateGroup, make := .groups },
  { Payload := List String, make := .relationKinds },
  { Payload := List JoinedRow, make := .joinedRows },
  { Payload := List RelationDescriptor, make := .relations },
  { Payload := List String × String, make := fun p => .tables p.1 p.2 },
  { Payload := UInt64 × UInt64 × UInt64 × UInt64,
    make := fun p => .compacted p.1 p.2.1 p.2.2.1 p.2.2.2 },
  { Payload := UInt64, make := .count },
  { Payload := List WriteResult, make := .batchResults }]

def toVariant : Response → (i : Fin variants.length) × (variants.get i).Payload
  | .record key fields => ⟨0, (key, fields)⟩
  | .recordList records => ⟨1, records⟩
  | .scanValues values => ⟨2, values⟩
  | .id key => ⟨3, key⟩
  | .schema found => ⟨4, found⟩
  | .notFound => ⟨5, ()⟩
  | .noParent => ⟨6, ()⟩
  | .ok => ⟨7, ()⟩
  | .err code message => ⟨8, (code, message)⟩
  | .transactionFailed index code message => ⟨9, (index, code, message)⟩
  | .hello protocolVersion => ⟨10, protocolVersion⟩
  | .staged index => ⟨11, index⟩
  | .rows found => ⟨12, found⟩
  | .groups found => ⟨13, found⟩
  | .relationKinds kinds => ⟨14, kinds⟩
  | .joinedRows found => ⟨15, found⟩
  | .relations found => ⟨16, found⟩
  | .tables names primary => ⟨17, (names, primary)⟩
  | .compacted records slotsReclaimed logEntriesFolded edgeLogsFolded =>
    ⟨18, (records, slotsReclaimed, logEntriesFolded, edgeLogsFolded)⟩
  | .count n => ⟨19, n⟩
  | .batchResults results => ⟨20, results⟩

theorem toVariant_make (i : Fin variants.length) (p : (variants.get i).Payload) :
    toVariant ((variants.get i).make p) = ⟨i, p⟩ := by
  fin_cases i <;> rfl

instance : Serde Response :=
  Codec.family variants toVariant (by decide) (by
    intro value
    cases value <;> rfl) toVariant_make

end Response

end MultimodalDb
