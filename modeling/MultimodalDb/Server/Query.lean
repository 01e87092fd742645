import MultimodalDb.Server.Domain

/-!
# Queries, pages, joins and aggregates

What a table's reads return once its rows are there: each request is checked against the schema
alone, and then evaluated over the rows.
-/

namespace MultimodalDb

/-- A row of a page or a query. -/
abbrev PageRow := RecordId × Fields

def DomainSchema.kindOf (schema : DomainSchema) (tag : FieldRef) : Option ValueKind :=
  (schema.fields.find? fun f => f.tag = tag).map (·.valueKind)

def isOrderable (kind : ValueKind) : Bool := kind = .u32 || kind = .i64

/-! ## Queries -/

def validateQuery (schema : DomainSchema) (select : Selection) (filter : List Predicate) :
    Except ErrorCode Unit := do
  if let .fields tags := select then
    for tag in tags do
      if (schema.kindOf tag).isNone then
        throw .unknownField
  for predicate in filter do
    validatePredicate schema predicate

def selectFields (fields : Fields) : Selection → Fields
  | .all => fields
  | .fields wanted => fields.filter fun f => f.1 ∈ wanted

/-- The first rows, or all of them. -/
def truncate {α : Type} (limit : Option Nat) (rows : List α) : List α :=
  match limit with
  | some limit => rows.take limit
  | none => rows

def evaluateQuery (rows : List PageRow) (select : Selection) (filter : List Predicate)
    (limit : Option Nat) : List PageRow :=
  let matched := rows.filter fun row => filter.all (predicateMatches row.2)
  truncate limit (matched.map fun (id, fields) => (id, selectFields fields select))

/-! ## Pages -/

def validatePage (schema : DomainSchema) (orderBy : FieldRef)
    (after : Option (ScanValue × RecordId)) (limit : UInt64) : Except ErrorCode Unit := do
  let some kind := schema.kindOf orderBy | throw .unknownField
  if isOrderable kind = false then
    throw .malformed
  if let some (value, _) := after then
    if valueMatchesKind kind value = false then
      throw .malformed
  if limit = 0 then
    throw .malformed

/-- A value as a sort key. -/
def pageKeyValue : ScanValue → Option Int
  | .u32 v => some v.toNat
  | .i64 v => some v.toInt
  | _ => none

/-- The key of what has no place in the order: `i128::MIN`. -/
def noPageKey : Int := -2 ^ 127

def pageKey (fields : Fields) (orderBy : FieldRef) : Int :=
  (((fields.find? fun f => f.1 = orderBy).map (·.2)).bind pageKeyValue).getD noPageKey

/-- The order of a page: by key, and among equal keys by the bytes of the id. -/
def pageBefore (a b : Int × RecordId) : Bool :=
  a.1 < b.1 || (a.1 = b.1 && decide (a.2.bytes < b.2.bytes))

def pageIds (keys : List (RecordId × Int)) (after : Option (ScanValue × RecordId)) (limit : Nat) :
    List RecordId :=
  let cursor := after.map fun (value, id) => ((pageKeyValue value).getD noPageKey, id)
  let keyed := (keys.map fun (id, key) => (key, id)).filter fun key => cursor.all (pageBefore · key)
  ((keyed.mergeSort fun a b => !pageBefore b a).take limit).map (·.2)

/-! ## Joins -/

def defaultRelationDescriptors (schema : DomainSchema) (labels : List String) :
    List RelationDescriptor :=
  if schema.relations.neighbors then
    ⟨"neighbors", .neighbors none, none⟩ :: labels.map fun label =>
      ⟨label, .neighbors (some label), none⟩
  else
    []

def validateJoin (schema : DomainSchema) (relations : List RelationDescriptor)
    (rightSchema : Option DomainSchema) (spec : JoinSpec) : Except ErrorCode Unit := do
  validateQuery schema spec.left spec.leftFilter
  let some relation := relations.find? fun r => r.kind = spec.relation | throw .malformed
  match spec.rightTable, relation.targetTable with
  | none, none => validateQuery schema spec.right spec.rightFilter
  | none, some _ => throw .unsupported
  | some named, some target =>
    if named = target then
      match rightSchema with
      | none => throw .malformed
      | some right => validateQuery right spec.right spec.rightFilter
    else
      throw .malformed
  | some _, none => throw .malformed

/-! ## Aggregates -/

def validateAggregate (schema : DomainSchema) (groupBy : List FieldRef) (filter : List Predicate)
    (aggregates : List AggregateSpec) : Except ErrorCode Unit := do
  for tag in groupBy do
    match schema.kindOf tag with
    | none => throw .unknownField
    | some .strList => throw .malformed
    | some _ => pure ()
  for predicate in filter do
    validatePredicate schema predicate
  for spec in aggregates do
    match spec.func, spec.field with
    | .count, none => pure ()
    | .count, some _ => throw .malformed
    | _, none => throw .malformed
    | _, some tag =>
      let some kind := schema.kindOf tag | throw .unknownField
      if isOrderable kind = false then
        throw .malformed

def fieldValues (tag : FieldRef) (rows : List Fields) : List ScanValue :=
  rows.filterMap fun fields => (fields.find? fun f => f.1 = tag).map (·.2)

/-- The number of a value. Only numeric fields are reduced. -/
def numericI64 : ScanValue → Int64
  | .u32 v => Int64.ofNat v.toNat
  | .i64 v => v
  | _ => 0

/-- Sums wrap around as `i64` does. -/
def sumI64 (values : List ScanValue) : Int64 := (values.map numericI64).foldl (· + ·) 0

def average (values : List ScanValue) : Float :=
  if values.isEmpty then 0 else (sumI64 values).toFloat / Float.ofNat values.length

/-- The first value that no other one is beyond, or the zero of the field's kind. -/
def reduceExtreme (tag : FieldRef) (rows : List Fields) (wantMax : Bool) (schema : DomainSchema) :
    ScanValue :=
  match fieldValues tag rows with
  | [] => if schema.kindOf tag = some .u32 then .u32 0 else .i64 0
  | first :: rest =>
    rest.foldl (fun best v =>
      let replace := if wantMax then numericI64 best < numericI64 v
        else numericI64 v < numericI64 best
      if replace then v else best) first

/-- One reduction of one group. Every reduction but a count names its field. -/
def reduce (spec : AggregateSpec) (rows : List Fields) (schema : DomainSchema) : ScanValue :=
  match spec.func, spec.field with
  | .count, _ => .i64 (Int64.ofNat rows.length)
  | .sum, some tag => .i64 (sumI64 (fieldValues tag rows))
  | .avg, some tag => .f64 (average (fieldValues tag rows)).toBits
  | .min, some tag => reduceExtreme tag rows false schema
  | .max, some tag => reduceExtreme tag rows true schema
  | _, none => .i64 0

/-- The rows of a key join its bucket, or open it behind the others. -/
def pushBucket (key fields : Fields) : List (Fields × List Fields) → List (Fields × List Fields)
  | [] => [(key, [fields])]
  | (k, rows) :: buckets =>
    if k = key then (k, rows ++ [fields]) :: buckets else (k, rows) :: pushBucket key fields buckets

def evaluateAggregate (rows : List PageRow) (groupBy : List FieldRef) (filter : List Predicate)
    (aggregates : List AggregateSpec) (limit : Option Nat) (schema : DomainSchema) :
    List AggregateGroup :=
  let start : List (Fields × List Fields) := if groupBy.isEmpty then [([], [])] else []
  let matched := (rows.map (·.2)).filter fun fields => filter.all (predicateMatches fields)
  let buckets := matched.foldl (fun buckets fields =>
    pushBucket (groupBy.filterMap fun tag => fields.find? fun f => f.1 = tag) fields buckets) start
  truncate limit (buckets.map fun (key, rows) => ⟨key, aggregates.map (reduce · rows schema)⟩)

end MultimodalDb
