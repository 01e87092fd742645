import MultimodalDb.Server.Tables

/-!
# Protocol versions

Every variant of a request, a response, an error code and a value has the version that brought it.
On a connection the rule is: nothing newer than the version agreed on is sent, but the nearest older
shape. `Response.older` states the rule for every response, at any depth.

* `older_eq_self`: what a version knows, the rule leaves alone.
* `older_known`: what the rule sends is known.
-/

namespace MultimodalDb

/-! ## The table of versions -/

def ErrorCode.since : ErrorCode → UInt32
  | .unknownField | .unsupported | .malformed | .unauthenticated | .unauthorized
  | .recordNotFound => 1
  | .noSession | .sessionOpen | .sessionFull => 3
  | .journal => 4
  | .conflict => 7
  | .duplicate | .storage => 13
  | .guardFailed => 19

def ScanValue.since : ScanValue → UInt32
  | .u32 _ | .i64 _ | .bool _ | .str _ => 1
  | .f64 _ => 9
  | .strList _ => 11

def ValueKind.since : ValueKind → UInt32
  | .u32 | .i64 | .bool | .str => 1
  | .strList => 11

def Request.since : Request → UInt32
  | .getById _ | .filterEq .. | .scanField _ | .updateField .. | .parent _ | .children _
  | .neighbors _
  | .describeSchema | .authenticate _ | .transaction _ => 1
  | .hello _ => 2
  | .begin | .commit | .rollback => 3
  | .beginWith _ => 5
  | .query .. => 8
  | .aggregate .. => 9
  | .neighborsByRelation .. | .listRelationKinds => 10
  | .join _ | .describeRelations => 12
  | .insert .. => 13
  | .link .. => 14
  | .replace .. => 15
  | .use _ | .listTables => 16
  | .delete _ => 17
  | .compact => 18
  | .replaceIf .. => 19
  | .page .. => 20
  | .countEdges _ => 21
  | .writeBatch .. => 22

def Response.since : Response → UInt32
  | .record .. | .recordList _ | .scanValues _ | .id _ | .schema _ | .notFound | .noParent
  | .ok | .err ..
  | .transactionFailed .. => 1
  | .hello _ => 2
  | .staged _ => 3
  | .rows _ => 8
  | .groups _ => 9
  | .relationKinds _ => 10
  | .joinedRows _ | .relations _ => 12
  | .tables .. => 16
  | .compacted .. => 18
  | .count _ => 21
  | .batchResults _ => 22

/-! ## What a version knows -/

def knownFields (v : UInt32) (fields : Fields) : Fields := fields.filter fun f => f.2.since ≤ v

def WriteResult.Known (v : UInt32) : WriteResult → Prop
  | .failed code => code.since ≤ v
  | _ => True

/-- Nothing in a response is newer than `v`. -/
def Response.Known (v : UInt32) (resp : Response) : Prop :=
  resp.since ≤ v ∧
    match resp with
    | .record _ fields => ∀ f ∈ fields, f.2.since ≤ v
    | .scanValues values => ∀ value ∈ values, value.since ≤ v
    | .schema found => ∀ f ∈ found.fields, f.valueKind.since ≤ v
    | .err code _ | .transactionFailed _ code _ => code.since ≤ v
    | .rows found => ∀ row ∈ found, ∀ f ∈ row.2, f.2.since ≤ v
    | .groups found =>
      ∀ group ∈ found, (∀ f ∈ group.key, f.2.since ≤ v) ∧ ∀ value ∈ group.values, value.since ≤ v
    | .joinedRows found =>
      ∀ row ∈ found, (∀ f ∈ row.left, f.2.since ≤ v) ∧ ∀ f ∈ row.right, f.2.since ≤ v
    | .batchResults results => ∀ result ∈ results, result.Known v
    | _ => True

/-! ## The rule -/

def WriteResult.older (v : UInt32) : WriteResult → WriteResult
  | .failed code => if code.since ≤ v then .failed code else .failed .unsupported
  | result => result

/-- The nearest older shape of a response: a newer response or code becomes `Unsupported`, and a
field of a newer kind of value is left out. -/
def Response.older (v : UInt32) (resp : Response) : Response :=
  if resp.since ≤ v then
    match resp with
    | .record found fields => .record found (knownFields v fields)
    | .scanValues values => .scanValues (values.filter fun value => value.since ≤ v)
    | .schema found =>
      .schema { found with fields := found.fields.filter fun f => f.valueKind.since ≤ v }
    | .err code message => if code.since ≤ v then .err code message else errResponse .unsupported
    | .transactionFailed index code message =>
      if code.since ≤ v then .transactionFailed index code message
      else MultimodalDb.transactionFailed (index, .unsupported)
    | .rows found => .rows (found.map fun row => (row.1, knownFields v row.2))
    | .groups found =>
      .groups (found.map fun group =>
        ⟨knownFields v group.key, group.values.filter fun value => value.since ≤ v⟩)
    | .joinedRows found =>
      .joinedRows (found.map fun row =>
        { row with left := knownFields v row.left, right := knownFields v row.right })
    | .batchResults results => .batchResults (results.map (·.older v))
    | resp => resp
  else
    errResponse .unsupported

theorem knownFields_eq_self {v : UInt32} {fields : Fields} (h : ∀ f ∈ fields, f.2.since ≤ v) :
    knownFields v fields = fields :=
  List.filter_eq_self.mpr fun f hMem => decide_eq_true (h f hMem)

theorem mem_knownFields {v : UInt32} {fields : Fields} {f : FieldRef × ScanValue} :
    f ∈ knownFields v fields ↔ f ∈ fields ∧ f.2.since ≤ v := by
  simp [knownFields]

theorem map_eq_self {α : Type} {f : α → α} {l : List α} (h : ∀ a ∈ l, f a = a) : l.map f = l :=
  (List.map_congr_left h).trans (List.map_id' l)

theorem WriteResult.older_eq_self {v : UInt32} {result : WriteResult} (h : result.Known v) :
    result.older v = result := by
  cases result with
  | failed code => exact if_pos h
  | _ => rfl

/-- **What a version knows, the rule leaves alone.** -/
theorem Response.older_eq_self {v : UInt32} {resp : Response} (h : resp.Known v) :
    resp.older v = resp := by
  obtain ⟨hSince, hParts⟩ := h
  unfold Response.older
  rw [if_pos hSince]
  cases resp with
  | record found fields => exact congrArg _ (knownFields_eq_self hParts)
  | scanValues values =>
    exact congrArg _ (List.filter_eq_self.mpr fun value hMem => decide_eq_true (hParts value hMem))
  | schema found =>
    have hFields : (found.fields.filter fun f => f.valueKind.since ≤ v) = found.fields :=
      List.filter_eq_self.mpr fun f hMem => decide_eq_true (hParts f hMem)
    dsimp only
    rw [hFields]
  | err code message => exact if_pos hParts
  | transactionFailed index code message => exact if_pos hParts
  | rows found =>
    refine congrArg _ (map_eq_self fun row hMem => ?_)
    rw [knownFields_eq_self (hParts row hMem)]
  | groups found =>
    refine congrArg _ (map_eq_self fun group hMem => ?_)
    obtain ⟨hKey, hValues⟩ := hParts group hMem
    rw [knownFields_eq_self hKey,
      List.filter_eq_self.mpr fun value hValue => decide_eq_true (hValues value hValue)]
  | joinedRows found =>
    refine congrArg _ (map_eq_self fun row hMem => ?_)
    obtain ⟨hLeft, hRight⟩ := hParts row hMem
    rw [knownFields_eq_self hLeft, knownFields_eq_self hRight]
  | batchResults results =>
    exact congrArg _ (map_eq_self fun result hMem => WriteResult.older_eq_self (hParts result hMem))
  | _ => rfl

/-- What the rule sends is known. -/
theorem Response.older_known {v : UInt32} (hVersion : 1 ≤ v) (resp : Response) :
    (resp.older v).Known v := by
  have hUnsupported : (errResponse .unsupported).Known v := ⟨hVersion, hVersion⟩
  have hFields {fields : Fields} : ∀ f ∈ knownFields v fields, f.2.since ≤ v :=
    fun f hMem => (mem_knownFields.mp hMem).2
  unfold Response.older
  split
  · next hSince =>
    cases resp with
    | record found fields => exact ⟨hSince, hFields⟩
    | scanValues values => exact ⟨hSince,
        fun value hMem => of_decide_eq_true (List.mem_filter.mp hMem).2⟩
    | schema found => exact ⟨hSince, fun f hMem => of_decide_eq_true (List.mem_filter.mp hMem).2⟩
    | err code message =>
      dsimp only
      split
      · next hCode => exact ⟨hSince, hCode⟩
      · exact hUnsupported
    | transactionFailed index code message =>
      dsimp only
      split
      · next hCode => exact ⟨hSince, hCode⟩
      · exact ⟨hVersion, hVersion⟩
    | rows found =>
      refine ⟨hSince, fun row hMem => ?_⟩
      obtain ⟨old, -, rfl⟩ := List.mem_map.mp hMem
      exact hFields
    | groups found =>
      refine ⟨hSince, fun group hMem => ?_⟩
      obtain ⟨old, -, rfl⟩ := List.mem_map.mp hMem
      exact ⟨hFields, fun value hValue => of_decide_eq_true (List.mem_filter.mp hValue).2⟩
    | joinedRows found =>
      refine ⟨hSince, fun row hMem => ?_⟩
      obtain ⟨old, -, rfl⟩ := List.mem_map.mp hMem
      exact ⟨hFields, hFields⟩
    | batchResults results =>
      refine ⟨hSince, fun result hMem => ?_⟩
      obtain ⟨old, -, rfl⟩ := List.mem_map.mp hMem
      cases old with
      | failed code =>
        show (if code.since ≤ v then WriteResult.failed code else .failed .unsupported).Known v
        split
        · next hCode => exact hCode
        · exact hVersion
      | _ => trivial
    | _ => exact ⟨hSince, trivial⟩
  · exact hUnsupported

end MultimodalDb
