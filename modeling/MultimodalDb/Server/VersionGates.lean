import MultimodalDb.Server.Requests
import MultimodalDb.Server.VersionedTables

/-!
# What an old client is sent

The code rewrites a few responses for an old connection. The gates of its requests keep whatever
else is newer from arising at all.

* `request_arises`: what a request may be answered with before it is rewritten.
* `version_rule`: over every run, a request that the version knows is answered with what it knows.
-/

namespace MultimodalDb

open Program

variable {n : Nat} {σ : Fin n → Type}

/-! ## Checks against the schema -/

theorem validatePredicate_refuses (schema : DomainSchema) (predicate : Predicate) :
    Refuses (·.since ≤ 1) (validatePredicate schema predicate) := by
  unfold validatePredicate
  split
  · exact UInt32.le_refl 1
  · split
    · exact UInt32.le_refl 1
    · split
      · exact UInt32.le_refl 1
      · trivial

theorem validatePredicates_refuses (schema : DomainSchema) (filter : List Predicate)
    (u : PUnit.{1}) :
    Refuses (·.since ≤ 1) (forIn filter u fun predicate _ => do
      validatePredicate schema predicate
      pure (ForInStep.yield PUnit.unit)) := by
  apply Refuses.forIn
  intro predicate _
  exact (validatePredicate_refuses schema predicate).bind fun _ => trivial

theorem validateQuery_refuses (schema : DomainSchema) (select : Selection)
    (filter : List Predicate) :
    Refuses (·.since ≤ 1) (validateQuery schema select filter) := by
  unfold validateQuery
  split
  · apply Refuses.bind
    · apply Refuses.forIn
      intro tag _
      split
      · exact UInt32.le_refl 1
      · trivial
    · exact fun _ => (validatePredicates_refuses schema filter _).bind fun _ => trivial
  · exact (validatePredicates_refuses schema filter _).bind fun _ => trivial

theorem validateJoin_refuses (schema : DomainSchema) (relations : List RelationDescriptor)
    (right : Option DomainSchema) (spec : JoinSpec) :
    Refuses (·.since ≤ 1) (validateJoin schema relations right spec) := by
  unfold validateJoin
  apply Refuses.bind (validateQuery_refuses schema spec.left spec.leftFilter)
  intro _
  split
  · split
    · exact validateQuery_refuses schema spec.right spec.rightFilter
    · exact UInt32.le_refl 1
    · split
      · split
        · exact UInt32.le_refl 1
        · exact validateQuery_refuses _ spec.right spec.rightFilter
      · exact UInt32.le_refl 1
    · exact UInt32.le_refl 1
  · exact UInt32.le_refl 1

theorem validateAggregate_refuses (schema : DomainSchema) (groupBy : List FieldRef)
    (filter : List Predicate) (aggregates : List AggregateSpec) :
    Refuses (·.since ≤ 1) (validateAggregate schema groupBy filter aggregates) := by
  unfold validateAggregate
  apply Refuses.bind
  · apply Refuses.forIn
    intro tag _
    split
    · exact UInt32.le_refl 1
    · exact UInt32.le_refl 1
    · trivial
  · intro _
    apply (validatePredicates_refuses schema filter _).bind
    intro _
    refine Refuses.bind (Refuses.forIn ?_ _) fun _ => trivial
    intro spec _
    split
    · trivial
    · exact UInt32.le_refl 1
    · exact UInt32.le_refl 1
    · split
      · split
        · exact UInt32.le_refl 1
        · trivial
      · exact UInt32.le_refl 1

/-- What an aggregate that is let through names: no list to group by, and numbers to compare. -/
theorem validateAggregate_ok {schema : DomainSchema} {groupBy : List FieldRef}
    {filter : List Predicate}
    {aggregates : List AggregateSpec}
    (h : validateAggregate schema groupBy filter aggregates = .ok ()) :
    (∀ tag ∈ groupBy, schema.kindOf tag ≠ some .strList) ∧
      ∀ spec ∈ aggregates, spec.func ≠ .count → ∃ tag kind, spec.field = some tag ∧
        schema.kindOf tag = some kind ∧ isOrderable kind = true := by
  unfold validateAggregate at h
  obtain ⟨_, hGroups, h⟩ := exists_of_bind h
  obtain ⟨_, -, h⟩ := exists_of_bind h
  obtain ⟨_, hSpecs, -⟩ := exists_of_bind h
  constructor
  · intro tag hMem hList
    have hYield :=
      yields_of_forIn (fun tag r hr => by split at hr <;> cases hr; rfl) hGroups tag hMem
    rw [hList] at hYield
    cases hYield
  · intro spec hMem hReduced
    have hYield := yields_of_forIn (fun spec r hr => by
      split at hr
      · cases hr; rfl
      · cases hr
      · cases hr
      · split at hr
        · split at hr
          · cases hr
          · cases hr; rfl
        · cases hr) hSpecs spec hMem
    split at hYield
    · next hCount _ => exact absurd hCount hReduced
    · cases hYield
    · cases hYield
    · next tag hTag _ =>
      split at hYield
      · next kind hKind =>
        refine ⟨tag, kind, hTag, hKind, ?_⟩
        split at hYield
        · cases hYield
        · next hOrderable => exact Bool.not_eq_false _ ▸ hOrderable
      · cases hYield

/-! ## Rows and groups -/

/-- The rows of a table, as its schema types them. -/
def TypedRows (schema : DomainSchema) (rows : List PageRow) : Prop :=
  ∀ row ∈ rows, schema.Types row.2

theorem DomainSchema.Types.stored {schema : DomainSchema} {fields : Fields}
    (h : schema.Types fields) :
    ∀ f ∈ fields, f.2.kind?.isSome = true := by
  intro f hMem
  obtain ⟨kind, -, hKind⟩ := h f hMem
  rw [hKind]
  rfl

theorem mem_truncate {α : Type} {limit : Option Nat} {rows : List α} {a : α}
    (h : a ∈ truncate limit rows) :
    a ∈ rows := by
  cases limit with
  | none => exact h
  | some limit => exact List.mem_of_mem_take h

theorem mem_selectFields {fields : Fields} {select : Selection} {f : FieldRef × ScanValue}
    (h : f ∈ selectFields fields select) : f ∈ fields := by
  cases select with
  | all => exact h
  | fields wanted => exact (List.mem_filter.mp h).1

theorem TypedRows.evaluateQuery {schema : DomainSchema} {rows : List PageRow}
    (h : TypedRows schema rows)
    (select : Selection) (filter : List Predicate) (limit : Option Nat) :
    TypedRows schema (evaluateQuery rows select filter limit) := by
  intro row hMem
  obtain ⟨old, hOld, rfl⟩ := List.mem_map.mp (mem_truncate hMem)
  exact fun f hField => h old (List.mem_filter.mp hOld).1 f (mem_selectFields hField)

/-- What holds of the parts of every bucket and of a new row's, holds with the row pushed. -/
theorem forall_pushBucket {K F : Fields → Prop} {key fields : Fields} (hKey : K key)
    (hFields : F fields)
    {buckets : List (Fields × List Fields)}
    (h : ∀ bucket ∈ buckets, K bucket.1 ∧ ∀ row ∈ bucket.2, F row) :
    ∀ bucket ∈ pushBucket key fields buckets, K bucket.1 ∧ ∀ row ∈ bucket.2, F row := by
  induction buckets with
  | nil =>
    intro bucket hMem
    rw [List.mem_singleton.mp hMem]
    exact ⟨hKey, fun row hRow => List.mem_singleton.mp hRow ▸ hFields⟩
  | cons first buckets ih =>
    obtain ⟨k, rows⟩ := first
    obtain ⟨hFirst, hRest⟩ := List.forall_mem_cons.mp h
    rw [pushBucket]
    split
    · refine List.forall_mem_cons.mpr ⟨⟨hFirst.1, fun row hRow => ?_⟩, hRest⟩
      rcases List.mem_append.mp hRow with hOld | hNew
      · exact hFirst.2 row hOld
      · exact List.mem_singleton.mp hNew ▸ hFields
    · exact List.forall_mem_cons.mpr ⟨hFirst, ih hRest⟩

theorem isOrderable_since {kind : ValueKind} (h : isOrderable kind = true) {value : ScanValue}
    (hKind : value.kind? = some kind) : value.since ≤ 1 := by
  cases value with
  | strList values =>
    cases hKind
    cases h
  | f64 bits => cases hKind
  | _ => exact UInt32.le_refl 1

theorem reduceExtreme_since {tag : FieldRef} {rows : List Fields} {schema : DomainSchema}
    (hRows : ∀ row ∈ rows, schema.Types row) {kind : ValueKind}
    (hKind : schema.kindOf tag = some kind)
    (hOrderable : isOrderable kind = true) (wantMax : Bool) :
    (reduceExtreme tag rows wantMax schema).since ≤ 1 := by
  have hValues : ∀ value ∈ fieldValues tag rows, value.since ≤ 1 := by
    intro value hMem
    obtain ⟨row, hRow, hFind⟩ := List.mem_filterMap.mp hMem
    obtain ⟨f, hFound, rfl⟩ := Option.map_eq_some_iff.mp hFind
    have hTag : f.1 = tag := by simpa using List.find?_some hFound
    obtain ⟨kind', hSchema, hIs⟩ := hRows row hRow f (List.mem_of_find?_eq_some hFound)
    rw [hTag, hKind] at hSchema
    cases hSchema
    exact isOrderable_since hOrderable hIs
  unfold reduceExtreme
  split
  · split <;> exact UInt32.le_refl 1
  · next first rest hList =>
    rw [hList] at hValues
    obtain ⟨hFirst, hRest⟩ := List.forall_mem_cons.mp hValues
    -- The fold holds the first value or one of the rest.
    clear hList hValues
    induction rest generalizing first with
    | nil => exact hFirst
    | cons value rest ih =>
      obtain ⟨hValue, hRest⟩ := List.forall_mem_cons.mp hRest
      refine ih _ ?_ hRest
      have hOne (replaced : Prop) [Decidable replaced] :
          (if replaced then value else first).since ≤ 1 := by
        split
        · exact hValue
        · exact hFirst
      dsimp only
      split <;> exact hOne _

theorem reduce_since {spec : AggregateSpec} {rows : List Fields} {schema : DomainSchema}
    (hRows : ∀ row ∈ rows, schema.Types row)
    (hSpec : spec.func ≠ .count → ∃ tag kind, spec.field = some tag ∧
      schema.kindOf tag = some kind ∧ isOrderable kind = true) :
    (reduce spec rows schema).since ≤ 9 := by
  have hOld : (1 : UInt32) ≤ 9 := by decide
  obtain ⟨func, field⟩ := spec
  cases field with
  | none => cases func <;> exact hOld
  | some tag =>
    cases func with
    | count | sum => exact hOld
    | avg => exact UInt32.le_refl 9
    | min | max =>
      obtain ⟨_, kind, hTag, hKind, hOrderable⟩ := hSpec nofun
      cases hTag
      exact UInt32.le_trans (reduceExtreme_since hRows hKind hOrderable _) hOld

/-- The groups of an aggregate that was let through: no key is a list, and no value but an average
is new. -/
theorem evaluateAggregate_since {schema : DomainSchema} {rows : List PageRow}
    (hRows : TypedRows schema rows)
    {groupBy : List FieldRef} {filter : List Predicate} {aggregates : List AggregateSpec}
    (hValid : validateAggregate schema groupBy filter aggregates = .ok ()) (limit : Option Nat) :
    ∀ group ∈ evaluateAggregate rows groupBy filter aggregates limit schema,
      (∀ f ∈ group.key, f.2.since ≤ 9) ∧ ∀ value ∈ group.values, value.since ≤ 9 := by
  have hOld : (1 : UInt32) ≤ 9 := by decide
  obtain ⟨hGroupBy, hSpecs⟩ := validateAggregate_ok hValid
  -- A field that is grouped by has a value of the kind of its tag.
  have hKey (row : Fields) (hTyped : schema.Types row) :
      ∀ f ∈ groupBy.filterMap fun tag => row.find? fun f => f.1 = tag, f.2.since ≤ 9 := by
    intro f hMem
    obtain ⟨tag, hTag, hFind⟩ := List.mem_filterMap.mp hMem
    have hIs : f.1 = tag := by simpa using List.find?_some hFind
    obtain ⟨kind, hKind, hValue⟩ := hTyped f (List.mem_of_find?_eq_some hFind)
    rw [hIs] at hKind
    have hNoList := hGroupBy tag hTag
    rw [hKind] at hNoList
    cases hF : f.2 with
    | strList values =>
      rw [hF] at hValue
      cases hValue
      exact absurd rfl hNoList
    | f64 bits =>
      rw [hF] at hValue
      cases hValue
    | _ => exact hOld
  have hBuckets (matched : List Fields) (hMatched : ∀ row ∈ matched, schema.Types row)
      (buckets : List (Fields × List Fields))
      (hStart : ∀ bucket ∈ buckets, (∀ f ∈ bucket.1, f.2.since ≤ 9) ∧
        ∀ row ∈ bucket.2, schema.Types row) :
      ∀ bucket ∈ matched.foldl (fun buckets fields =>
        pushBucket (groupBy.filterMap fun tag => fields.find? fun f => f.1 = tag) fields buckets)
          buckets,
        (∀ f ∈ bucket.1, f.2.since ≤ 9) ∧ ∀ row ∈ bucket.2, schema.Types row := by
    induction matched generalizing buckets with
    | nil => exact hStart
    | cons row matched ih =>
      obtain ⟨hRow, hRest⟩ := List.forall_mem_cons.mp hMatched
      exact ih hRest _ (forall_pushBucket (K := fun key => ∀ f ∈ key, f.2.since ≤ 9) (hKey row hRow)
        hRow hStart)
  intro group hMem
  obtain ⟨bucket, hBucket, rfl⟩ := List.mem_map.mp (mem_truncate hMem)
  obtain ⟨hBucketKey, hBucketRows⟩ := hBuckets _ (by
    intro row hRow
    obtain ⟨old, hOldRow, rfl⟩ := List.mem_map.mp (List.mem_filter.mp hRow).1
    exact hRows old hOldRow) _ (by
    intro start hStart
    split at hStart
    · rw [List.mem_singleton.mp hStart]
      exact ⟨nofun, nofun⟩
    · cases hStart) bucket hBucket
  refine ⟨hBucketKey, fun value hValue => ?_⟩
  obtain ⟨spec, hSpec, rfl⟩ := List.mem_map.mp hValue
  exact reduce_since hBucketRows (hSpecs spec hSpec)

/-! ## What may arise -/

/-- A response as a request forms it on a connection of version `v`, before it is rewritten: of what
is newer, only lists in records, rows and schemas, and two reasons for a batch to fail. -/
def Response.Arises (v : UInt32) (resp : Response) : Prop :=
  resp.since ≤ v ∧
    match resp with
    | .record _ fields => ∀ f ∈ fields, f.2.kind?.isSome = true ∨ f.2.since ≤ v
    | .rows found => ∀ row ∈ found, ∀ f ∈ row.2, f.2.kind?.isSome = true ∨ f.2.since ≤ v
    | .schema _ => True
    | .transactionFailed _ code _ => code.since ≤ v ∨ code = .journal ∨ code = .conflict
    | resp => resp.Known v

theorem isStrList_eq {v : UInt32} (hVersion : 1 ≤ v) (hOld : v < 11) {value : ScanValue}
    (hKind : value.kind?.isSome = true ∨ value.since ≤ v) :
    (!isStrList value) = decide (value.since ≤ v) := by
  cases value with
  | strList values => exact (decide_eq_false (UInt32.not_le.mpr hOld)).symm
  | f64 bits => exact (decide_eq_true (hKind.resolve_left nofun)).symm
  | _ => exact (decide_eq_true hVersion).symm

theorem since_le_of_new {v : UInt32} (hNew : ¬ v < 11) (value : ScanValue) : value.since ≤ v := by
  have hSince : value.since ≤ 11 := by
    have hOld : (1 : UInt32) ≤ 11 ∧ (9 : UInt32) ≤ 11 := by decide
    cases value with
    | strList values => exact UInt32.le_refl 11
    | f64 bits => exact hOld.2
    | _ => exact hOld.1
  exact UInt32.le_trans hSince (UInt32.not_lt.mp hNew)

theorem filter_isStrList {v : UInt32} (hVersion : 1 ≤ v) (hOld : v < 11) {fields : Fields}
    (h : ∀ f ∈ fields, f.2.kind?.isSome = true ∨ f.2.since ≤ v) :
    (fields.filter fun f => !isStrList f.2) = knownFields v fields :=
  List.filter_congr fun f hMem => isStrList_eq hVersion hOld (h f hMem)

theorem knownFields_of_new {v : UInt32} (hNew : ¬ v < 11) (fields : Fields) :
    knownFields v fields = fields :=
  knownFields_eq_self fun f _ => since_le_of_new hNew f.2

/-- **The rewriting follows the rule** for whatever may arise. -/
theorem Response.Arises.downgrade_eq {v : UInt32} (hVersion : 1 ≤ v) {resp : Response}
    (h : resp.Arises v) : downgradeForVersion resp v = resp.older v := by
  obtain ⟨hSince, hParts⟩ := h
  cases resp with
  | record found fields =>
    rw [downgradeForVersion, older, if_pos hSince]
    split
    · next hOld => rw [filter_isStrList hVersion hOld hParts]
    · next hNew => rw [knownFields_of_new hNew]
  | rows found =>
    rw [downgradeForVersion, older, if_pos hSince]
    split
    · next hOld =>
      refine congrArg _ (List.map_congr_left fun row hMem => ?_)
      exact congrArg (Prod.mk row.1) (filter_isStrList hVersion hOld (hParts row hMem))
    · next hNew =>
      refine congrArg _ (map_eq_self fun row _ => ?_).symm
      rw [knownFields_of_new hNew]
  | schema found =>
    rw [downgradeForVersion, older, if_pos hSince]
    split
    · next hOld =>
      refine congrArg (fun fields => Response.schema { found with fields })
        (List.filter_congr fun f _ => ?_)
      cases hKind : f.valueKind with
      | strList => exact (decide_eq_false (UInt32.not_le.mpr hOld)).symm
      | _ => exact (decide_eq_true hVersion).symm
    · next hNew =>
      have hAll : (found.fields.filter fun f => f.valueKind.since ≤ v) = found.fields := by
        apply List.filter_eq_self.mpr
        intro f _
        apply decide_eq_true
        have hSince : f.valueKind.since ≤ 11 := by
          cases f.valueKind <;> exact (by decide)
        exact UInt32.le_trans hSince (UInt32.not_lt.mp hNew)
      rw [hAll]
  | transactionFailed index code message =>
    rw [older, if_pos hSince]
    rcases hParts with hKnown | rfl | rfl
    · rw [if_pos hKnown]
      cases code with
      | journal => exact if_neg (UInt32.not_lt.mpr hKnown)
      | conflict => exact if_neg (UInt32.not_lt.mpr hKnown)
      | _ => rfl
    · show (if v < 4 then _ else _) = if (4 : UInt32) ≤ v then _ else _
      by_cases hOld : v < 4
      · rw [if_pos hOld, if_neg (UInt32.not_le.mpr hOld)]
      · rw [if_neg hOld, if_pos (UInt32.not_lt.mp hOld)]
    · show (if v < 7 then _ else _) = if (7 : UInt32) ≤ v then _ else _
      by_cases hOld : v < 7
      · rw [if_pos hOld, if_neg (UInt32.not_le.mpr hOld)]
      · rw [if_neg hOld, if_pos (UInt32.not_lt.mp hOld)]
  | _ => exact (older_eq_self hParts).symm

theorem arises_err {v : UInt32} {code : ErrorCode} (hVersion : 1 ≤ v) (h : code.since ≤ v) :
    (errResponse code).Arises v :=
  ⟨hVersion, hVersion, h⟩

/-- From version 19 on there is no code, value or kind that is not known. -/
theorem arises_of_new {v : UInt32} (hNew : 19 ≤ v) {resp : Response} (hSince : resp.since ≤ v) :
    resp.Arises v := by
  have hCode (code : ErrorCode) : code.since ≤ v := by
    have h : code.since ≤ 19 := by
      cases code <;> exact (by decide)
    exact UInt32.le_trans h hNew
  have hValue (value : ScanValue) : value.since ≤ v :=
    since_le_of_new (UInt32.not_lt.mpr (UInt32.le_trans (by decide) hNew)) value
  refine ⟨hSince, ?_⟩
  cases resp with
  | record found fields => exact fun f _ => Or.inr (hValue f.2)
  | rows found => exact fun row _ f _ => Or.inr (hValue f.2)
  | schema found => trivial
  | transactionFailed index code message => exact Or.inl (hCode code)
  | err code message => exact ⟨hSince, hCode code⟩
  | scanValues values => exact ⟨hSince, fun value _ => hValue value⟩
  | groups found => exact ⟨hSince,
      fun group _ => ⟨fun f _ => hValue f.2, fun value _ => hValue value⟩⟩
  | joinedRows found => exact ⟨hSince, fun row _ => ⟨fun f _ => hValue f.2, fun f _ => hValue f.2⟩⟩
  | batchResults results =>
    refine ⟨hSince, fun result _ => ?_⟩
    cases result with
    | failed code => exact hCode code
    | _ => trivial
  | _ => exact ⟨hSince, trivial⟩

/-! ## Requests -/

namespace Tables

variable (T : Tables n σ)

/-- A reply that the adapters may give. -/
def Sound (c : Call n) (reply : c.Reply) : Prop :=
  match c with
  | ⟨i, .read r⟩ => Read.Sound (T.store i).describe r reply
  | ⟨_, .write w⟩ => Write.Sound w reply
  | ⟨_, .journal _⟩ => True

theorem sound_answer {T : Tables n σ} (h : ∀ i, (T.store i).Versioned) (taken : Bool) (c : Call n)
    (w : Contents σ) : T.Sound c (T.answer taken c w).1 := by
  obtain ⟨i, call⟩ := c
  cases call with
  | read r => exact (h i).read r (w i)
  | write x => exact (h i).write x (w i)
  | journal updates => trivial

variable {T}

theorem sound_read_bind {α : Type} {i : Fin n} {r : Read} {f : r.Reply → Serving n α} {Q : α → Prop}
    (h : ∀ reply, Read.Sound (T.store i).describe r reply → (f reply).Returns T.Sound Q) :
    (read i r >>= f).Returns T.Sound Q :=
  h

theorem sound_write_bind {α : Type} {i : Fin n} {w : Write} {f : w.Reply → Serving n α}
    {Q : α → Prop} (h : ∀ reply, Write.Sound w reply → (f reply).Returns T.Sound Q) :
    (write i w >>= f).Returns T.Sound Q :=
  h

theorem getAll_typed (i : Fin n) (ids : List RecordId) :
    (getAll i ids).Returns T.Sound (TypedRows (T.store i).describe) := by
  induction ids with
  | nil => exact nofun
  | cons id ids ih =>
    apply sound_read_bind
    intro reply hReply
    cases reply with
    | none => exact ih
    | some fields =>
      apply ih.bind
      exact fun rows hRows => List.forall_mem_cons.mpr ⟨hReply fields rfl, hRows⟩

theorem scanAll_typed (i : Fin n) :
    (scanAll i).Returns T.Sound (TypedRows (T.store i).describe) :=
  sound_read_bind fun ids _ => getAll_typed i ids

/-- A transaction fails with a code of version 1, or with one of the two that are rewritten. -/
theorem applyTransaction_sound (i : Fin n) (updates : Batch) (readSet : List TrackedRead) :
    (T.applyTransaction i updates readSet).Returns T.Sound
      (Refuses fun e => e.2.since ≤ 1 ∨ e.2 = .journal ∨ e.2 = .conflict) := by
  have hValidate (k : Nat) (ops : Batch) :
      (validateBatch i k ops).Returns T.Sound (Refuses fun e => e.2.since ≤ 1) := by
    induction ops generalizing k with
    | nil => trivial
    | cons op ops ih =>
      apply sound_read_bind
      intro reply hReply
      cases reply with
      | error code => exact hReply
      | ok _ => exact ih (k + 1)
  have hApply {reply : Except (Nat × ErrorCode) Unit}
      (h : Refuses (fun e => e.2.since ≤ 1 ∨ e.2 = .conflict) reply) :
      Refuses (fun e => e.2.since ≤ 1 ∨ e.2 = .journal ∨ e.2 = .conflict) reply :=
    h.mono fun _ => Or.imp_right Or.inr
  unfold applyTransaction
  split
  · apply (hValidate 0 updates).bind
    intro reply hReply
    cases reply with
    | error e => exact Or.inl hReply
    | ok _ =>
      intro taken _
      cases taken with
      | false => exact Or.inr (Or.inl rfl)
      | true => exact fun reply hReply => hApply hReply
  · exact fun reply hReply => hApply hReply

theorem arises_transaction {v : UInt32} (hVersion : 1 ≤ v) {e : Nat × ErrorCode}
    (h : e.2.since ≤ 1 ∨ e.2 = .journal ∨ e.2 = .conflict) : (transactionFailed e).Arises v :=
  ⟨hVersion, h.imp_left fun hOld => UInt32.le_trans hOld hVersion⟩

/-- **Requests to one table.** -/
theorem dispatch_arises (i : Fin n) {v : UInt32} (hVersion : 1 ≤ v) {req : Request}
    (h : req.since ≤ v) :
    (T.dispatch i req).Returns T.Sound (Response.Arises v) := by
  -- A code of version 1, where the reply is one of a read.
  have hErr {code : ErrorCode} (hCode : code.since ≤ 1) : (errResponse code).Arises v :=
    arises_err hVersion (UInt32.le_trans hCode hVersion)
  have hWrite (hNew : 13 ≤ v) {code : ErrorCode} (hCode : code.since ≤ 13) :
      (errResponse code).Arises v :=
    arises_err hVersion (UInt32.le_trans hCode hNew)
  cases req with
  | getById id =>
    apply sound_read_bind
    intro reply hReply
    cases reply with
    | none => exact ⟨hVersion, hVersion, trivial⟩
    | some fields => exact ⟨hVersion, fun f hMem => Or.inl ((hReply fields rfl).stored f hMem)⟩
  | filterEq | children | neighbors | neighborsByRelation =>
    apply sound_read_bind
    intro reply hReply
    cases reply with
    | error code => exact hErr hReply
    | ok records => exact ⟨hVersion, hVersion, trivial⟩
  | scanField field =>
    apply sound_read_bind
    intro reply hReply
    cases reply with
    | error code => exact hErr hReply.1
    | ok values =>
      exact ⟨hVersion, hVersion,
        fun value hMem => UInt32.le_trans (hReply.2 values rfl value hMem) hVersion⟩
  | updateField id field value =>
    apply sound_write_bind
    intro reply hReply
    rcases reply with code | found
    · exact hErr hReply
    · cases found <;> exact ⟨hVersion, hVersion, trivial⟩
  | parent id =>
    apply sound_read_bind
    intro reply hReply
    rcases reply with code | found
    · exact hErr hReply
    · cases found <;> exact ⟨hVersion, hVersion, trivial⟩
  | query select filter limit =>
    unfold dispatch
    dsimp only
    split
    · apply (scanAll_typed i).bind
      intro rows hRows
      exact ⟨h, fun row hMem f hField =>
        Or.inl ((hRows.evaluateQuery select filter limit row hMem).stored f hField)⟩
    · next code hCode => exact hErr ((validateQuery_refuses _ select filter).of_error hCode)
  | aggregate groupBy filter aggregates limit =>
    unfold dispatch
    dsimp only
    split
    · next hValid =>
      apply (scanAll_typed i).bind
      intro rows hRows
      refine ⟨h, h, fun group hMem => ?_⟩
      obtain ⟨hKey, hValues⟩ := evaluateAggregate_since hRows hValid limit group hMem
      exact ⟨fun f hField => UInt32.le_trans (hKey f hField) h,
        fun value hValue => UInt32.le_trans (hValues value hValue) h⟩
    · next code hCode =>
      exact hErr ((validateAggregate_refuses _ groupBy filter aggregates).of_error hCode)
  | listRelationKinds => exact fun _ _ => ⟨h, h, trivial⟩
  | countEdges relation =>
    have hNew : 19 ≤ v := UInt32.le_trans (by decide : (19 : UInt32) ≤ 21) h
    apply sound_read_bind
    intro reply hReply
    cases reply with
    | error code => exact hErr hReply
    | ok count => exact arises_of_new hNew h
  | writeBatch ops atomic =>
    have hNew : 19 ≤ v := UInt32.le_trans (by decide : (19 : UInt32) ≤ 22) h
    apply Returns.bind (returns_of_forall (Q := fun _ => True) (fun _ => trivial) _)
    intro reply _
    cases reply with
    | ok results => exact arises_of_new hNew h
    | error e => exact arises_of_new hNew hVersion
  | join spec =>
    apply Returns.bind (returns_of_forall (Q := fun _ => True) (fun _ => trivial) _)
    intro relations _
    split
    · apply Returns.bind (returns_of_forall (Q := fun _ => True) (fun _ => trivial) _)
      intro rows _
      have hNew : ¬ v < 11 := UInt32.not_lt.mpr (UInt32.le_trans (by decide : (11 : UInt32) ≤ 12) h)
      exact ⟨h, h, fun row _ => ⟨fun f _ => since_le_of_new hNew f.2,
        fun f _ => since_le_of_new hNew f.2⟩⟩
    · next code hCode => exact hErr ((validateJoin_refuses _ relations none spec).of_error hCode)
  | use table =>
    unfold dispatch
    dsimp only
    split
    · exact ⟨hVersion, hVersion, trivial⟩
    · exact hErr (UInt32.le_refl 1)
  | listTables => exact ⟨h, h, trivial⟩
  | describeRelations =>
    apply Returns.bind (returns_of_forall (Q := fun _ => True) (fun _ => trivial) _)
    exact fun _ _ => ⟨h, h, trivial⟩
  | insert id fields =>
    apply sound_write_bind
    intro reply hReply
    rcases reply with code | outcome
    · exact hWrite h hReply
    · cases outcome
      · exact ⟨hVersion, hVersion, trivial⟩
      · exact arises_err hVersion h
  | link | replace | delete =>
    apply sound_write_bind
    intro reply hReply
    rcases reply with code | outcome
    · exact hWrite (UInt32.le_trans (of_decide_eq_true rfl) h) hReply
    · cases outcome <;> exact ⟨hVersion, hVersion, trivial⟩
  | compact =>
    apply sound_write_bind
    intro reply hReply
    rcases reply with code | report
    · exact hWrite (UInt32.le_trans (of_decide_eq_true rfl) h) hReply
    · exact ⟨h, h, trivial⟩
  | replaceIf id fields guard =>
    unfold dispatch
    dsimp only
    split
    · exact arises_of_new h hVersion
    · apply sound_write_bind
      intro reply _
      rcases reply with code | outcome
      · exact arises_of_new h hVersion
      · cases outcome <;> exact arises_of_new h hVersion
  | page orderBy after limit =>
    have hNew : 19 ≤ v := UInt32.le_trans (by decide : (19 : UInt32) ≤ 20) h
    unfold dispatch
    dsimp only
    split
    · exact arises_of_new hNew hVersion
    · apply Returns.bind (returns_of_forall (Q := fun _ => True) (fun _ => trivial) _)
      intro reply _
      rcases reply with code | rows
      · exact arises_of_new hNew hVersion
      · exact arises_of_new hNew (UInt32.le_trans (of_decide_eq_true rfl) h)
  | describeSchema => exact ⟨hVersion, trivial⟩
  | authenticate | hello | begin | beginWith | commit | rollback => exact hErr (UInt32.le_refl 1)
  | transaction updates =>
    apply (applyTransaction_sound i updates []).bind
    intro reply hReply
    cases reply with
    | error e => exact arises_transaction hVersion hReply
    | ok _ => exact ⟨hVersion, hVersion, trivial⟩

end Tables

namespace Tables

variable {T : Tables n σ}

/-! ### Requests that reach several tables -/

theorem joinAcross_arises (i : Fin n) {v : UInt32} (h : 12 ≤ v) (spec : JoinSpec) :
    (T.joinAcross i spec).Returns T.Sound (Response.Arises v) := by
  have hVersion : 1 ≤ v := UInt32.le_trans (by decide) h
  have hNew : ¬ v < 11 := UInt32.not_lt.mpr (UInt32.le_trans (by decide) h)
  apply Returns.bind (returns_of_forall (Q := fun _ => True) (fun _ => trivial) _)
  intro relations _
  split
  · apply Returns.bind (returns_of_forall (Q := fun _ => True) (fun _ => trivial) _)
    exact fun rows _ => ⟨h, h, fun row _ =>
      ⟨fun f _ => since_le_of_new hNew f.2, fun f _ => since_le_of_new hNew f.2⟩⟩
  · exact arises_err hVersion hVersion
  · next code _ hCode =>
    exact arises_err hVersion
      (UInt32.le_trans ((validateJoin_refuses _ _ _ spec).of_error hCode) hVersion)

theorem detachRelations_known (j : Fin n) (this : String) (id : RecordId)
    (relations : List RelationDescriptor) :
    (detachRelations j this id relations).Returns T.Sound fun e =>
      ∀ code, e = some code → code.since ≤ 13 := by
  induction relations with
  | nil => exact nofun
  | cons relation relations ih =>
    unfold detachRelations
    split
    · apply sound_write_bind
      intro reply hReply
      split
      · exact ih
      · exact ih
      · exact ih
      · intro code hCode
        cases hCode
        exact hReply
    · exact ih

theorem detachTables_arises {v : UInt32} (h : 13 ≤ v) (this : String) (id : RecordId)
    (js : List (Fin n)) :
    (T.detachTables this id js).Returns T.Sound (Response.Arises v) := by
  have hVersion : 1 ≤ v := UInt32.le_trans (by decide) h
  induction js with
  | nil => exact ⟨hVersion, hVersion, trivial⟩
  | cons j js ih =>
    unfold detachTables
    split
    · exact ih
    · apply Returns.bind (returns_of_forall (Q := fun _ => True) (fun _ => trivial) _)
      intro relations _
      apply (detachRelations_known j this id relations).bind
      intro failed hFailed
      cases failed with
      | none => exact ih
      | some code => exact arises_err hVersion (UInt32.le_trans (hFailed code rfl) h)

theorem deleteAcross_arises (i : Fin n) {v : UInt32} (h : 17 ≤ v) (id : RecordId) :
    (T.deleteAcross i id).Returns T.Sound (Response.Arises v) := by
  have hSince : (Request.delete id).since ≤ v := h
  apply (dispatch_arises i (UInt32.le_trans (by decide) h) hSince).bind
  intro resp hResp
  split
  · exact detachTables_arises (UInt32.le_trans (by decide) h) _ id _
  · exact hResp

theorem linkAcross_arises (i : Fin n) {v : UInt32} (h : 14 ≤ v) (left right : RecordId)
    (relation : String) :
    (T.linkAcross i left right relation).Returns T.Sound (Response.Arises v) := by
  have hVersion : 1 ≤ v := UInt32.le_trans (by decide) h
  have hSince : (Request.link left right relation).since ≤ v := h
  have hLink := dispatch_arises (T := T) i hVersion hSince
  apply Returns.bind (returns_of_forall (Q := fun _ => True) (fun _ => trivial) _)
  intro relations _
  split
  · exact hLink
  · split
    · exact arises_err hVersion hVersion
    · apply sound_read_bind
      intro reply _
      cases reply with
      | none => exact arises_err hVersion hVersion
      | some fields => exact hLink

/-! ### Requests of a session -/

theorem kind_of_sameKind {a b : ScanValue} (h : sameKind a b = true)
    (hKind : b.kind?.isSome = true) :
    a.kind?.isSome = true := by
  cases b with
  | f64 bits => cases hKind
  | _ =>
    cases a with
    | f64 bits => cases h
    | _ => rfl

/-- A staged value is shown only over one of its own kind. -/
theorem overlayStaged_stored {id : RecordId} {fields : Fields} {staged : Batch}
    {updatable : List FieldRef} (h : ∀ f ∈ fields, f.2.kind?.isSome = true) :
    ∀ f ∈ overlayStaged id fields staged updatable, f.2.kind?.isSome = true := by
  intro f hMem
  obtain ⟨⟨field, value⟩, hOld, rfl⟩ := List.mem_map.mp hMem
  have hStored : value.kind?.isSome = true := h _ hOld
  dsimp only
  split
  · split
    · split
      · next op _ hSame => exact kind_of_sameKind hSame hStored
      · exact hStored
    · exact hStored
  · exact hStored

theorem getInSession_arises (c : Conn n) (staged : Batch) (id : RecordId)
    (hVersion : 1 ≤ c.negotiated) :
    (getInSession c staged id).Returns T.Sound fun r => r.2.Arises c.negotiated := by
  apply sound_read_bind
  intro reply hReply
  cases reply with
  | none => exact ⟨hVersion, hVersion, trivial⟩
  | some fields =>
    have hStored := (hReply fields rfl).stored
    refine ⟨hVersion, ?_⟩
    show ∀ f ∈ c.readYourWrites.elim fields (overlayStaged id fields staged), _
    intro f hMem
    cases hRyw : c.readYourWrites with
    | none =>
      rw [hRyw] at hMem
      exact Or.inl (hStored f hMem)
    | some updatable =>
      rw [hRyw] at hMem
      exact Or.inl (overlayStaged_stored hStored f hMem)

theorem stage_arises (c : Conn n) (staged : Batch) (op : TransactionOp)
    (hVersion : 3 ≤ c.negotiated) :
    (stage c staged op).Returns T.Sound fun r => r.2.Arises c.negotiated := by
  have hFirst : 1 ≤ c.negotiated := UInt32.le_trans (by decide) hVersion
  have hPushed : (pushStaged c staged op).2.Arises c.negotiated := by
    unfold pushStaged
    split
    · exact ⟨hVersion, hVersion, trivial⟩
    · exact arises_err hFirst hVersion
  unfold stage
  split
  · apply sound_read_bind
    intro reply hReply
    cases reply with
    | error code => exact arises_err hFirst (UInt32.le_trans hReply hFirst)
    | ok _ => exact hPushed
  · exact hPushed

theorem commit_arises (c : Conn n) (hVersion : 3 ≤ c.negotiated) :
    (T.commit c).Returns T.Sound fun r => r.2.Arises c.negotiated := by
  have hFirst : 1 ≤ c.negotiated := UInt32.le_trans (by decide) hVersion
  unfold commit
  split
  · exact arises_err hFirst hVersion
  · apply (applyTransaction_sound c.table _ _).bind
    intro reply hReply
    cases reply with
    | error e => exact arises_transaction hFirst hReply
    | ok _ => exact ⟨hFirst, hFirst, trivial⟩

theorem keep_arises {c : Conn n} {v : UInt32} {p : Serving n Response}
    (h : p.Returns T.Sound (Response.Arises v)) :
    (do return (c, ← p)).Returns T.Sound fun r : Conn n × Response => r.2.Arises v :=
  h.bind fun _ h => h

theorem unstaged_arises {c : Conn n} (hTidy : Tidy c) (hVersion : 1 ≤ c.negotiated) (since : UInt32)
    {p : Serving n Response} (h : p.Returns T.Sound (Response.Arises c.negotiated)) :
    (unstaged c since p).Returns T.Sound (Response.Arises c.negotiated) := by
  unfold unstaged
  split
  · next hOpen => exact arises_err hVersion (hTidy.version hOpen)
  · split
    · exact arises_err hVersion hVersion
    · exact h

theorem versioned_arises {c : Conn n} (hVersion : 1 ≤ c.negotiated) (since : UInt32)
    {p : Serving n Response} (h : p.Returns T.Sound (Response.Arises c.negotiated)) :
    (versioned c since p).Returns T.Sound (Response.Arises c.negotiated) := by
  unfold versioned
  split
  · exact arises_err hVersion hVersion
  · exact h

/-- **What a request may be answered with** before it is rewritten. -/
theorem request_arises {c : Conn n} (hTidy : Tidy c) (hVersion : 1 ≤ c.negotiated) {req : Request}
    (h : req.since ≤ c.negotiated) :
    (T.request c req).Returns T.Sound fun r => r.2.Arises c.negotiated := by
  have hOk : Response.ok.Arises c.negotiated := ⟨hVersion, hVersion, trivial⟩
  have hMalformed : (errResponse .malformed).Arises c.negotiated := arises_err hVersion hVersion
  have hDispatch := dispatch_arises (T := T) c.table hVersion h
  cases req with
  | begin =>
    have hGate : ¬ c.negotiated < 3 := UInt32.not_lt.mpr h
    show ((if c.negotiated < 3 then (c, errResponse .malformed) else begin c).2).Arises c.negotiated
    rw [if_neg hGate]
    unfold begin
    split
    · exact arises_err hVersion h
    · exact hOk
  | beginWith flags =>
    have hGate : ¬ c.negotiated < 5 := UInt32.not_lt.mpr h
    show ((if c.negotiated < 5 then (c, errResponse .malformed) else T.beginWith c flags).2).Arises
      c.negotiated
    rw [if_neg hGate]
    unfold beginWith
    split
    · exact hMalformed
    · split
      · exact arises_err hVersion (UInt32.le_trans (of_decide_eq_true rfl) h)
      · exact hOk
  | commit =>
    have hGate : ¬ c.negotiated < 3 := UInt32.not_lt.mpr h
    unfold request
    dsimp only
    rw [if_neg hGate]
    exact commit_arises c h
  | rollback =>
    have hGate : ¬ c.negotiated < 3 := UInt32.not_lt.mpr h
    show ((if c.negotiated < 3 then (c, errResponse .malformed) else rollback c).2).Arises
      c.negotiated
    rw [if_neg hGate]
    unfold rollback
    dsimp only
    split
    · exact hOk
    · exact arises_err hVersion h
  | getById id =>
    unfold request
    dsimp only
    split
    · split
      · exact getInSession_arises c _ id hVersion
      · exact keep_arises hDispatch
    · exact keep_arises hDispatch
  | updateField id field value =>
    unfold request
    dsimp only
    split
    · next staged hStaged =>
      apply stage_arises
      apply hTidy.version
      rw [hStaged]
      rfl
    · exact keep_arises hDispatch
  | transaction | insert | replace | compact | replaceIf =>
    exact keep_arises (unstaged_arises hTidy hVersion _ hDispatch)
  | link left right relation =>
    exact keep_arises (unstaged_arises hTidy hVersion _
      (linkAcross_arises c.table h left right relation))
  | delete id =>
    exact keep_arises (unstaged_arises hTidy hVersion _ (deleteAcross_arises c.table h id))
  | writeBatch ops atomic =>
    apply keep_arises
    apply unstaged_arises hTidy hVersion
    split
    · exact hMalformed
    · exact hDispatch
  | join spec =>
    apply keep_arises
    apply versioned_arises hVersion
    split
    · exact joinAcross_arises c.table h spec
    · exact hDispatch
  | describeRelations | page | countEdges =>
    exact keep_arises (versioned_arises hVersion _ hDispatch)
  | use table =>
    have hGate : ¬ c.negotiated < 16 := UInt32.not_lt.mpr h
    unfold request
    dsimp only
    rw [if_neg hGate]
    split
    · exact arises_err hVersion (UInt32.le_trans (of_decide_eq_true rfl) h)
    · split
      · exact hOk
      · exact hMalformed
  | listTables => exact keep_arises (versioned_arises hVersion _ ⟨h, h, trivial⟩)
  | filterEq | scanField | parent | children | neighbors | describeSchema | authenticate
  | hello | query
  | aggregate | neighborsByRelation | listRelationKinds => exact keep_arises hDispatch

end Tables

end MultimodalDb
