import MultimodalDb.Server.VersionGates
import Mathlib.Data.List.Nodup
import Mathlib.Data.List.Perm.Basic

/-!
# Aggregates

The groups of an aggregate are a partition of the rows that pass the filter (`groupRows_partition`),
and each reduction of a group is what it is called (`Reduces`).

A reduction can go wrong at run time: it asks for its field, for the field's kind and for a number,
and a build may check its additions. `reduceRun` is the reduction with these checks, `none` where it
panics.
-/

namespace MultimodalDb

/-! ## Buckets -/

section Buckets

variable {key : Fields → Fields} {buckets : List (Fields × List Fields)}

theorem fst_mem_pushBucket {k k' fields : Fields} :
    k' ∈ (pushBucket k fields buckets).map (·.1) ↔ k' = k ∨ k' ∈ buckets.map (·.1) := by
  induction buckets with
  | nil => simp [pushBucket]
  | cons bucket buckets ih =>
    obtain ⟨first, rows⟩ := bucket
    rw [pushBucket]
    split
    · next hKey =>
      subst hKey
      simp
    · simp only [List.map_cons, List.mem_cons, ih]
      tauto

theorem nodup_pushBucket {k fields : Fields} (h : (buckets.map (·.1)).Nodup) :
    ((pushBucket k fields buckets).map (·.1)).Nodup := by
  induction buckets with
  | nil => simp [pushBucket]
  | cons bucket buckets ih =>
    obtain ⟨first, rows⟩ := bucket
    obtain ⟨hFirst, hRest⟩ := List.nodup_cons.mp h
    rw [pushBucket]
    split
    · exact h
    · next hKey =>
      refine List.nodup_cons.mpr ⟨fun hMem => ?_, ih hRest⟩
      rcases fst_mem_pushBucket.mp hMem with hSame | hOther
      · exact hKey hSame
      · exact hFirst hOther

/-- Nothing but the new row joins the buckets. -/
theorem perm_pushBucket (k fields : Fields) :
    ((pushBucket k fields buckets).flatMap (·.2)).Perm (fields :: buckets.flatMap (·.2)) := by
  induction buckets with
  | nil => simp [pushBucket]
  | cons bucket buckets ih =>
    obtain ⟨first, rows⟩ := bucket
    rw [pushBucket]
    split
    · rw [List.flatMap_cons, List.flatMap_cons, List.append_assoc]
      exact List.perm_middle
    · rw [List.flatMap_cons, List.flatMap_cons]
      exact (List.Perm.append_left rows ih).trans List.perm_middle

/-- The rows of every bucket have its key. -/
def Keyed (key : Fields → Fields) (buckets : List (Fields × List Fields)) : Prop :=
  ∀ bucket ∈ buckets, ∀ fields ∈ bucket.2, key fields = bucket.1

theorem keyed_pushBucket {fields : Fields} (h : Keyed key buckets) :
    Keyed key (pushBucket (key fields) fields buckets) := by
  induction buckets with
  | nil => simp [Keyed, pushBucket]
  | cons bucket buckets ih =>
    obtain ⟨first, rows⟩ := bucket
    have hFirst := h (first, rows) List.mem_cons_self
    have hRest : Keyed key buckets := fun b hb => h b (List.mem_cons_of_mem _ hb)
    rw [pushBucket]
    split
    · next hKey =>
      refine List.forall_mem_cons.mpr ⟨fun row hRow => ?_, hRest⟩
      rcases List.mem_append.mp hRow with hRow | hRow
      · exact hFirst row hRow
      · obtain rfl := List.mem_singleton.mp hRow
        exact hKey.symm
    · exact List.forall_mem_cons.mpr ⟨hFirst, ih hRest⟩

/-- **A partition.** The buckets have distinct keys, the rows of each have its key, and together
they are the rows there were and the new ones. -/
theorem foldl_pushBucket (rows : List Fields) (hKeys : (buckets.map (·.1)).Nodup)
    (hKeyed : Keyed key buckets) :
    let all := rows.foldl (fun buckets fields => pushBucket (key fields) fields buckets) buckets
    (all.map (·.1)).Nodup ∧ Keyed key all ∧
      (all.flatMap (·.2)).Perm (buckets.flatMap (·.2) ++ rows) := by
  induction rows generalizing buckets with
  | nil => exact ⟨hKeys, hKeyed, by simp⟩
  | cons fields rows ih =>
    obtain ⟨hNodup, hAll, hPerm⟩ := ih (nodup_pushBucket hKeys) (keyed_pushBucket hKeyed)
    refine ⟨hNodup, hAll, hPerm.trans ?_⟩
    exact ((perm_pushBucket (key fields) fields).append_right rows).trans List.perm_middle.symm

end Buckets

/-- The values of a row that it is grouped by. -/
def groupKey (groupBy : List FieldRef) (fields : Fields) : Fields :=
  groupBy.filterMap fun tag => fields.find? fun f => f.1 = tag

/-- The rows that an aggregate is over. -/
def matchedRows (rows : List PageRow) (filter : List Predicate) : List Fields :=
  (rows.map (·.2)).filter fun fields => filter.all (predicateMatches fields)

/-- The groups of an aggregate, each with its rows. -/
def groupRows (rows : List PageRow) (groupBy : List FieldRef) (filter : List Predicate) :
    List (Fields × List Fields) :=
  (matchedRows rows filter).foldl (fun buckets fields =>
    pushBucket (groupKey groupBy fields) fields buckets)
    (if groupBy.isEmpty then [([], [])] else [])

theorem groupRows_partition (rows : List PageRow) (groupBy : List FieldRef)
    (filter : List Predicate) :
    ((groupRows rows groupBy filter).map (·.1)).Nodup ∧
      Keyed (groupKey groupBy) (groupRows rows groupBy filter) ∧
      ((groupRows rows groupBy filter).flatMap (·.2)).Perm (matchedRows rows filter) := by
  have hStart : (((if groupBy.isEmpty then [([], [])] else []) :
      List (Fields × List Fields)).map (·.1)).Nodup := by split <;> simp
  have hKeyed : Keyed (groupKey groupBy) (if groupBy.isEmpty then [([], [])] else []) := by
    split <;> simp [Keyed]
  have hNone : ((if groupBy.isEmpty then [([], [])] else []) :
      List (Fields × List Fields)).flatMap (·.2) = [] := by split <;> rfl
  obtain ⟨hNodup, hAll, hPerm⟩ := foldl_pushBucket (matchedRows rows filter) hStart hKeyed
  rw [hNone, List.nil_append] at hPerm
  exact ⟨hNodup, hAll, hPerm⟩

/-! ## Numbers -/

/-- `numeric_i64`, which panics on a value of another kind. -/
def numericOrPanic : ScanValue → Option Int64
  | .u32 v => some (Int64.ofNat v.toNat)
  | .i64 v => some v
  | _ => none

/-- The number that a value stands for. -/
def numberOf (value : ScanValue) : Int := (numericI64 value).toInt

def exactSum (values : List ScanValue) : Int := (values.map numberOf).sum

/-- An `i64` has room for the number. -/
def InI64 (n : Int) : Prop := -2 ^ 63 ≤ n ∧ n < 2 ^ 63

instance (n : Int) : Decidable (InI64 n) := inferInstanceAs (Decidable (_ ∧ _))

/-- Every running sum has room. -/
def RunsFit (values : List ScanValue) : Prop := ∀ k, InI64 (exactSum (values.take k))

theorem sumI64_toInt (values : List ScanValue) :
    (sumI64 values).toInt = (exactSum values).bmod (2 ^ 64) := by
  have hFold (ns : List Int64) (start : Int64) :
      (ns.foldl (· + ·) start).toInt = (start.toInt + (ns.map Int64.toInt).sum).bmod (2 ^ 64) := by
    induction ns generalizing start with
    | nil =>
      rw [List.foldl_nil, List.map_nil, List.sum_nil, Int.add_zero]
      exact start.toInt_bmod.symm
    | cons n ns ih =>
      rw [List.foldl_cons, ih, Int64.toInt_add, List.map_cons, List.sum_cons, Int.bmod_add_bmod,
        Int.add_assoc]
  rw [sumI64, hFold, List.map_map]
  change (0 + exactSum values).bmod _ = _
  rw [Int.zero_add]

/-- **The sum is exact where it is an `i64`.** -/
theorem sumI64_exact {values : List ScanValue} :
    (sumI64 values).toInt = exactSum values ↔ InI64 (exactSum values) := by
  constructor
  · intro h
    rw [← h]
    exact ⟨(sumI64 values).le_toInt, (sumI64 values).toInt_lt⟩
  · rintro ⟨hLow, hHigh⟩
    rw [sumI64_toInt]
    exact Int.bmod_eq_of_le (by omega) (by omega)

/-! ## Runs of a reduction -/

/-- An addition, which a build that checks for overflow does not survive. -/
def addI64 (checks : Bool) (a b : Int64) : Option Int64 :=
  if checks && !decide (InI64 (a.toInt + b.toInt)) then none else some (a + b)

def sumRun (checks : Bool) (values : List ScanValue) : Option Int64 := do
  let numbers ← values.mapM numericOrPanic
  numbers.foldlM (addI64 checks) 0

/-- `reduce_extreme`, with the kind and the numbers that it asks for. -/
def extremeRun (tag : FieldRef) (rows : List Fields) (wantMax : Bool) (schema : DomainSchema) :
    Option ScanValue :=
  match fieldValues tag rows with
  | [] => (schema.kindOf tag).map fun kind => if kind = .u32 then .u32 0 else .i64 0
  | first :: rest =>
    rest.foldlM (fun best v => do
      let a ← numericOrPanic v
      let b ← numericOrPanic best
      return if (if wantMax then b < a else a < b) then v else best) first

def reduceRun (checks : Bool) (spec : AggregateSpec) (rows : List Fields) (schema : DomainSchema) :
    Option ScanValue :=
  match spec.func with
  | .count => some (.i64 (Int64.ofNat rows.length))
  | .sum => do
    let tag ← spec.field
    let sum ← sumRun checks (fieldValues tag rows)
    return .i64 sum
  | .avg => do
    let tag ← spec.field
    let values := fieldValues tag rows
    let sum ← sumRun checks values
    return .f64 (if values.isEmpty then 0 else sum.toFloat / Float.ofNat values.length).toBits
  | .min => do extremeRun (← spec.field) rows false schema
  | .max => do extremeRun (← spec.field) rows true schema

def IsNumber (value : ScanValue) : Prop := ∃ n, numericOrPanic value = some n

theorem numericOrPanic_eq {value : ScanValue} (h : IsNumber value) :
    numericOrPanic value = some (numericI64 value) := by
  obtain ⟨n, h⟩ := h
  cases value <;> first | rfl | cases h

section Numbers

variable {values : List ScanValue} (hNumbers : ∀ v ∈ values, IsNumber v)
include hNumbers

theorem numbers_mapM : values.mapM numericOrPanic = some (values.map numericI64) := by
  induction values with
  | nil => rfl
  | cons v values ih =>
    obtain ⟨hFirst, hRest⟩ := List.forall_mem_cons.mp hNumbers
    rw [List.mapM_cons, numericOrPanic_eq hFirst, ih hRest]
    rfl

/-- A sum that is there is the sum. -/
theorem eq_of_sumRun {checks : Bool} {sum : Int64} (h : sumRun checks values = some sum) :
    sum = sumI64 values := by
  rw [sumRun, numbers_mapM hNumbers] at h
  change (values.map numericI64).foldlM (addI64 checks) 0 = some sum at h
  unfold sumI64
  generalize values.map numericI64 = numbers at h
  generalize (0 : Int64) = start at h ⊢
  induction numbers generalizing start with
  | nil => exact (Option.some.inj h).symm
  | cons v numbers ih =>
    rw [List.foldlM_cons] at h
    obtain ⟨next, hNext, hRest⟩ := Option.bind_eq_some_iff.mp h
    unfold addI64 at hNext
    split at hNext
    · cases hNext
    · cases hNext
      exact ih _ hRest

/-- The sum panics where its additions are checked and one of the running sums has no room. -/
theorem sumRun_eq_none {checks : Bool} :
    sumRun checks values = none ↔ checks = true ∧ ¬ RunsFit values := by
  have hRun : sumRun checks values = (values.map numericI64).foldlM (addI64 checks) 0 := by
    rw [sumRun, numbers_mapM hNumbers]
    rfl
  rw [hRun]
  cases checks with
  | false =>
    suffices hSome : ∀ (numbers : List Int64) start, numbers.foldlM (addI64 false) start ≠ none by
      simp [hSome]
    intro numbers
    induction numbers with
    | nil => exact fun _ => nofun
    | cons v numbers ih =>
      intro start
      rw [List.foldlM_cons]
      exact ih (start + v)
  | true =>
    -- The induction is on the values left, over the sum of those before them.
    suffices hFold : ∀ rest done : List ScanValue, InI64 (exactSum done) →
        ((rest.map numericI64).foldlM (addI64 true) (sumI64 done) = none ↔
          ¬ ∀ k, InI64 (exactSum (done ++ rest.take k))) by
      rw [and_iff_right rfl]
      exact hFold values [] (by decide)
    intro rest
    induction rest with
    | nil =>
      intro done hDone
      simpa using hDone
    | cons v rest ih =>
      intro done hDone
      have hSum : exactSum (done ++ [v]) = (sumI64 done).toInt + (numericI64 v).toInt := by
        rw [sumI64_exact.mpr hDone]
        simp [exactSum, numberOf]
      have hNext : sumI64 done + numericI64 v = sumI64 (done ++ [v]) := by simp [sumI64]
      rw [List.map_cons, List.foldlM_cons, addI64, ← hSum, hNext]
      by_cases hRoom : InI64 (exactSum (done ++ [v]))
      · rw [decide_eq_true hRoom]
        refine (ih (done ++ [v]) hRoom).trans (not_congr ⟨fun h k => ?_, fun h k => ?_⟩)
        · cases k with
          | zero => simpa using hDone
          | succ k => simpa using h k
        · simpa using h (k + 1)
      · rw [decide_eq_false hRoom]
        refine iff_of_true rfl fun h => hRoom ?_
        simpa using h 1

/-- The kind of the field and the numbers that a bound asks for are there. -/
theorem extremeRun_eq {tag : FieldRef} {rows : List Fields} {wantMax : Bool} {schema : DomainSchema}
    (hValues : fieldValues tag rows = values) {kind : ValueKind}
    (hKind : schema.kindOf tag = some kind) :
    extremeRun tag rows wantMax schema = some (reduceExtreme tag rows wantMax schema) := by
  unfold extremeRun reduceExtreme
  rw [hValues]
  clear hValues
  cases values with
  | nil => simp [hKind]
  | cons first rest =>
    dsimp only
    induction rest generalizing first with
    | nil => rfl
    | cons v rest ih =>
      obtain ⟨hFirst, hRest⟩ := List.forall_mem_cons.mp hNumbers
      obtain ⟨hValue, hRest⟩ := List.forall_mem_cons.mp hRest
      rw [List.foldlM_cons, numericOrPanic_eq hFirst, numericOrPanic_eq hValue, List.foldl_cons]
      refine ih _ (List.forall_mem_cons.mpr ⟨?_, hRest⟩)
      split <;> split <;> assumption

end Numbers

/-! ## What a reduction is -/

/-- The value is not beyond the bound. -/
def Within (wantMax : Bool) (v bound : ScanValue) : Prop :=
  if wantMax then numberOf v ≤ numberOf bound else numberOf bound ≤ numberOf v

theorem Within.refl (wantMax : Bool) (v : ScanValue) : Within wantMax v v := by
  cases wantMax <;> exact Int.le_refl _

theorem Within.trans {wantMax : Bool} {u v w : ScanValue} (hFirst : Within wantMax u v)
    (hNext : Within wantMax v w) : Within wantMax u w := by
  cases wantMax with
  | false => exact Int.le_trans hNext hFirst
  | true => exact Int.le_trans hFirst hNext

/-- The value that a bound is replaced with. -/
def better (wantMax : Bool) (best v : ScanValue) : ScanValue :=
  if (if wantMax then numericI64 best < numericI64 v else numericI64 v < numericI64 best)
    then v else best

theorem better_spec (wantMax : Bool) (best v : ScanValue) :
    (better wantMax best v = best ∨ better wantMax best v = v) ∧
      Within wantMax best (better wantMax best v) ∧ Within wantMax v (better wantMax best v) := by
  have hLt (a b : ScanValue) : numericI64 a < numericI64 b ↔ numberOf a < numberOf b :=
    Int64.lt_iff_toInt_lt
  unfold better Within
  simp only [hLt]
  cases wantMax with
  | false =>
    simp only [Bool.false_eq_true, if_false]
    split
    · exact ⟨.inr rfl, by omega, by omega⟩
    · exact ⟨.inl rfl, by omega, by omega⟩
  | true =>
    simp only [if_true]
    split
    · exact ⟨.inr rfl, by omega, by omega⟩
    · exact ⟨.inl rfl, by omega, by omega⟩

/-- A bound of the values that is one of them. -/
def Attained (wantMax : Bool) (values : List ScanValue) (bound : ScanValue) : Prop :=
  bound ∈ values ∧ ∀ v ∈ values, Within wantMax v bound

theorem reduceExtreme_attained {tag : FieldRef} {rows : List Fields} (wantMax : Bool)
    (schema : DomainSchema) (hValues : fieldValues tag rows ≠ []) :
    Attained wantMax (fieldValues tag rows) (reduceExtreme tag rows wantMax schema) := by
  unfold reduceExtreme
  split
  · next hNone => exact absurd hNone hValues
  · next first rest hList =>
    rw [hList]
    change Attained wantMax (first :: rest) (rest.foldl (better wantMax) first)
    clear hValues hList
    induction rest generalizing first with
    | nil =>
      refine ⟨List.mem_singleton_self first, fun v hMem => ?_⟩
      rw [List.mem_singleton.mp hMem]
      exact Within.refl wantMax first
    | cons v rest ih =>
      obtain ⟨hOne, hFirst, hNext⟩ := better_spec wantMax first v
      obtain ⟨hMem, hBound⟩ := ih (better wantMax first v)
      obtain ⟨hBest, hRest⟩ := List.forall_mem_cons.mp hBound
      refine ⟨?_, List.forall_mem_cons.mpr ⟨hFirst.trans hBest, List.forall_mem_cons.mpr
        ⟨hNext.trans hBest, hRest⟩⟩⟩
      rw [List.foldl_cons]
      rcases List.mem_cons.mp hMem with hSame | hLater
      · rw [hSame]
        rcases hOne with hOne | hOne <;> rw [hOne] <;> simp
      · exact List.mem_cons_of_mem _ (List.mem_cons_of_mem _ hLater)

/-- What a reduction of a group is. An empty group has sum, mean and bounds zero. -/
def Reduces (schema : DomainSchema) (spec : AggregateSpec) (rows : List Fields)
    (value : ScanValue) : Prop :=
  match spec.func, spec.field with
  | .count, _ => ∃ n : Int64, value = .i64 n ∧ (rows.length < 2 ^ 63 → n.toInt = rows.length)
  | .sum, some tag => ∃ s : Int64, value = .i64 s ∧
      s.toInt = (exactSum (fieldValues tag rows)).bmod (2 ^ 64) ∧
      (s.toInt = exactSum (fieldValues tag rows) ↔ InI64 (exactSum (fieldValues tag rows)))
  | .avg, some tag => ∃ s : Int64, s.toInt = (exactSum (fieldValues tag rows)).bmod (2 ^ 64) ∧
      value = .f64 (if fieldValues tag rows = [] then 0
        else s.toFloat / Float.ofNat (fieldValues tag rows).length).toBits
  | .min, some tag => Extreme schema tag rows false value
  | .max, some tag => Extreme schema tag rows true value
  | _, none => False
where
  Extreme (schema : DomainSchema) (tag : FieldRef) (rows : List Fields) (wantMax : Bool)
      (value : ScanValue) : Prop :=
    if fieldValues tag rows = [] then
      ∃ kind, schema.kindOf tag = some kind ∧ value = if kind = .u32 then .u32 0 else .i64 0
    else Attained wantMax (fieldValues tag rows) value

theorem isNumber_of_typed {schema : DomainSchema} {rows : List Fields}
    (hRows : ∀ row ∈ rows, schema.Types row)
    {tag : FieldRef} {kind : ValueKind} (hKind : schema.kindOf tag = some kind)
    (hOrderable : isOrderable kind = true) : ∀ v ∈ fieldValues tag rows, IsNumber v := by
  intro v hMem
  obtain ⟨row, hRow, hFind⟩ := List.mem_filterMap.mp hMem
  obtain ⟨f, hFound, rfl⟩ := Option.map_eq_some_iff.mp hFind
  have hTag : f.1 = tag := by simpa using List.find?_some hFound
  obtain ⟨kind', hSchema, hIs⟩ := hRows row hRow f (List.mem_of_find?_eq_some hFound)
  rw [hTag, hKind] at hSchema
  cases hSchema
  cases hValue : f.2 with
  | u32 n => exact ⟨_, rfl⟩
  | i64 n => exact ⟨_, rfl⟩
  | _ =>
    rw [hValue] at hIs
    cases hIs <;> cases hOrderable

/-- The reduction adds numbers of which some running sum is no `i64`. -/
def Overflows (spec : AggregateSpec) (rows : List Fields) : Prop :=
  (spec.func = .sum ∨ spec.func = .avg) ∧ ∃ tag, spec.field = some tag ∧
    ¬ RunsFit (fieldValues tag rows)

/-- An accepted reduction is what it is called. It panics only where its additions are checked. -/
theorem reduce_spec {schema : DomainSchema} {spec : AggregateSpec} {rows : List Fields}
    (hRows : ∀ row ∈ rows, schema.Types row)
    (hSpec : spec.func ≠ .count → ∃ tag kind, spec.field = some tag ∧
      schema.kindOf tag = some kind ∧ isOrderable kind = true) :
    Reduces schema spec rows (reduce spec rows schema) ∧
      ∀ checks, (∀ value, reduceRun checks spec rows schema = some value →
        value = reduce spec rows schema) ∧
        (reduceRun checks spec rows schema = none ↔ checks = true ∧ Overflows spec rows) := by
  obtain ⟨func, field⟩ := spec
  by_cases hCount : func = .count
  · subst hCount
    refine ⟨⟨_, rfl, fun hLength => ?_⟩,
      fun checks => ⟨fun value h => (Option.some.inj h).symm, ?_⟩⟩
    · exact Int64.toInt_ofNat_of_lt hLength
    · exact iff_of_false nofun fun h => h.2.1.elim nofun nofun
  · obtain ⟨tag, kind, hTag, hKind, hOrderable⟩ := hSpec hCount
    cases hTag
    have hNumbers := isNumber_of_typed hRows hKind hOrderable
    have hExtreme (wantMax : Bool) :
        Reduces.Extreme schema tag rows wantMax (reduceExtreme tag rows wantMax schema) := by
      unfold Reduces.Extreme
      split
      · next hNone =>
        refine ⟨kind, hKind, ?_⟩
        simp [reduceExtreme, hNone, hKind]
      · next hSome => exact reduceExtreme_attained wantMax schema hSome
    have hExtremeRun {func : AggregateFn} (wantMax : Bool) (hFunc : func = .min ∨ func = .max)
        (checks : Bool) :
        (∀ value, extremeRun tag rows wantMax schema = some value →
          value = reduceExtreme tag rows wantMax schema) ∧
        (extremeRun tag rows wantMax schema = none ↔
          checks = true ∧ Overflows ⟨func, some tag⟩ rows) := by
      rw [extremeRun_eq hNumbers rfl hKind]
      refine ⟨fun value h => (Option.some.inj h).symm, iff_of_false nofun fun h => ?_⟩
      rcases hFunc with rfl | rfl <;> exact h.2.1.elim nofun nofun
    have hSumRun {func : AggregateFn} (hFunc : func = .sum ∨ func = .avg) (checks : Bool)
        (value : Int64 → ScanValue) :
        (∀ v, (sumRun checks (fieldValues tag rows)).bind (some ∘ value) = some v →
          v = value (sumI64 (fieldValues tag rows))) ∧
        ((sumRun checks (fieldValues tag rows)).bind (some ∘ value) = none ↔
          checks = true ∧ Overflows ⟨func, some tag⟩ rows) := by
      rw [← Option.map_eq_bind]
      refine ⟨fun v h => ?_, ?_⟩
      · obtain ⟨sum, hSum, rfl⟩ := Option.map_eq_some_iff.mp h
        rw [eq_of_sumRun hNumbers hSum]
      · rw [Option.map_eq_none_iff, sumRun_eq_none hNumbers]
        simp [Overflows, hFunc]
    cases func with
    | count => exact absurd rfl hCount
    | sum => exact ⟨⟨_, rfl, sumI64_toInt _, sumI64_exact⟩,
        fun checks => hSumRun (.inl rfl) checks ScanValue.i64⟩
    | avg =>
      refine ⟨⟨_, sumI64_toInt _, ?_⟩, fun checks => hSumRun (.inr rfl) checks fun sum => .f64
        (if (fieldValues tag rows).isEmpty then 0
          else sum.toFloat / Float.ofNat (fieldValues tag rows).length).toBits⟩
      simp only [reduce, average, List.isEmpty_iff]
    | min => exact ⟨hExtreme false, hExtremeRun false (.inl rfl)⟩
    | max => exact ⟨hExtreme true, hExtremeRun true (.inr rfl)⟩

/-- A group is empty only where nothing is grouped by. -/
theorem groupRows_nonempty (rows : List PageRow) {groupBy : List FieldRef} (filter : List Predicate)
    (hGroupBy : groupBy ≠ []) : ∀ group ∈ groupRows rows groupBy filter, group.2 ≠ [] := by
  have hPush {key fields : Fields} {buckets : List (Fields × List Fields)}
      (h : ∀ b ∈ buckets, b.2 ≠ []) :
      ∀ b ∈ pushBucket key fields buckets, b.2 ≠ [] := by
    induction buckets with
    | nil => simp [pushBucket]
    | cons bucket buckets ih =>
      obtain ⟨hFirst, hRest⟩ := List.forall_mem_cons.mp h
      rw [pushBucket]
      split
      · exact List.forall_mem_cons.mpr ⟨by simp, hRest⟩
      · exact List.forall_mem_cons.mpr ⟨hFirst, ih hRest⟩
  have hFold (matched : List Fields) (buckets : List (Fields × List Fields))
      (h : ∀ b ∈ buckets, b.2 ≠ []) :
      ∀ b ∈ matched.foldl (fun buckets fields =>
        pushBucket (groupKey groupBy fields) fields buckets) buckets, b.2 ≠ [] := by
    induction matched generalizing buckets with
    | nil => exact h
    | cons fields matched ih => exact ih _ (hPush h)
  refine hFold _ _ ?_
  rw [if_neg (by simpa using hGroupBy)]
  exact List.forall_mem_nil _

/-- **Aggregates.** An accepted aggregate of a table's rows answers with the groups, or the first of
them: a partition of the rows that pass the filter, under distinct keys. Each reduction of a group
is what it is called; a sum is exact where it is an `i64`, and wraps around where it is not. It
panics only in a build that checks its additions, where one of the running sums has no room. -/
theorem aggregate_semantics {schema : DomainSchema} {rows : List PageRow}
    (hRows : TypedRows schema rows)
    {groupBy : List FieldRef} {filter : List Predicate} {aggregates : List AggregateSpec}
    (hValid : validateAggregate schema groupBy filter aggregates = .ok ()) (limit : Option Nat) :
    let groups := groupRows rows groupBy filter
    evaluateAggregate rows groupBy filter aggregates limit schema =
        truncate limit (groups.map fun group =>
          ⟨group.1, aggregates.map (reduce · group.2 schema)⟩) ∧
      ((groups.map (·.1)).Nodup ∧ Keyed (groupKey groupBy) groups ∧
        (groups.flatMap (·.2)).Perm (matchedRows rows filter) ∧
        (groupBy ≠ [] → ∀ group ∈ groups, group.2 ≠ [])) ∧
      ∀ group ∈ groups, ∀ spec ∈ aggregates,
        Reduces schema spec group.2 (reduce spec group.2 schema) ∧
        ∀ checks,
          (∀ value, reduceRun checks spec group.2 schema = some value →
            value = reduce spec group.2 schema) ∧
          (reduceRun checks spec group.2 schema = none ↔
            checks = true ∧ Overflows spec group.2) := by
  obtain ⟨hNodup, hKeyed, hPerm⟩ := groupRows_partition rows groupBy filter
  refine ⟨rfl, ⟨hNodup, hKeyed, hPerm, groupRows_nonempty rows filter⟩,
    fun group hGroup spec hSpec => ?_⟩
  refine reduce_spec (fun row hRow => ?_) ((validateAggregate_ok hValid).2 spec hSpec)
  have hMem := hPerm.subset (List.mem_flatMap.mpr ⟨group, hGroup, hRow⟩)
  obtain ⟨old, hOld, rfl⟩ := List.mem_map.mp (List.mem_filter.mp hMem).1
  exact hRows old hOld

/-- The rows of two entities, with counts `Int64.maxValue` and one. -/
def crowdedRows : List PageRow :=
  [(Uuid.ofNat 1, Entity.domain.fieldsOf ⟨Uuid.ofNat 1, "a", "k", Int64.maxValue, []⟩),
    (Uuid.ofNat 2, Entity.domain.fieldsOf ⟨Uuid.ofNat 2, "b", "k", 1, []⟩)]

theorem crowdedRows_typed : TypedRows Entity.domain.schema crowdedRows :=
  List.forall_mem_cons.mpr ⟨Entity.domain_plain.typed _, List.forall_mem_cons.mpr
    ⟨Entity.domain_plain.typed _, nofun⟩⟩

/-- The counts of two entities are fewer than none: the sum wraps around, and a build that checks
its additions panics. -/
theorem sum_wraps :
    TypedRows Entity.domain.schema crowdedRows ∧
      validateAggregate Entity.domain.schema [] [] [⟨.sum, some Entity.FIELD_MENTION_COUNT⟩] =
      .ok () ∧ evaluateAggregate crowdedRows [] [] [⟨.sum, some Entity.FIELD_MENTION_COUNT⟩] none
        Entity.domain.schema = [⟨[], [.i64 Int64.minValue]⟩] ∧
      exactSum (fieldValues Entity.FIELD_MENTION_COUNT (matchedRows crowdedRows [])) = 2 ^ 63 ∧
      reduceRun true ⟨.sum, some Entity.FIELD_MENTION_COUNT⟩ (matchedRows crowdedRows [])
        Entity.domain.schema = none := by
  refine ⟨crowdedRows_typed, ?_, ?_, ?_, ?_⟩ <;> decide +kernel

/-- Four entities of two kinds. -/
def entityRows : List PageRow :=
  [(Uuid.ofNat 1, Entity.domain.fieldsOf ⟨Uuid.ofNat 1, "a", "person", 3, []⟩),
    (Uuid.ofNat 2, Entity.domain.fieldsOf ⟨Uuid.ofNat 2, "b", "place", 4, []⟩),
    (Uuid.ofNat 3, Entity.domain.fieldsOf ⟨Uuid.ofNat 3, "c", "person", 5, []⟩),
    (Uuid.ofNat 4, Entity.domain.fieldsOf ⟨Uuid.ofNat 4, "d", "place", 0, []⟩)]

/-- Those that were mentioned. -/
def mentioned : List Predicate := [⟨Entity.FIELD_MENTION_COUNT, .ge, .i64 1⟩]

def sampleAggregates : List AggregateSpec :=
  [⟨.count, none⟩, ⟨.sum, some Entity.FIELD_MENTION_COUNT⟩, ⟨.avg, some Entity.FIELD_MENTION_COUNT⟩,
    ⟨.max, some Entity.FIELD_MENTION_COUNT⟩]

/-- The entities that were mentioned, by kind. -/
theorem aggregate_semantics_sample :
    let groups := groupRows entityRows [Entity.FIELD_KIND] mentioned
    groups.map (fun group => (group.1, reduce ⟨.sum,
        some Entity.FIELD_MENTION_COUNT⟩ group.2 Entity.domain.schema)) =
        [([(Entity.FIELD_KIND, .str "person")], .i64 8),
          ([(Entity.FIELD_KIND, .str "place")], .i64 4)] ∧
      (groups.flatMap (·.2)).Perm (matchedRows entityRows mentioned) ∧
      ∀ group ∈ groups, ∀ spec ∈ sampleAggregates,
        Reduces Entity.domain.schema spec group.2 (reduce spec group.2 Entity.domain.schema) := by
  have hTyped : TypedRows Entity.domain.schema entityRows := by
    unfold entityRows TypedRows
    simp only [List.forall_mem_cons]
    exact ⟨Entity.domain_plain.typed _, Entity.domain_plain.typed _, Entity.domain_plain.typed _,
      Entity.domain_plain.typed _, nofun⟩
  have hValid : validateAggregate Entity.domain.schema [Entity.FIELD_KIND] mentioned
      sampleAggregates = .ok () := by
    decide +kernel
  obtain ⟨-, ⟨-, -, hPerm, -⟩, hReduced⟩ := aggregate_semantics hTyped hValid none
  exact ⟨by decide +kernel, hPerm, fun group hGroup spec hSpec => (hReduced group hGroup
    spec hSpec).1⟩

end MultimodalDb
