import MultimodalDb.Server.Requests
import Mathlib.Data.List.Nodup

/-!
# Joins

A join over tables that nothing else changes meanwhile: the pairs of a left row and a related right
row, both of which pass their filters (`relatedPairs`), cut to the limit. `run_evaluateJoin` says
that the loop over the left rows, which stops when there are enough pairs, comes to this list.
-/

namespace MultimodalDb

/-! ## Pairs -/

section Pairs

variable {α β κ : Type}

/-- The lefts that pass `p`, each with the related rights that there are and that pass `q`. -/
def relatedPairs (lefts : List α) (p : α → Bool) (related : α → List κ) (right : κ → Option β)
    (q : β → Bool) : List (α × κ × β) :=
  (lefts.filter p).flatMap fun l => (related l).filterMap fun k =>
    ((right k).filter q).map fun r => (l, k, r)

variable {lefts : List α} {p : α → Bool} {related : α → List κ} {right : κ → Option β}
  {q : β → Bool}

theorem mem_relatedPairs {l : α} {k : κ} {r : β} :
    (l, k, r) ∈ relatedPairs lefts p related right q ↔
    (l ∈ lefts ∧ p l = true) ∧ k ∈ related l ∧ right k = some r ∧ q r = true := by
  simp only [relatedPairs, List.mem_flatMap, List.mem_filter, List.mem_filterMap,
    Option.map_eq_some_iff, Option.filter_eq_some_iff, Prod.mk.injEq]
  constructor
  · rintro ⟨_, hLeft, _, hRelated, _, hRight, rfl, rfl, rfl⟩
    exact ⟨hLeft, hRelated, hRight⟩
  · rintro ⟨hLeft, hRelated, hRight⟩
    exact ⟨l, hLeft, k, hRelated, r, hRight, rfl, rfl, rfl⟩

/-- Each pair is there once. -/
theorem nodup_relatedPairs (hLefts : lefts.Nodup) (hRelated : ∀ l ∈ lefts, (related l).Nodup) :
    (relatedPairs lefts p related right q).Nodup := by
  refine List.nodup_flatMap.mpr ⟨fun l hl => ?_, (hLefts.filter p).imp fun hne => ?_⟩
  · refine (hRelated l (List.mem_of_mem_filter hl)).filterMap fun k k' x hk hk' => ?_
    obtain ⟨r, -, rfl⟩ := Option.map_eq_some_iff.mp hk
    obtain ⟨r', -, hSame⟩ := Option.map_eq_some_iff.mp hk'
    exact (congrArg (fun t => t.2.1) hSame).symm
  · intro x hx hx'
    obtain ⟨_, -, hk⟩ := List.mem_filterMap.mp hx
    obtain ⟨_, -, hk'⟩ := List.mem_filterMap.mp hx'
    obtain ⟨r, -, rfl⟩ := Option.map_eq_some_iff.mp hk
    obtain ⟨r', -, hSame⟩ := Option.map_eq_some_iff.mp hk'
    exact hne (congrArg Prod.fst hSame).symm

end Pairs

namespace Tables

open Program

variable {n : Nat} {σ : Fin n → Type} (T : Tables n σ) (w : Contents σ)

/-! ## What the reads of a join come to -/

/-- The live record of an id. -/
def live (i : Fin n) (id : RecordId) : Option Fields := (T.store i).read (.get id) (w i)

/-- The rows of a table, in scan order. -/
def rows (i : Fin n) : List PageRow :=
  ((T.store i).read .allIds (w i)).filterMap fun id => (T.live w i id).map fun fields =>
    (id, fields)

/-- The ids that the relation gives for an id. -/
def related (i : Fin n) (relation : JoinRelation) (id : RecordId) : List RecordId :=
  match relation with
  | .neighbors none => ((T.store i).read (.neighbors id) (w i)).toOption.getD []
  | .neighbors (some label) =>
    ((T.store i).read (.neighborsByRelation id label) (w i)).toOption.getD []
  | .parent =>
    match (T.store i).read (.parent id) (w i) with
    | .ok (.parent parent) => [parent]
    | _ => []
  | .children => ((T.store i).read (.children id) (w i)).toOption.getD []

variable {T w} (taken : Bool)

theorem run_read_bind {α : Type} {i : Fin n} {r : Read} {f : r.Reply → Serving n α} :
    run (T.answer taken) (read i r >>= f) w =
      run (T.answer taken) (f ((T.store i).read r (w i))) w := rfl

theorem run_getAll (i : Fin n) (ids : List RecordId) : run (T.answer taken) (getAll i ids) w =
    (ids.filterMap fun id => (T.live w i id).map fun fields => (id, fields), w) := by
  induction ids with
  | nil => rfl
  | cons id ids ih =>
    rw [getAll, run_read_bind, List.filterMap_cons, live]
    cases (T.store i).read (.get id) (w i) with
    | none => exact ih
    | some fields =>
      change run (T.answer taken) (getAll i ids >>= fun rows => pure ((id, fields) :: rows)) w = _
      rw [run_bind, ih]
      rfl

theorem run_scanAll (i : Fin n) : run (T.answer taken) (scanAll i) w = (T.rows w i, w) := by
  rw [scanAll, run_read_bind, run_getAll]
  rfl

theorem run_relatedIds (i : Fin n) (relation : JoinRelation) (id : RecordId) :
    run (T.answer taken) (relatedIds i relation id) w = (T.related w i relation id, w) := by
  cases relation with
  | neighbors label => cases label <;> rfl
  | parent =>
    change run (T.answer taken) (read i (.parent id) >>= _) w = _
    rw [run_read_bind, related]
    cases (T.store i).read (.parent id) (w i) with
    | error code => rfl
    | ok lookup => cases lookup <;> rfl
  | children => rfl

/-! ## The loops -/

/-- A joined row: both ids, and both projections. -/
def joinedRow (spec : JoinSpec) (pair : PageRow × RecordId × Fields) : JoinedRow :=
  ⟨pair.1.1, selectFields pair.1.2 spec.left, pair.2.1, selectFields pair.2.2 spec.right⟩

/-- The pairs of the join, without a limit. -/
def joinPairs (T : Tables n σ) (w : Contents σ) (i j : Fin n) (spec : JoinSpec) :
    List (PageRow × RecordId × Fields) :=
  relatedPairs (T.rows w i) (fun row => spec.leftFilter.all (predicateMatches row.2))
    (fun row => T.related w i spec.relation row.1) (T.live w j)
    fun fields => spec.rightFilter.all (predicateMatches fields)

theorem truncate_eq {limit : Option Nat} {out more : List JoinedRow} (hFull : full limit out = true)
    (hOut : truncate limit out = out) : truncate limit (out ++ more) = out := by
  cases limit with
  | none => cases hFull
  | some limit =>
    have hLength := congrArg List.length hOut
    simp only [truncate, List.length_take] at hLength
    have hMost : limit ≤ out.length := of_decide_eq_true hFull
    have hLimit : limit = out.length := by omega
    rw [truncate, hLimit, List.take_left]

theorem truncate_push {limit : Option Nat} {out : List JoinedRow} {row : JoinedRow}
    (hFull : full limit out = false) : truncate limit (out ++ [row]) = out ++ [row] := by
  cases limit with
  | none => rfl
  | some limit =>
    have hMost : ¬ limit ≤ out.length := of_decide_eq_false hFull
    refine List.take_of_length_le ?_
    rw [List.length_append, List.length_singleton]
    omega

/-- The right records that pass the filter, for one left row. -/
def joinsOf (T : Tables n σ) (w : Contents σ) (j : Fin n) (spec : JoinSpec) (row : PageRow)
    (ids : List RecordId) : List JoinedRow :=
  (ids.filterMap fun id =>
    ((T.live w j id).filter fun fields => spec.rightFilter.all (predicateMatches fields)).map
      fun fields => (row, id, fields)).map (joinedRow spec)

theorem run_joinRights (j : Fin n) (spec : JoinSpec) (row : PageRow) (ids : List RecordId)
    {out : List JoinedRow} (hOut : truncate spec.limit out = out) :
    run (T.answer taken) (joinRights j spec row ids out) w =
      (truncate spec.limit (out ++ T.joinsOf w j spec row ids), w) := by
  induction ids generalizing out with
  | nil =>
    rw [joinRights, joinsOf, List.filterMap_nil, List.map_nil, List.append_nil, hOut]
    rfl
  | cons id ids ih =>
    rw [joinRights]
    cases hFull : full spec.limit out with
    | true =>
      rw [truncate_eq hFull hOut]
      rfl
    | false =>
      change run (T.answer taken) (read j (.get id) >>= _) w = _
      rw [run_read_bind]
      have hLive : (T.store j).read (.get id) (w j) = T.live w j id := rfl
      rw [hLive]
      cases hId : T.live w j id with
      | none =>
        have hMore : T.joinsOf w j spec row (id :: ids) = T.joinsOf w j spec row ids := by
          simp only [joinsOf, List.filterMap_cons, hId, Option.filter_none, Option.map_none]
        rw [hMore]
        exact ih hOut
      | some fields =>
        dsimp only
        cases hFilter : spec.rightFilter.all (predicateMatches fields) with
        | true =>
          have hMore : T.joinsOf w j spec row (id :: ids) =
              joinedRow spec (row, id, fields) :: T.joinsOf w j spec row ids := by
            simp only [joinsOf, List.filterMap_cons, hId, Option.filter_some, hFilter, if_true,
              Option.map_some, List.map_cons]
          have hPush : truncate spec.limit (out ++ [joinedRow spec (row, id, fields)]) = _ :=
            truncate_push hFull
          have hNext := ih hPush
          rw [List.append_assoc, List.singleton_append] at hNext
          rw [hMore]
          exact hNext
        | false =>
          have hMore : T.joinsOf w j spec row (id :: ids) = T.joinsOf w j spec row ids := by
            simp only [joinsOf, List.filterMap_cons, hId, Option.filter_some, hFilter,
              Bool.false_eq_true, if_false, Option.map_none]
          rw [hMore]
          exact ih hOut

theorem truncate_truncate (limit : Option Nat) (out : List JoinedRow) :
    truncate limit (truncate limit out) = truncate limit out := by
  cases limit with
  | none => rfl
  | some limit => rw [truncate, truncate, List.take_take, Nat.min_self]

theorem truncate_append (limit : Option Nat) (out more : List JoinedRow) :
    truncate limit (truncate limit out ++ more) = truncate limit (out ++ more) := by
  cases limit with
  | none => rfl
  | some limit =>
    simp only [truncate]
    rw [List.take_append, List.take_append, List.take_take, Nat.min_self, List.length_take]
    congr 2
    omega

theorem run_joinLefts (i j : Fin n) (spec : JoinSpec) (lefts : List PageRow) {out : List JoinedRow}
    (hOut : truncate spec.limit out = out) :
    run (T.answer taken) (joinLefts i j spec lefts out) w =
      (truncate spec.limit (out ++
        ((lefts.filter fun row => spec.leftFilter.all (predicateMatches row.2)).flatMap fun row =>
          T.joinsOf w j spec row (T.related w i spec.relation row.1))), w) := by
  induction lefts generalizing out with
  | nil =>
    rw [joinLefts, List.filter_nil, List.flatMap_nil, List.append_nil, hOut]
    rfl
  | cons row lefts ih =>
    rw [joinLefts]
    cases hFull : full spec.limit out with
    | true =>
      rw [truncate_eq hFull hOut]
      rfl
    | false =>
      cases hFilter : spec.leftFilter.all (predicateMatches row.2) with
      | true =>
        simp only [List.filter_cons, hFilter, if_true, List.flatMap_cons]
        rw [← List.append_assoc]
        change run (T.answer taken) (relatedIds i spec.relation row.1 >>= fun ids =>
          joinRights j spec row ids out >>= fun out => joinLefts i j spec lefts out) w = _
        rw [run_bind, run_relatedIds, run_bind, run_joinRights taken j spec row _ hOut,
          ih (truncate_truncate _ _), truncate_append]
      | false =>
        simp only [List.filter_cons, hFilter, Bool.false_eq_true, if_false]
        exact ih hOut

/-- **What a join comes to.** -/
theorem run_evaluateJoin (i j : Fin n) (spec : JoinSpec) :
    run (T.answer taken) (evaluateJoin i j spec) w =
      (truncate spec.limit ((T.joinPairs w i j spec).map (joinedRow spec)), w) := by
  have hPairs : (T.joinPairs w i j spec).map (joinedRow spec) =
      ((T.rows w i).filter fun row => spec.leftFilter.all (predicateMatches row.2)).flatMap
        fun row =>
        T.joinsOf w j spec row (T.related w i spec.relation row.1) := by
    rw [joinPairs, relatedPairs, List.map_flatMap]
    rfl
  have hEmpty : truncate spec.limit ([] : List JoinedRow) = [] := by
    cases spec.limit <;> simp [truncate]
  rw [evaluateJoin, hPairs]
  cases hFull : full spec.limit [] with
  | true =>
    rw [← List.nil_append (List.flatMap _ _), truncate_eq hFull hEmpty]
    rfl
  | false =>
    change run (T.answer taken) (scanAll i >>= fun rows => joinLefts i j spec rows []) w = _
    rw [run_bind, run_scanAll, run_joinLefts taken i j spec _ hEmpty, List.nil_append]

/-! ## The requests -/

theorem run_describeRelations (i : Fin n) :
    (run (T.answer taken) (T.describeRelations i) w).2 = w := by
  unfold describeRelations
  cases (T.store i).relations <;> rfl

theorem run_neighbors (i : Fin n) (id : RecordId) :
    (run (T.answer taken) (T.dispatch i (.neighbors id)) w).1 =
      match (T.store i).read (.neighbors id) (w i) with
      | .ok records => .recordList records
      | .error code => errResponse code := by
  change (run (T.answer taken) (read i (.neighbors id) >>= _) w).1 = _
  rw [run_read_bind]
  cases (T.store i).read (.neighbors id) (w i) <;> rfl

/-- An accepted join of one table answers with its pairs. -/
theorem run_join (i : Fin n) {spec : JoinSpec}
    (hValid : validateJoin (T.store i).describe
      (run (T.answer taken) (T.describeRelations i) w).1 none spec =
      .ok ()) : (run (T.answer taken) (T.dispatch i (.join spec)) w).1 =
        .joinedRows (truncate spec.limit ((T.joinPairs w i i spec).map (joinedRow spec))) := by
  change (run (T.answer taken) (T.describeRelations i >>= _) w).1 = _
  rw [run_bind, run_describeRelations, hValid]
  change (run (T.answer taken) (evaluateJoin i i spec >>= _) w).1 = _
  rw [run_bind, run_evaluateJoin]
  rfl

/-- A table lists the ids of its live records, each once. -/
structure ListsLive (T : Tables n σ) (w : Contents σ) (i : Fin n) : Prop where
  nodup : ((T.store i).read .allIds (w i)).Nodup
  live : ∀ id, id ∈ (T.store i).read .allIds (w i) ↔ (T.live w i id).isSome

variable {i j : Fin n} {spec : JoinSpec}

theorem mem_rows (h : ListsLive T w i) {row : PageRow} :
    row ∈ T.rows w i ↔ T.live w i row.1 = some row.2 := by
  obtain ⟨id, fields⟩ := row
  simp only [rows, List.mem_filterMap, Option.map_eq_some_iff, Prod.mk.injEq]
  constructor
  · rintro ⟨_, -, _, hLive, rfl, rfl⟩
    exact hLive
  · intro hLive
    exact ⟨id, (h.live id).mpr (by rw [hLive]; rfl), fields, hLive, rfl, rfl⟩

theorem nodup_rows (h : ListsLive T w i) : (T.rows w i).Nodup := by
  refine h.nodup.filterMap fun id id' row hId hId' => ?_
  obtain ⟨_, -, rfl⟩ := Option.map_eq_some_iff.mp hId
  obtain ⟨_, -, hSame⟩ := Option.map_eq_some_iff.mp hId'
  exact (congrArg Prod.fst hSame).symm

theorem mem_joinPairs (h : ListsLive T w i) {l : PageRow} {k : RecordId} {fields : Fields} :
    (l, k, fields) ∈ T.joinPairs w i j spec ↔
      (T.live w i l.1 = some l.2 ∧ spec.leftFilter.all (predicateMatches l.2) = true) ∧
        k ∈ T.related w i spec.relation l.1 ∧ T.live w j k = some fields ∧
          spec.rightFilter.all (predicateMatches fields) = true := by
  rw [joinPairs, mem_relatedPairs, mem_rows h]

/-- A table of three records with an age, the first of which is a neighbor of the two others. -/
def linkedRecords : Tables 1 fun _ => Unit where
  name _ := "linked"
  primary := 0
  store _ := {
    tableName := "linked"
    describe := ⟨[⟨0, "age", .u32, ⟨false, true, false⟩⟩], ⟨false, true⟩⟩
    relations := none
    orderedBy := none
    journaled := false
    exclusiveBatches := false
    read := fun r _ =>
      match r with
      | .get id =>
        if id = Uuid.ofNat 1 then some [(0, .u32 3)]
        else if id = Uuid.ofNat 2 then some [(0, .u32 5)]
        else if id = Uuid.ofNat 3 then some [(0, .u32 8)]
        else none
      | .allIds => [Uuid.ofNat 1, Uuid.ofNat 2, Uuid.ofNat 3]
      | .neighbors id =>
        .ok (if id = Uuid.ofNat 1 then [Uuid.ofNat 2, Uuid.ofNat 3]
          else if id = Uuid.ofNat 2 then [Uuid.ofNat 1]
          else if id = Uuid.ofNat 3 then [Uuid.ofNat 1]
          else [])
      | .neighborsByRelation .. | .parent _ | .children _ => .error .unsupported
      | .filterEq .. | .scanField _ | .countEdges _ | .validateOp _ => .error .unsupported
      | .listRelationKinds | .pageBy .. => []
    write := fun w s =>
      match w with
      | .insertRecord .. | .updateField .. | .replaceRecord .. | .replaceRecordIf ..
      | .deleteRecord _
      | .linkRecords .. | .detachRecord .. | .compact => (.error .unsupported, s)
      | .writeAtomic _ | .applyTransaction .. | .applyTurn .. => (.error (0, .unsupported), s) }

end Tables

end MultimodalDb
