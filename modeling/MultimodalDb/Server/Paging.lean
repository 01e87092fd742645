import MultimodalDb.Generic.IndexRebuild
import MultimodalDb.Lib.Pages
import MultimodalDb.Server.Joins
import MultimodalDb.Server.Reads

/-!
# Pages

Two tables keep their records in the order of a field beside them, and answer a page of that order
from the sorted index. A page of another field is read off the keys of all the records.

Whatever was written to such a table, the index changes no page, and a client that asks for one page
after the other reads every record once, in order (`OrderedTable.pages`).
-/

set_option linter.unusedSectionVars false

namespace MultimodalDb

/-! ## Orders -/

instance int64Order : LinearOrder Int64 where
  le_refl := Int64.le_refl
  le_trans _ _ _ := Int64.le_trans
  lt_iff_le_not_ge _ _ := by rw [Int64.not_le, iff_and_self]; exact Int64.le_of_lt
  le_antisymm _ _ := Int64.le_antisymm
  le_total := Int64.le_total
  toDecidableLE := inferInstance
  toDecidableEq := inferInstance
  toDecidableLT := inferInstance

theorem Uuid.bytes_lt_iff (a b : Uuid) : a.bytes < b.bytes ↔ a < b := by
  show a.bytes < b.bytes ↔ a.bytes.map UInt8.toNat < b.bytes.map UInt8.toNat
  generalize a.bytes = xs, b.bytes = ys
  induction xs generalizing ys with
  | nil => cases ys <;> simp
  | cons x xs ih =>
    cases ys with
    | nil => simp
    | cons y ys => rw [List.map_cons, List.map_cons, List.cons_lt_cons_iff, List.cons_lt_cons_iff,
        ih, UInt8.lt_iff_toNat_lt, UInt8.toNat_inj]

theorem pageBefore_iff (a b : Int × RecordId) : pageBefore a b = true ↔ toLex a < toLex b := by
  rw [pageBefore, Bool.or_eq_true, Bool.and_eq_true, decide_eq_true_iff, decide_eq_true_iff,
    decide_eq_true_iff, Uuid.bytes_lt_iff, Prod.Lex.toLex_lt_toLex]

/-- A pair of the sorted index among the keys of a scan. -/
def wide (pair : Int64 ×ₗ RecordId) : Int × RecordId := ((ofLex pair).1.toInt, (ofLex pair).2)

theorem wide_lt_iff (a b : Int64 ×ₗ RecordId) : toLex (wide a) < toLex (wide b) ↔ a < b := by
  rw [Prod.Lex.toLex_lt_toLex, wide, wide, ← Int64.lt_iff_toInt_lt, Int64.toInt_inj]
  exact Prod.Lex.lt_iff.symm

/-! ## A page of the index and a page of all the keys -/

section PageIds

variable {index : Finset (Int64 ×ₗ RecordId)} {keys : List (RecordId × Int)}

theorem pageBy_eq (index : Finset (Int64 ×ₗ RecordId)) (after : Option (Int64 × RecordId))
    (limit : Nat) :
    IndexLayers.pageBy index after limit =
      (Pages.page index (after.map toLex) limit).map fun pair => (ofLex pair).2 := by
  cases after with
  | none => rfl
  | some cursor => rfl

/-- A sort leaves the one sorted list of its elements. -/
theorem mergeSort_eq {keyed : List (Int × RecordId)} {sorted : List (Int64 ×ₗ RecordId)}
    (hSorted : sorted.Pairwise (· < ·)) (hPerm : keyed.Perm (sorted.map wide)) :
    keyed.mergeSort (fun a b => !pageBefore b a) = sorted.map wide := by
  have hLe : ∀ a b : Int × RecordId, (!pageBefore b a) = true ↔ toLex a ≤ toLex b := fun a b => by
    rw [Bool.not_eq_true', ← Bool.not_eq_true, pageBefore_iff, not_lt]
  have hMerged : (keyed.mergeSort fun a b => !pageBefore b a).Pairwise fun a b =>
    (!pageBefore b a) = true := by
    refine List.pairwise_mergeSort (fun a b c hab hbc => ?_) (fun a b => ?_) keyed
    · exact (hLe a c).mpr (le_trans ((hLe a b).mp hab) ((hLe b c).mp hbc))
    · rw [Bool.or_eq_true, hLe, hLe]
      exact le_total _ _
  refine ((List.mergeSort_perm keyed _).trans hPerm).eq_of_pairwise
    (fun a b _ _ hab hba => ?_) hMerged ?_
  · exact toLex.injective (le_antisymm ((hLe a b).mp hab) ((hLe b a).mp hba))
  · refine List.pairwise_map.mpr (hSorted.imp fun {a b} hLt => ?_)
    exact (hLe _ _).mpr ((wide_lt_iff a b).mpr hLt).le

/-- The keys of a table that are past a cursor, sorted, are those of the index. -/
theorem pageIds_eq
    (hKeys : (keys.map fun key => (key.2, key.1)).Perm ((index.sort (· ≤ ·)).map wide))
    (after : Option (Int64 × RecordId)) (limit : Nat) :
    pageIds keys (after.map fun cursor => (.i64 cursor.1, cursor.2)) limit =
      IndexLayers.pageBy index after limit := by
  have hPast : ((keys.map fun key => (key.2, key.1)).filter fun key =>
      (after.map fun cursor => (cursor.1.toInt, cursor.2)).all (pageBefore · key)).Perm
      (((Pages.past index (after.map toLex)).sort (· ≤ ·)).map wide) := by
    refine (hKeys.filter _).trans ?_
    rw [List.filter_map]
    refine List.Perm.map _ ?_
    refine (List.perm_ext_iff_of_nodup ((Finset.sort_nodup ..).filter _) (Finset.sort_nodup ..)).mpr
      fun pair => ?_
    cases after with
    | none => simp [Pages.past]
    | some cursor =>
      have hBefore : pageBefore (cursor.1.toInt, cursor.2) (wide pair) = true ↔
          toLex cursor < pair := by
        rw [pageBefore_iff]
        exact wide_lt_iff (toLex cursor) pair
      simp [Pages.past, hBefore]
  have hCursor : (after.map fun cursor => ((.i64 cursor.1 : ScanValue), cursor.2)).map
      (fun cursor => ((pageKeyValue cursor.1).getD noPageKey, cursor.2)) =
      after.map fun cursor => (cursor.1.toInt, cursor.2) := by
    rw [Option.map_map]
    rfl
  unfold pageIds
  dsimp only
  rw [hCursor, mergeSort_eq (Finset.sortedLT_sort _).pairwise hPast, pageBy_eq, Pages.page,
    ← List.map_take, List.map_map]
  rfl

end PageIds

/-! ## Tables in an order -/

open IndexLayers (allIds)
open RecordFields (orderKey)

/-- What an adapter says of the field whose order its stack keeps. -/
structure OrderedTable (R V : Type) (M IV SV P : outParam Type)
    [RecordFields R M RecordId IV SV P Int64] where
  domain : Domain R V
  /-- The marker of the sorted index, and the tag of its field. -/
  marker : M
  tag : FieldRef
  kind_tag : domain.schema.kindOf tag = some .i64
  find_tag : ∀ r : R, (domain.fieldsOf r).find? (fun f => f.1 = tag) =
    some (tag, .i64 (orderKey marker r))
  /-- The keys that `page_keys` reads straight off a record. -/
  keyOf : FieldRef → R → Option Int
  keyOf_eq : ∀ {orderBy r key}, keyOf orderBy r = some key →
    pageKey (domain.fieldsOf r) orderBy = key

namespace OrderedTable

variable {R V M IV SV P : Type} [DecidableEq M] [DecidableEq IV] [DecidableEq P]
variable [RecordFields R M RecordId IV SV P Int64]

/-- The ids of a page of the sorted index. A stack without one has none. -/
def pageBy (after : Option (Int64 × RecordId)) (limit : Nat) :
  IndexLayers.Stack R M RecordId IV SV P Int64 → List RecordId
  | .ordered _ index _ => IndexLayers.pageBy index after limit
  | _ => []

variable (A : OrderedTable R V M IV SV P)

def pageKeys (s : IndexLayers.Stack R M RecordId IV SV P Int64) (orderBy : FieldRef) :
    List (RecordId × Int) :=
  (allIds s).filterMap fun id => (IndexLayers.get s id).map fun record =>
    (id, (A.keyOf orderBy record).getD (pageKey (A.domain.fieldsOf record) orderBy))

/-- The adapter over its stack. Pages ask no more of it than these reads; `rest` does everything
else. -/
def store (rest : ConnectionStore (IndexLayers.Stack R M RecordId IV SV P Int64)) :
    ConnectionStore (IndexLayers.Stack R M RecordId IV SV P Int64) :=
  { rest with
    describe := A.domain.schema
    orderedBy := some A.tag
    read := fun r s =>
      match r with
      | .get id => (IndexLayers.get s id).map A.domain.fieldsOf
      | .allIds => allIds s
      | .pageBy after limit => pageBy after limit s
      | r => rest.read r s }

/-- A server of the one table. -/
def tables (rest : ConnectionStore (IndexLayers.Stack R M RecordId IV SV P Int64)) :
    Tables 1 fun _ => IndexLayers.Stack R M RecordId IV SV P Int64 :=
  ⟨fun _ => rest.tableName, fun _ => A.store rest, ⟨0, Nat.one_pos⟩⟩

/-- The same server, whose table reads every page off the keys of all its records. -/
def scanning (rest : ConnectionStore (IndexLayers.Stack R M RecordId IV SV P Int64)) :
    Tables 1 fun _ => IndexLayers.Stack R M RecordId IV SV P Int64 :=
  ⟨fun _ => rest.tableName, fun _ => { A.store rest with orderedBy := none }, ⟨0, Nat.one_pos⟩⟩

/-- The cursor behind a row. -/
def cursorOf (row : PageRow) : ScanValue × RecordId :=
  (((row.2.find? fun f => f.1 = A.tag).map (·.2)).getD (.i64 0), row.1)

/-- A page of the table's order, as a client gets it. -/
def readPage (rest : ConnectionStore (IndexLayers.Stack R M RecordId IV SV P Int64))
    (s : IndexLayers.Stack R M RecordId IV SV P Int64) (after : Option (ScanValue × RecordId))
    (limit : Nat) : List PageRow :=
  ((Program.run ((A.tables rest).answer true)
    ((A.tables rest).page ⟨0, Nat.one_pos⟩ A.tag after limit) fun _ => s).1.toOption).getD []

/-! ## The index and the records -/

section Index

variable {A} {rest : ConnectionStore (IndexLayers.Stack R M RecordId IV SV P Int64)} {m : M}
  {index : Finset (Int64 ×ₗ RecordId)} {inner : IndexLayers.Stack R M RecordId IV SV P Int64}

/-- The row of an id that has a record. -/
def rowOf (A : OrderedTable R V M IV SV P) (s : IndexLayers.Stack R M RecordId IV SV P Int64)
    (id : RecordId) : PageRow :=
  (id, ((IndexLayers.get s id).map A.domain.fieldsOf).getD [])

/-- Over ids that have records, a list keeps its length. -/
theorem filterMap_get {s : IndexLayers.Stack R M RecordId IV SV P Int64} {α : Type}
    {ids : List RecordId}
    (h : ∀ id ∈ ids, (IndexLayers.get s id).isSome = true) (f : RecordId → R → α)
    (d : RecordId → α) :
    (ids.filterMap fun id => (IndexLayers.get s id).map (f id)) =
      ids.map fun id => ((IndexLayers.get s id).map (f id)).getD (d id) := by
  induction ids with
  | nil => rfl
  | cons id ids ih =>
    obtain ⟨hHere, hRest⟩ := List.forall_mem_cons.mp h
    obtain ⟨r, hSome⟩ := Option.isSome_iff_exists.mp hHere
    rw [List.filterMap_cons, List.map_cons, hSome, Option.map_some, Option.getD_some]
    exact congrArg _ (ih hRest)

theorem rows_eq (s : IndexLayers.Stack R M RecordId IV SV P Int64) :
    (A.tables rest).rows (fun _ => s) 0 = (allIds s).map (A.rowOf s) := by
  have hRow : ∀ id, rowOf A s id =
      ((IndexLayers.get s id).map fun r => (id, A.domain.fieldsOf r)).getD (id, []) := by
    intro id
    rw [rowOf]
    cases IndexLayers.get s id with
    | none => rfl
    | some r => rfl
  rw [funext hRow, ← filterMap_get (s := s) (fun id hMem => (IndexLayers.mem_allIds s id).mp hMem)
    (fun id r => (id, A.domain.fieldsOf r))]
  show (allIds s).filterMap _ = _
  refine List.filterMap_congr fun id _ => ?_
  show ((IndexLayers.get s id).map A.domain.fieldsOf).map _ = _
  rw [Option.map_map]
  rfl

/-- **The keys of the records** are those that their rows have. -/
theorem pageKeys_eq (s : IndexLayers.Stack R M RecordId IV SV P Int64) (orderBy : FieldRef) :
    A.pageKeys s orderBy = ((A.tables rest).rows (fun _ => s) 0).map fun row =>
      (row.1, pageKey row.2 orderBy) := by
  have hLive : ∀ id ∈ allIds s, (IndexLayers.get s id).isSome = true := fun id hMem =>
    (IndexLayers.mem_allIds s id).mp hMem
  rw [rows_eq, pageKeys, filterMap_get hLive _ fun id => (id, noPageKey), List.map_map]
  refine List.map_congr_left fun id hMem => ?_
  obtain ⟨r, hSome⟩ := Option.isSome_iff_exists.mp (hLive id hMem)
  show _ = ((rowOf A s id).1, pageKey (rowOf A s id).2 orderBy)
  rw [rowOf, hSome, Option.map_some, Option.map_some, Option.getD_some, Option.getD_some]
  cases hKey : A.keyOf orderBy r with
  | none => rfl
  | some key => rw [Option.getD_some, A.keyOf_eq hKey]

/-- A page of the scan, run. -/
theorem run_page_scanning (taken : Bool) (orderBy : FieldRef)
    (after : Option (ScanValue × RecordId)) (limit : Nat)
    (w : Contents fun _ : Fin 1 => IndexLayers.Stack R M RecordId IV SV P Int64) :
    Program.run ((A.scanning rest).answer taken) ((A.scanning rest).page 0 orderBy after limit) w =
      (.ok ((pageIds (((A.tables rest).rows w 0).map fun row => (row.1, pageKey row.2 orderBy))
        after limit).filterMap
        fun id => ((A.tables rest).live w 0 id).map fun fields => (id, fields)), w) := by
  have hOrdered : ¬ ((A.scanning rest).store 0).orderedBy = some orderBy :=
    (Option.some_ne_none orderBy).symm
  unfold Tables.page
  rw [if_neg hOrdered]
  show Program.run _ (Tables.pageByScan 0 orderBy after limit >>= _) w = _
  rw [Program.run_bind, Tables.pageByScan, Program.run_bind, Tables.run_scanAll, Tables.run_getAll]
  rfl

variable (hExact : IndexLayers.Exact (.ordered A.marker index inner))

include hExact

theorem get_of_mem {pair : Int64 ×ₗ RecordId} (h : pair ∈ index) :
    ∃ r, IndexLayers.get (.ordered A.marker index inner) (ofLex pair).2 = some r ∧
      orderKey A.marker r = (ofLex pair).1 :=
  (hExact.2 (ofLex pair).1 (ofLex pair).2).mp h

/-- A record's row is behind the pair that the index has of it. -/
theorem cursorOf_rowOf {pair : Int64 ×ₗ RecordId} (h : pair ∈ index) :
    A.cursorOf (A.rowOf (.ordered A.marker index inner) (ofLex pair).2) =
      (.i64 (ofLex pair).1, (ofLex pair).2) := by
  obtain ⟨r, hSome, hKey⟩ := get_of_mem hExact h
  rw [cursorOf, rowOf, hSome, Option.map_some, Option.getD_some, A.find_tag, Option.map_some,
    Option.getD_some, hKey]

theorem pageKey_rowOf {pair : Int64 ×ₗ RecordId} (h : pair ∈ index) :
    pageKey (A.rowOf (.ordered A.marker index inner) (ofLex pair).2).2 A.tag =
      (ofLex pair).1.toInt := by
  obtain ⟨r, hSome, hKey⟩ := get_of_mem hExact h
  rw [rowOf, hSome, Option.map_some, Option.getD_some, pageKey, A.find_tag, hKey]
  rfl

/-- The index has every id once. -/
theorem ids_perm : ((index.sort (· ≤ ·)).map fun pair => (ofLex pair).2).Perm
    (allIds (.ordered A.marker index inner)) := by
  refine (List.perm_ext_iff_of_nodup ?_ (IndexLayers.nodup_allIds _)).mpr fun id => ?_
  · refine (Finset.sort_nodup ..).map_on fun a ha b hb hEq => ?_
    obtain ⟨r, hSome, hKey⟩ := get_of_mem hExact ((Finset.mem_sort _).mp ha)
    obtain ⟨r', hSome', hKey'⟩ := get_of_mem hExact ((Finset.mem_sort _).mp hb)
    rw [hEq, hSome', Option.some.injEq] at hSome
    exact ofLex.injective (Prod.ext (by rw [← hKey, ← hKey', hSome]) hEq)
  · rw [IndexLayers.mem_allIds, List.mem_map]
    constructor
    · rintro ⟨pair, hMem, rfl⟩
      obtain ⟨r, hSome, -⟩ := get_of_mem hExact ((Finset.mem_sort _).mp hMem)
      rw [hSome]
      rfl
    · intro hLive
      obtain ⟨r, hSome⟩ := Option.isSome_iff_exists.mp hLive
      exact ⟨toLex (orderKey A.marker r, id),
        (Finset.mem_sort _).mpr ((hExact.2 _ _).mpr ⟨r, hSome, rfl⟩), rfl⟩

/-- The page of a cursor that is `after` is the one that is picked from the keys of all the records.
-/
theorem pageIds_rows (after : Option (Int64 × RecordId)) (limit : Nat) :
    pageIds (((A.tables rest).rows (fun _ => .ordered A.marker index inner) 0).map fun row =>
        (row.1, pageKey row.2 A.tag)) (after.map fun cursor => (.i64 cursor.1, cursor.2)) limit =
      IndexLayers.pageBy index after limit := by
  refine pageIds_eq ?_ after limit
  rw [rows_eq, List.map_map, List.map_map]
  refine ((ids_perm hExact).symm.map _).trans (List.Perm.of_eq ?_)
  rw [List.map_map]
  refine List.map_congr_left fun pair hMem => ?_
  exact Prod.ext (pageKey_rowOf hExact ((Finset.mem_sort _).mp hMem)) rfl

/-- Every id of a page has its row. -/
theorem filterMap_live (after : Option (Int64 × RecordId)) (limit : Nat) :
    ((IndexLayers.pageBy index after limit).filterMap fun id =>
      ((A.tables rest).live (fun _ => .ordered A.marker index inner) 0 id).map fun fields =>
        (id, fields)) =
      (IndexLayers.pageBy index after limit).map (A.rowOf (.ordered A.marker index inner)) := by
  have hLive : ∀ id ∈ IndexLayers.pageBy index after limit,
      (IndexLayers.get (.ordered A.marker index inner) id).isSome = true := by
    intro id hMem
    rw [pageBy_eq] at hMem
    obtain ⟨pair, hPair, rfl⟩ := List.mem_map.mp hMem
    obtain ⟨r, hSome, -⟩ := get_of_mem hExact (Pages.mem_of_mem_page hPair)
    rw [hSome]
    rfl
  have hEach := filterMap_get hLive (fun id r => (id, A.domain.fieldsOf r)) fun id => (id, [])
  refine (List.filterMap_congr fun id _ => ?_).trans
    (hEach.trans (List.map_congr_left fun id hMem => ?_))
  · show ((IndexLayers.get _ id).map A.domain.fieldsOf).map _ = _
    rw [Option.map_map]
    rfl
  · obtain ⟨r, hSome⟩ := Option.isSome_iff_exists.mp (hLive id hMem)
    rw [rowOf, hSome]
    rfl

/-- A page of the index, run. -/
theorem run_page (taken : Bool) (after : Option (Int64 × RecordId)) (limit : Nat) :
    Program.run ((A.tables rest).answer taken)
        ((A.tables rest).page 0 A.tag (after.map fun cursor => (.i64 cursor.1, cursor.2)) limit)
        (fun _ => .ordered A.marker index inner) =
      (.ok ((IndexLayers.pageBy index after limit).map (A.rowOf (.ordered A.marker index inner))),
        fun _ => .ordered A.marker index inner) := by
  have hRows : ((IndexLayers.pageBy index after limit).filterMap fun id =>
      ((A.tables rest).live (fun _ => .ordered A.marker index inner) 0 id).map fun fields =>
        (id, fields)) = _ :=
    filterMap_live hExact after limit
  have hOrdered : ((A.tables rest).store 0).orderedBy = some A.tag := rfl
  unfold Tables.page
  rw [if_pos hOrdered]
  cases after with
  | none =>
    show Program.run _ (Tables.read 0 (.pageBy none limit) >>= _) _ = _
    rw [Tables.run_read_bind]
    show Program.run _ (Tables.getAll 0 (IndexLayers.pageBy index none limit) >>= _) _ = _
    rw [Program.run_bind, Tables.run_getAll, hRows]
    rfl
  | some cursor =>
    show Program.run _ (Tables.read 0 (.pageBy (some cursor) limit) >>= _) _ = _
    rw [Tables.run_read_bind]
    show Program.run _ (Tables.getAll 0 (IndexLayers.pageBy index (some cursor) limit) >>= _) _ = _
    rw [Program.run_bind, Tables.run_getAll, hRows]
    rfl

end Index

/-! ## The two paths -/

section Paths

variable {A} {rest : ConnectionStore (IndexLayers.Stack R M RecordId IV SV P Int64)}
  {index : Finset (Int64 ×ₗ RecordId)} {inner : IndexLayers.Stack R M RecordId IV SV P Int64}

/-- A cursor of the table's order that passes its check is one of the index. -/
theorem after_of_validatePage {after : Option (ScanValue × RecordId)} {limit : UInt64}
    (h : validatePage A.domain.schema A.tag after limit = .ok ()) :
    ∃ cursor : Option (Int64 × RecordId), after = cursor.map fun cursor =>
      (.i64 cursor.1, cursor.2) := by
  cases after with
  | none => exact ⟨none, rfl⟩
  | some cursor =>
    obtain ⟨value, id⟩ := cursor
    cases value with
    | i64 stamp => exact ⟨some (stamp, id), rfl⟩
    | u32 _ | bool _ | str _ | f64 _ | strList _ =>
      exfalso
      unfold validatePage at h
      rw [A.kind_tag] at h
      cases h

/-- **The index changes no page.** -/
theorem dispatch_page (hExact : IndexLayers.Exact (.ordered A.marker index inner)) (taken : Bool)
    (orderBy : FieldRef) (after : Option (ScanValue × RecordId)) (limit : UInt64) :
    Program.run ((A.tables rest).answer taken)
        ((A.tables rest).dispatch 0 (.page orderBy after limit))
        (fun _ => .ordered A.marker index inner) =
      Program.run ((A.scanning rest).answer taken)
        ((A.scanning rest).dispatch 0 (.page orderBy after limit))
        (fun _ => .ordered A.marker index inner) := by
  have hPage (hValid : validatePage A.domain.schema orderBy after limit = .ok ()) :
      Program.run ((A.tables rest).answer taken) ((A.tables rest).page 0 orderBy after limit.toNat)
          (fun _ => .ordered A.marker index inner) =
        Program.run ((A.scanning rest).answer taken)
          ((A.scanning rest).page 0 orderBy after limit.toNat)
          (fun _ => .ordered A.marker index inner) := by
    by_cases hTag : orderBy = A.tag
    · subst hTag
      obtain ⟨cursor, rfl⟩ := after_of_validatePage hValid
      rw [run_page hExact, run_page_scanning, pageIds_rows hExact, filterMap_live hExact]
    · have hOther : ¬ ((A.tables rest).store 0).orderedBy = some orderBy :=
        fun h => hTag (Option.some.inj h).symm
      have hNone : ¬ ((A.scanning rest).store 0).orderedBy = some orderBy :=
        (Option.some_ne_none orderBy).symm
      unfold Tables.page
      rw [if_neg hOther, if_neg hNone]
      rfl
  rcases hValid : validatePage A.domain.schema orderBy after limit with code | _
  · have hHere : validatePage ((A.tables rest).store 0).describe orderBy after limit =
      .error code := hValid
    have hThere : validatePage ((A.scanning rest).store 0).describe orderBy after limit =
      .error code := hValid
    unfold Tables.dispatch
    dsimp only
    rw [hHere, hThere]
    rfl
  · have hHere : validatePage ((A.tables rest).store 0).describe orderBy after limit = .ok () :=
      hValid
    have hThere : validatePage ((A.scanning rest).store 0).describe orderBy after limit = .ok () :=
      hValid
    unfold Tables.dispatch
    dsimp only
    rw [hHere, hThere]
    dsimp only
    rw [Program.run_bind, Program.run_bind, hPage hValid]
    rfl

/-- A client reads the pages of the index. -/
theorem reads_readPage (hExact : IndexLayers.Exact (.ordered A.marker index inner)) :
    Pages.Reads (A.readPage rest (.ordered A.marker index inner)) A.cursorOf index
      fun pair => A.rowOf (.ordered A.marker index inner) (ofLex pair).2 := by
  intro after hAfter limit
  have hCursor :
      (after.map fun pair => A.cursorOf (A.rowOf (.ordered A.marker index inner) (ofLex pair).2)) =
      (after.map ofLex).map fun cursor => (.i64 cursor.1, cursor.2) := by
    cases after with
    | none => rfl
    | some pair => exact congrArg some (cursorOf_rowOf hExact (hAfter pair rfl))
  have hLex : (after.map ofLex).map toLex = after := by
    rw [Option.map_map]
    exact Option.map_id_apply
  have hPage : Program.run ((A.tables rest).answer true) ((A.tables rest).page 0 A.tag _ limit) _ =
      _ :=
    run_page hExact true (after.map ofLex) limit
  rw [← hCursor, pageBy_eq, hLex, List.map_map] at hPage
  exact congrArg (fun result => result.1.toOption.getD []) hPage

/-- The pages that a client gets who starts at the front and passes the last row's key and id as the
next cursor. -/
def walk (A : OrderedTable R V M IV SV P)
    (rest : ConnectionStore (IndexLayers.Stack R M RecordId IV SV P Int64))
    (s : IndexLayers.Stack R M RecordId IV SV P Int64) (limits : List Nat) : List (List PageRow) :=
  Pages.walk (A.readPage rest s) A.cursorOf none limits

/-- What a client learns that walks through a table: the pages are those of one list, which has
every row of the table once, in the order of key and id; an empty page comes when that list is at
its end, and only then. -/
structure Lists (A : OrderedTable R V M IV SV P)
    (rest : ConnectionStore (IndexLayers.Stack R M RecordId IV SV P Int64))
    (s : IndexLayers.Stack R M RecordId IV SV P Int64) (rows : List PageRow) : Prop where
  perm : rows.Perm ((A.tables rest).rows (fun _ => s) 0)
  sorted : rows.Pairwise fun a b =>
    pageBefore (pageKey a.2 A.tag, a.1) (pageKey b.2 A.tag, b.1) = true
  flatten_walk limits : (A.walk rest s limits).flatten = rows.take limits.sum
  flatten_of_nil_mem limits : (∀ limit ∈ limits, 0 < limit) → [] ∈ A.walk rest s limits →
    (A.walk rest s limits).flatten = rows
  nil_mem limits : rows.length < limits.length → [] ∈ A.walk rest s limits

theorem lists_sorted (hExact : IndexLayers.Exact (.ordered A.marker index inner)) :
    A.Lists rest (.ordered A.marker index inner)
      ((index.sort (· ≤ ·)).map fun pair =>
        A.rowOf (.ordered A.marker index inner) (ofLex pair).2) where
  perm := by
    rw [rows_eq]
    have hPerm := (ids_perm hExact).map (A.rowOf (.ordered A.marker index inner))
    rwa [List.map_map] at hPerm
  sorted := by
    refine List.pairwise_map.mpr
      ((Finset.sortedLT_sort index).pairwise.imp_of_mem fun {a b} ha hb hLt => ?_)
    rw [pageKey_rowOf hExact ((Finset.mem_sort _).mp ha),
      pageKey_rowOf hExact ((Finset.mem_sort _).mp hb), pageBefore_iff]
    exact (wide_lt_iff a b).mpr hLt
  flatten_walk limits := by rw [walk, Pages.flatten_walk (reads_readPage hExact), List.map_take]
  flatten_of_nil_mem limits hLimits hNil :=
    Pages.flatten_of_nil_mem (reads_readPage hExact) hLimits hNil
  nil_mem limits hMany := by
    rw [List.length_map, Finset.length_sort] at hMany
    exact Pages.nil_mem_walk (reads_readPage hExact) hMany

end Paths

/-- The rows of a walk are the sorted rows of the table. -/
theorem Lists.of_perm {A : OrderedTable R V M IV SV P}
    {rest : ConnectionStore (IndexLayers.Stack R M RecordId IV SV P Int64)}
    {s : IndexLayers.Stack R M RecordId IV SV P Int64} {rows : List PageRow}
    (h : A.Lists rest s rows) (sorted : List PageRow)
    (hPerm : sorted.Perm ((A.tables rest).rows (fun _ => s) 0))
    (hSorted : sorted.Pairwise fun a b =>
      pageBefore (pageKey a.2 A.tag, a.1) (pageKey b.2 A.tag, b.1) = true) :
    A.Lists rest s sorted := by
  have hEq : rows = sorted := by
    refine (h.perm.trans hPerm.symm).eq_of_pairwise (fun a b _ _ hab hba => ?_) h.sorted hSorted
    exact absurd ((pageBefore_iff _ _).mp hba) (lt_asymm ((pageBefore_iff _ _).mp hab))
  rwa [← hEq]

/-- **Pages.** Whatever was written to a table that keeps an order, `page_keys` has the keys of the
rows; every request for a page is answered as it is without the sorted index; and a walk through the
pages reads every record once, in order, and then ends. -/
theorem pages [IndexLayers.Separate R]
    (rest : ConnectionStore (IndexLayers.Stack R M RecordId IV SV P Int64)) (taken : Bool)
    (own : Option M) (layers : List (IndexLayers.Layer M)) {records : List R}
    (hNodup : (records.map RecordFields.id).Nodup)
    (writes : List (IndexLayers.Write R M RecordId SV)) :
    let s : IndexLayers.Stack R M RecordId IV SV P Int64 :=
      IndexLayers.run (IndexLayers.build own (.ordered A.marker :: layers) records) writes
    (∀ orderBy, A.pageKeys s orderBy =
      ((A.tables rest).rows (fun _ => s) 0).map fun row => (row.1, pageKey row.2 orderBy)) ∧
    (∀ orderBy after limit,
      Program.run ((A.tables rest).answer taken)
      ((A.tables rest).dispatch 0 (.page orderBy after limit)) (fun _ => s) =
      Program.run ((A.scanning rest).answer taken)
        ((A.scanning rest).dispatch 0 (.page orderBy after limit)) fun _ => s) ∧
    ∃ rows, A.Lists rest s rows := by
  intro s
  have hBuilt : IndexLayers.Built (IndexLayers.build own (.ordered A.marker :: layers) records :
      IndexLayers.Stack R M RecordId IV SV P Int64) records _ :=
    IndexLayers.built_build own (.ordered A.marker :: layers) hNodup
  obtain ⟨hExact, hLayers⟩ : IndexLayers.Exact s ∧ IndexLayers.layersOf s =
      IndexLayers.layersOf (IndexLayers.build own (.ordered A.marker :: layers) records) :=
    IndexLayers.exact_run hBuilt.exact writes
  rw [hBuilt.layers] at hLayers
  obtain ⟨index, inner, hShape⟩ : ∃ index inner, s = .ordered A.marker index inner := by
    generalize s = s at hLayers
    cases s with
    | ordered m index inner =>
      obtain ⟨⟨rfl⟩, -⟩ := List.cons.inj hLayers
      exact ⟨index, inner, rfl⟩
    | base | indexed | scanned | nameIndex | reversed => cases hLayers
  rw [hShape] at hExact ⊢
  exact ⟨pageKeys_eq _, dispatch_page hExact taken, _, lists_sorted hExact⟩

end OrderedTable

/-! ## The two tables -/

namespace Relation

/-- The one field that is updated in place is the one that orders the table. -/
inductive Marker where
  | updatedAtField
  deriving DecidableEq

instance : RecordFields Relation Marker RecordId String Int64 RecordId Int64 where
  id r := r.id
  indexedValue _ r := r.subject
  scannableValue _ r := r.updatedAtUnixMs
  setScannableValue _ v r := { r with updatedAtUnixMs := v }
  indexKeys _ := []
  normalize name := name
  parentId _ _ := none
  orderKey _ r := r.updatedAtUnixMs
  id_set _ _ _ := rfl
  value_set _ _ _ := rfl
  set_set _ _ _ _ := rfl
  set_value _ _ := rfl

instance : IndexLayers.Separate Relation where
  indexedValue_set _ _ _ _ := rfl
  indexKeys_set _ _ _ := rfl
  parentId_set _ _ _ _ := rfl
  scannableValue_set | .updatedAtField, .updatedAtField, _, _, h => absurd rfl h
  orderKey_set | .updatedAtField, .updatedAtField, _, _, h => absurd rfl h
  set_comm | .updatedAtField, .updatedAtField, _, _, _, h => absurd rfl h

def pageKeyOf (orderBy : FieldRef) (r : Relation) : Option Int :=
  if orderBy = FIELD_CREATED_AT then some r.createdAtUnixMs.toInt
  else if orderBy = FIELD_UPDATED_AT then some r.updatedAtUnixMs.toInt
  else if orderBy = FIELD_DELETED_AT then some r.deletedAtUnixMs.toInt
  else none

theorem find_updatedAt (r : Relation) :
    (domain.fieldsOf r).find? (fun f => f.1 = FIELD_UPDATED_AT) =
    some (FIELD_UPDATED_AT, .i64 r.updatedAtUnixMs) := rfl

def orderedTable : OrderedTable Relation Int64 Marker String Int64 RecordId where
  domain := domain
  marker := .updatedAtField
  tag := FIELD_UPDATED_AT
  kind_tag := rfl
  find_tag := find_updatedAt
  keyOf := pageKeyOf
  keyOf_eq {orderBy r key} h := by
    unfold pageKeyOf at h
    split at h
    · next hTag =>
      subst hTag
      exact Option.some.inj h
    · split at h
      · next hTag =>
        subst hTag
        exact Option.some.inj h
      · split at h
        · next hTag =>
          subst hTag
          exact Option.some.inj h
        · cases h

def first : Relation := ⟨Uuid.ofNat 1, "a", "knows", "b", 1, 5, "", 0⟩

def second : Relation := ⟨Uuid.ofNat 2, "b", "knows", "c", 2, 7, "", 0⟩

/-- Two relations, the first of which was moved behind the second. -/
def moved : IndexLayers.Stack Relation Marker RecordId String Int64 RecordId Int64 :=
  IndexLayers.run
    (IndexLayers.build (some .updatedAtField) [.ordered .updatedAtField] [first, second])
    [.update .updatedAtField (Uuid.ofNat 1) 9]

end Relation

namespace Memory

/-- The field that is updated in place, and the one that orders the table. -/
inductive Marker where
  | accessCountField
  | updatedAtOrder
  deriving DecidableEq

def valueOf (r : Memory) : Marker → Int64
  | .accessCountField => r.accessCount
  | .updatedAtOrder => r.updatedAtUnixMs

def setValue (v : Int64) (r : Memory) : Marker → Memory
  | .accessCountField => { r with accessCount := v }
  | .updatedAtOrder => { r with updatedAtUnixMs := v }

instance : RecordFields Memory Marker RecordId String Int64 RecordId Int64 where
  id r := r.id
  indexedValue _ r := r.category
  scannableValue m r := r.valueOf m
  setScannableValue m v r := r.setValue v m
  indexKeys _ := []
  normalize name := name
  parentId _ _ := none
  orderKey m r := r.valueOf m
  id_set m _ _ := by cases m <;> rfl
  value_set m _ _ := by cases m <;> rfl
  set_set m _ _ _ := by cases m <;> rfl
  set_value m _ := by cases m <;> rfl

instance : IndexLayers.Separate Memory where
  indexedValue_set _ f _ _ := by cases f <;> rfl
  indexKeys_set _ _ _ := rfl
  parentId_set _ _ _ _ := rfl
  scannableValue_set m f _ _ h := by
    cases m <;> cases f <;> first | exact absurd rfl h | rfl
  orderKey_set m f _ _ h := by
    cases m <;> cases f <;> first | exact absurd rfl h | rfl
  set_comm m f _ _ _ h := by
    cases m <;> cases f <;> first | exact absurd rfl h | rfl

def pageKeyOf (orderBy : FieldRef) (r : Memory) : Option Int :=
  if orderBy = FIELD_CREATED_AT then some r.createdAtUnixMs.toInt
  else if orderBy = FIELD_UPDATED_AT then some r.updatedAtUnixMs.toInt
  else if orderBy = FIELD_ACCESS_COUNT then some r.accessCount.toInt
  else if orderBy = FIELD_DELETED_AT then some r.deletedAtUnixMs.toInt
  else none

theorem find_updatedAt (r : Memory) : (domain.fieldsOf r).find? (fun f => f.1 = FIELD_UPDATED_AT) =
    some (FIELD_UPDATED_AT, .i64 r.updatedAtUnixMs) := rfl

def orderedTable : OrderedTable Memory Int64 Marker String Int64 RecordId where
  domain := domain
  marker := .updatedAtOrder
  tag := FIELD_UPDATED_AT
  kind_tag := rfl
  find_tag := find_updatedAt
  keyOf := pageKeyOf
  keyOf_eq {orderBy r key} h := by
    unfold pageKeyOf at h
    split at h
    · next hTag =>
      subst hTag
      exact Option.some.inj h
    · split at h
      · next hTag =>
        subst hTag
        exact Option.some.inj h
      · split at h
        · next hTag =>
          subst hTag
          exact Option.some.inj h
        · split at h
          · next hTag =>
            subst hTag
            exact Option.some.inj h
          · cases h

def first : Memory :=
  ⟨Uuid.ofNat 1, "tea", "note", [], "", "", 1, 6, "fact", "live", false, 0, 0, ""⟩

def second : Memory :=
  ⟨Uuid.ofNat 2, "rain", "note", [], "", "", 2, 4, "fact", "live", false, 0, 0, ""⟩

/-- A memory that was read once, and a second that was inserted before it in the order. -/
def overtaken : IndexLayers.Stack Memory Marker RecordId String Int64 RecordId Int64 :=
  IndexLayers.run
    (IndexLayers.build (some .accessCountField) [.ordered .updatedAtOrder] [first])
    [.update .accessCountField (Uuid.ofNat 1) 1, .insert none second]

end Memory

namespace OrderedTable

/-- An adapter that writes nothing, for examples. -/
def unwritten {R S M IV SV P : Type} (store : ConnectionStore S) (start : S) :
    ConnectionStore (IndexLayers.Stack R M RecordId IV SV P Int64) :=
  { store with
    read := fun r _ => r.nothing
    write := fun w s => ((store.write w start).1, s) }

def unwrittenRelations :
    ConnectionStore
      (IndexLayers.Stack Relation Relation.Marker RecordId String Int64 RecordId Int64) :=
  unwritten (Relation.table false (fun r _ => r.nothing) fun _ => ⟨0, 0, 0, 0⟩).store Stack.empty

def unwrittenMemories :
    ConnectionStore (IndexLayers.Stack Memory Memory.Marker RecordId String Int64 RecordId Int64) :=
  unwritten (Memory.table false (fun r _ => r.nothing) fun _ => ⟨0, 0, 0, 0⟩).store Stack.empty

/-- The keys, the answers to pages and the walk of a table of two relations, and of one of two
memories. -/
theorem pages_of_two :
    (Relation.orderedTable.pageKeys Relation.moved Relation.FIELD_CREATED_AT =
        [(Uuid.ofNat 1, 1), (Uuid.ofNat 2, 2)] ∧
      (∀ orderBy after limit,
        Program.run ((Relation.orderedTable.tables unwrittenRelations).answer true)
          ((Relation.orderedTable.tables unwrittenRelations).dispatch 0 (.page orderBy after limit))
          (fun _ => Relation.moved) =
        Program.run ((Relation.orderedTable.scanning unwrittenRelations).answer true)
          ((Relation.orderedTable.scanning unwrittenRelations).dispatch 0
            (.page orderBy after limit))
          fun _ => Relation.moved) ∧
      (Relation.orderedTable.walk unwrittenRelations Relation.moved [1, 1]).flatten.map (·.1) =
        [Uuid.ofNat 2, Uuid.ofNat 1]) ∧
    Memory.orderedTable.pageKeys Memory.overtaken Memory.FIELD_ACCESS_COUNT =
        [(Uuid.ofNat 2, 0), (Uuid.ofNat 1, 1)] ∧
      (∀ orderBy after limit,
        Program.run ((Memory.orderedTable.tables unwrittenMemories).answer true)
          ((Memory.orderedTable.tables unwrittenMemories).dispatch 0 (.page orderBy after limit))
          (fun _ => Memory.overtaken) =
        Program.run ((Memory.orderedTable.scanning unwrittenMemories).answer true)
          ((Memory.orderedTable.scanning unwrittenMemories).dispatch 0 (.page orderBy after limit))
          fun _ => Memory.overtaken) ∧
      (Memory.orderedTable.walk unwrittenMemories Memory.overtaken [1, 3]).flatten.map (·.1) =
        [Uuid.ofNat 2, Uuid.ofNat 1] := by
  constructor
  · obtain ⟨hKeys, hPage, rows, hRows⟩ : _ ∧ _ ∧ ∃ rows, _ :=
      Relation.orderedTable.pages unwrittenRelations true (some .updatedAtField) []
        (show ([Relation.first, Relation.second].map RecordFields.id).Nodup by decide)
        [.update .updatedAtField (Uuid.ofNat 1) 9]
    have hSorted := hRows.of_perm
      [(Uuid.ofNat 2, Relation.domain.fieldsOf Relation.second),
        (Uuid.ofNat 1, Relation.domain.fieldsOf { Relation.first with updatedAtUnixMs := 9 })]
      (by decide +kernel) (by decide +kernel)
    exact ⟨(hKeys _).trans (by decide +kernel), hPage,
      congrArg (List.map (·.1)) (hSorted.flatten_walk [1, 1])⟩
  · obtain ⟨hKeys, hPage, rows, hRows⟩ : _ ∧ _ ∧ ∃ rows, _ :=
      Memory.orderedTable.pages unwrittenMemories true (some .accessCountField) []
        (show ([Memory.first].map RecordFields.id).Nodup by decide)
        [.update .accessCountField (Uuid.ofNat 1) 1, .insert none Memory.second]
    have hSorted := hRows.of_perm
      [(Uuid.ofNat 2, Memory.domain.fieldsOf Memory.second),
        (Uuid.ofNat 1, Memory.domain.fieldsOf { Memory.first with accessCount := 1 })]
      (by decide +kernel) (by decide +kernel)
    exact ⟨(hKeys _).trans (by decide +kernel), hPage,
      congrArg (List.map (·.1)) (hSorted.flatten_walk [1, 3])⟩

end OrderedTable

end MultimodalDb
