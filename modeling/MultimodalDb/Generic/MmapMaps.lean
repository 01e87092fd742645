import MultimodalDb.Generic.MmapStore
import MultimodalDb.Lib.MapPairs
import MultimodalDb.Lib.Overlay
import Mathlib.Data.List.Induction

/-!
# The maps of the generic store

What the store's three maps hold, in terms of the record list they were built from or of the map
before an operation. A list with distinct ids is the map `contents`; folding a log over it is laying
the log's writes over that map (`mergeLog_spec`); and the index is exact for a map of records when
each bucket lists the ids of its value once and no bucket is empty (`Buckets`).
-/

namespace MultimodalDb

open StoredRecord hiding id
open StoredRecord renaming id → idOf

namespace GenericMmapStore

variable {R Id IV SV : Type} [StoredRecord R Id IV SV] [DecidableEq Id]

/-! ## Record lists as maps -/

/-- What a record list holds for an id. -/
def contents (records : List R) (k : Id) : Option R := (recordMap records).lookup k

/-- The ids of a record list are pairwise distinct. -/
def DistinctIds (records : List R) : Prop := (records.map (idOf : R → Id)).Nodup

theorem contents_snoc (records : List R) (record : R) :
    contents (records ++ [record]) =
      Function.update (contents records) (idOf record) (some record) := by
  unfold contents recordMap
  simp only [List.foldl_append, List.foldl_cons, List.foldl_nil]
  exact MapPairs.lookup_insert_eq_update ..

theorem contents_eq_none_iff {records : List R} {k : Id} :
    contents records k = none ↔ k ∉ records.map idOf := by
  induction records using List.reverseRecOn with
  | nil => simp [contents, recordMap]
  | append_singleton records record ih =>
    rw [contents_snoc, List.map_append, List.mem_append, not_or, List.map_singleton,
      List.mem_singleton]
    by_cases hk : k = idOf record
    · simp [hk]
    · simp [hk, ih]

theorem contents_eq_some_iff {records : List R} (h : DistinctIds records) {k : Id} {record : R} :
    contents records k = some record ↔ record ∈ records ∧ idOf record = k := by
  induction records using List.reverseRecOn with
  | nil => simp [contents, recordMap]
  | append_singleton records other ih =>
    rw [DistinctIds, List.map_append, List.map_singleton, List.nodup_append] at h
    obtain ⟨hFront, -, hNew⟩ := h
    rw [contents_snoc, List.mem_append, List.mem_singleton]
    by_cases hk : k = idOf other
    · subst hk
      rw [Function.update_self, Option.some.injEq]
      constructor
      · rintro rfl
        exact ⟨Or.inr rfl, rfl⟩
      · rintro ⟨hMem | rfl, hId⟩
        · exact absurd hId (hNew _ (List.mem_map_of_mem hMem) _ (List.mem_singleton_self _))
        · rfl
    · rw [Function.update_of_ne hk, ih hFront]
      constructor
      · rintro ⟨hMem, hId⟩
        exact ⟨Or.inl hMem, hId⟩
      · rintro ⟨hMem | rfl, hId⟩
        · exact ⟨hMem, hId⟩
        · exact absurd hId.symm hk

/-! ## Places -/

/-- The map gives each id its place in the list. -/
def Places (records : List R) (places : AList (fun _ : Id => Nat)) : Prop :=
  ∀ k i, places.lookup k = some i ↔ (records[i]?).map idOf = some k

theorem Places.lookup_none {records : List R} {places : AList (fun _ : Id => Nat)}
    (h : Places records places) {k : Id} (hk : places.lookup k = none) : k ∉ records.map idOf := by
  intro hMem
  obtain ⟨i, hi⟩ := List.mem_iff_getElem?.mp hMem
  rw [List.getElem?_map] at hi
  rw [(h k i).mpr hi] at hk
  cases hk

/-- A record behind the list, with a new id, takes the next place. -/
theorem Places.snoc {records : List R} {places : AList (fun _ : Id => Nat)}
    (h : Places records places) {record : R} (hNew : idOf record ∉ records.map idOf) :
    Places (records ++ [record]) (places.insert (idOf record) records.length) := by
  intro k i
  by_cases hk : k = idOf record
  · subst hk
    rw [AList.lookup_insert, Option.some.injEq]
    constructor
    · rintro rfl
      simp
    · intro hi
      by_contra hne
      have hIn : i < records.length := by
        obtain ⟨r, hr, -⟩ := Option.map_eq_some_iff.mp hi
        have := (List.getElem?_eq_some_iff.mp hr).1
        rw [List.length_append, List.length_singleton] at this
        omega
      rw [List.getElem?_append_left hIn, ← List.getElem?_map] at hi
      exact hNew (List.mem_of_getElem? hi)
  · rw [AList.lookup_insert_ne hk, h k i]
    by_cases hIn : i < records.length
    · rw [List.getElem?_append_left hIn]
    · have hOut : (records[i]?).map idOf ≠ some k := by simp [List.getElem?_eq_none (not_lt.mp hIn)]
      refine iff_of_false hOut fun hi => ?_
      obtain ⟨r, hr, hId⟩ := Option.map_eq_some_iff.mp hi
      have hEnd := (List.getElem?_eq_some_iff.mp hr).1
      rw [List.length_append, List.length_singleton] at hEnd
      obtain rfl : i = records.length := by omega
      rw [List.getElem?_concat_length] at hr
      cases hr
      exact hk hId.symm

theorem places_placesFrom {records : List R} (h : DistinctIds records) :
    Places records (placesFrom 0 records) := by
  induction records using List.reverseRecOn with
  | nil =>
    intro k i
    simp [placesFrom]
  | append_singleton records record ih =>
    rw [DistinctIds, List.map_append, List.map_singleton, List.nodup_append] at h
    obtain ⟨hFront, -, hNew⟩ := h
    have hFold : placesFrom 0 (records ++ [record]) =
        (placesFrom 0 records).insert (idOf record) records.length := by
      simp [placesFrom, List.zipIdx_append]
    rw [hFold]
    exact (ih hFront).snoc fun hMem => hNew _ hMem _ (List.mem_singleton_self _) rfl

theorem lookup_shiftPlaces (i : Nat) (places : AList (fun _ : Id => Nat)) (k : Id) :
    (shiftPlaces i places).lookup k = (places.lookup k).map (fun p => if i < p then p - 1 else p) :=
  List.dlookup_map₂ (l := places.entries) (f := fun _ p => if i < p then p - 1 else p) k

/-- Removing the record at a place moves the later places down. -/
theorem Places.eraseIdx {records : List R}
    {places : AList (fun _ : Id => Nat)} (h : Places records places) {key : Id} {i : Nat}
    (hi : places.lookup key = some i) :
    Places (records.eraseIdx i) (shiftPlaces i (places.erase key)) := by
  intro k j
  have hKey := (h key i).mp hi
  rw [lookup_shiftPlaces, List.getElem?_eraseIdx]
  by_cases hk : k = key
  · subst hk
    rw [AList.lookup_erase, Option.map_none]
    refine iff_of_false (fun hNone => nomatch hNone) fun hj => ?_
    -- the removed id is nowhere else
    have hPlace : ∀ n, (records[n]?).map idOf = some k → n = i := fun n hn =>
      Option.some.inj (((h k n).mpr hn).symm.trans hi)
    split at hj
    · have := hPlace j hj
      omega
    · have := hPlace (j + 1) hj
      omega
  · rw [AList.lookup_erase_ne hk]
    have hNe : ∀ n, (records[n]?).map idOf = some k → n ≠ i := fun n hn hEq => by
      rw [hEq, hKey] at hn
      exact hk (Option.some.inj hn).symm
    constructor
    · intro hj
      obtain ⟨p, hp, rfl⟩ := Option.map_eq_some_iff.mp hj
      have hp := (h k p).mp hp
      have := hNe p hp
      by_cases hLt : i < p
      · rw [if_pos hLt, if_neg (by omega), Nat.sub_add_cancel (by omega)]
        exact hp
      · rw [if_neg hLt, if_pos (by omega)]
        exact hp
    · intro hj
      split at hj
      · next hLt =>
        rw [(h k j).mpr hj, Option.map_some, if_neg (by omega)]
      · next hLt =>
        have := hNe (j + 1) hj
        rw [(h k (j + 1)).mpr hj, Option.map_some, if_pos (by omega), Nat.add_sub_cancel]

/-! ## Folding the log -/

/-- A log entry as a write of the record map. -/
def written : LogEntry R Id → Id × Option R
  | .item record => (idOf record, some record)
  | .tombstone key => (key, none)

/-- One entry is one write. -/
theorem mergeEntry_step {records : List R} {places : AList (fun _ : Id => Nat)}
    (hIds : DistinctIds records) (hPlaces : Places records places) (entry : LogEntry R Id) :
    DistinctIds (mergeEntry (records, places) entry).1 ∧
      Places (mergeEntry (records, places) entry).1 (mergeEntry (records, places) entry).2 ∧
      contents (mergeEntry (records, places) entry).1 =
        Function.update (contents records) (written entry).1 (written entry).2 := by
  cases entry with
  | item record =>
    simp only [mergeEntry, written]
    cases hi : places.lookup (idOf record) with
    | none =>
      have hNew := hPlaces.lookup_none hi
      refine ⟨?_, hPlaces.snoc hNew, contents_snoc records record⟩
      rw [DistinctIds, List.map_append, List.map_singleton]
      exact List.nodup_append.mpr ⟨hIds, List.nodup_singleton _, fun a ha b hb hEq =>
        hNew (by rwa [← List.mem_singleton.mp hb, ← hEq])⟩
    | some i =>
      -- the record takes the place of the one it replaces
      have hAt := (hPlaces _ i).mp hi
      obtain ⟨old, hOld, hOldId⟩ := Option.map_eq_some_iff.mp hAt
      have hIn : i < records.length := (List.getElem?_eq_some_iff.mp hOld).1
      have hSame : (records.set i record).map (idOf : R → Id) = records.map idOf := by
        have hInMap : i < (records.map (idOf : R → Id)).length := by rwa [List.length_map]
        have hGet : (records.map (idOf : R → Id))[i] = idOf record := by
          rw [List.getElem_map, (List.getElem?_eq_some_iff.mp hOld).2, hOldId]
        rw [List.map_set, ← hGet, List.set_getElem_self]
      have hIds' : DistinctIds (records.set i record) := by rwa [DistinctIds, hSame]
      refine ⟨hIds', fun k j => ?_, ?_⟩
      · rw [← List.getElem?_map, hSame, List.getElem?_map]
        exact hPlaces k j
      · funext k
        by_cases hk : k = idOf record
        · subst hk
          rw [Function.update_self, contents_eq_some_iff hIds']
          exact ⟨List.mem_set hIn record, rfl⟩
        · rw [Function.update_of_ne hk]
          ext r
          rw [contents_eq_some_iff hIds', contents_eq_some_iff hIds]
          refine and_congr_left fun hr => ?_
          constructor
          · intro hMem
            rcases List.mem_or_eq_of_mem_set hMem with hMem | rfl
            · exact hMem
            · exact absurd hr.symm hk
          · intro hMem
            obtain ⟨j, hj⟩ := List.mem_iff_getElem?.mp hMem
            have hji : i ≠ j := fun hEq => by
              rw [← hEq, hOld] at hj
              cases hj
              exact hk (hr.symm.trans hOldId)
            exact List.mem_of_getElem? ((List.getElem?_set_ne hji).trans hj)
  | tombstone key =>
    simp only [mergeEntry, written]
    cases hi : places.lookup key with
    | none =>
      refine ⟨hIds, hPlaces, ?_⟩
      rw [← contents_eq_none_iff.mpr (hPlaces.lookup_none hi), Function.update_eq_self]
    | some i =>
      have hAt := (hPlaces _ i).mp hi
      obtain ⟨old, hOld, hOldId⟩ := Option.map_eq_some_iff.mp hAt
      have hIds' : DistinctIds (records.eraseIdx i) :=
        hIds.sublist ((List.eraseIdx_sublist records i).map _)
      refine ⟨hIds', hPlaces.eraseIdx hi, ?_⟩
      funext k
      ext r
      rw [contents_eq_some_iff hIds', List.mem_eraseIdx_iff_getElem?]
      by_cases hk : k = key
      · subst hk
        rw [Function.update_self]
        refine iff_of_false ?_ (fun hNone => nomatch hNone)
        rintro ⟨⟨j, hj, hr⟩, hId⟩
        have hPlace := (hPlaces k j).mpr (by rw [hr, Option.map_some, hId])
        exact hj (Option.some.inj (hPlace.symm.trans hi))
      · rw [Function.update_of_ne hk, contents_eq_some_iff hIds]
        refine and_congr_left fun hr => ?_
        constructor
        · rintro ⟨j, -, hj⟩
          exact List.mem_of_getElem? hj
        · intro hMem
          obtain ⟨j, hj⟩ := List.mem_iff_getElem?.mp hMem
          refine ⟨j, fun hEq => ?_, hj⟩
          rw [hEq, hOld] at hj
          cases hj
          exact hk (hr.symm.trans hOldId)

/-- **Folding the log** lays its writes over the records, and keeps the ids distinct. -/
theorem mergeLog_spec {records : List R} (hIds : DistinctIds records)
    (logged : List (LogEntry R Id)) :
    DistinctIds (mergeLog records logged) ∧
      contents (mergeLog records logged) =
        Overlay.apply (contents records) (logged.map written) := by
  have hFold : ∀ (records : List R) (places : AList (fun _ : Id => Nat)), DistinctIds records →
      Places records places → DistinctIds (logged.foldl mergeEntry (records, places)).1 ∧
        contents (logged.foldl mergeEntry (records, places)).1 =
          Overlay.apply (contents records) (logged.map written) := by
    induction logged with
    | nil => exact fun records places hIds _ => ⟨hIds, rfl⟩
    | cons entry logged ih =>
      intro records places hIds hPlaces
      obtain ⟨hIds', hPlaces', hContents⟩ := mergeEntry_step hIds hPlaces entry
      have h := ih _ _ hIds' hPlaces'
      rw [hContents] at h
      exact h
  unfold mergeLog
  split
  · next hEmpty =>
    rw [List.isEmpty_iff.mp hEmpty]
    exact ⟨hIds, rfl⟩
  · exact hFold records _ hIds (places_placesFrom hIds)

/-! ## Buckets -/

section Buckets

variable [DecidableEq IV]

/-- The index is exact for a map of records: a bucket lists the ids whose record has its value, each
once, and there is no bucket for a value no record has. -/
structure Buckets (m : Id → Option R) (index : AList (fun _ : IV => List Id)) : Prop where
  nonempty : ∀ value, index.lookup value ≠ some []
  nodup : ∀ value, ((index.lookup value).getD []).Nodup
  mem : ∀ value k, k ∈ (index.lookup value).getD [] ↔
    ∃ record, m k = some record ∧ indexedValue record = value

variable {m : Id → Option R} {index : AList (fun _ : IV => List Id)} {k : Id} {record : R}

omit [DecidableEq Id] in
theorem buckets_empty : Buckets (fun _ : Id => (none : Option R)) (∅ : AList _) where
  nonempty _ h := nomatch h
  nodup _ := List.nodup_nil
  mem _ _ := iff_of_false (fun h => nomatch h) (fun ⟨_, h, _⟩ => nomatch h)

omit [DecidableEq Id] in
theorem lookup_pushId (index : AList (fun _ : IV => List Id)) (pushed value : IV) (k : Id) :
    ((pushId index pushed k).lookup value).getD [] =
      (index.lookup value).getD [] ++ if value = pushed then [k] else [] := by
  unfold pushId
  by_cases h : value = pushed
  · subst h
    simp
  · simp [AList.lookup_insert_ne h, h]

theorem lookup_dropId (index : AList (fun _ : IV => List Id)) (dropped value : IV) (k : Id) :
    ((dropId index dropped k).lookup value).getD [] =
      if value = dropped then ((index.lookup value).getD []).filter (· ≠ k)
      else (index.lookup value).getD [] := by
  unfold dropId
  by_cases h : value = dropped
  · subst h
    rw [if_pos rfl]
    cases hBucket : index.lookup value with
    | none => simp [hBucket]
    | some bucket =>
      dsimp only
      split
      · next hEmpty =>
        rw [AList.lookup_erase, Option.getD_none, Option.getD_some, List.isEmpty_iff.mp hEmpty]
      · rw [AList.lookup_insert, Option.getD_some, Option.getD_some]
  · rw [if_neg h]
    split
    · rfl
    · dsimp only
      split
      · rw [AList.lookup_erase_ne h]
      · rw [AList.lookup_insert_ne h]

/-- A new record enters the bucket of its value. -/
theorem Buckets.push (h : Buckets m index) (hk : m k = none) (record : R) :
    Buckets (Function.update m k (some record)) (pushId index (indexedValue record) k) where
  nonempty value := by
    intro hEmpty
    unfold pushId at hEmpty
    by_cases hv : value = indexedValue record
    · subst hv
      simp at hEmpty
    · rw [AList.lookup_insert_ne hv] at hEmpty
      exact h.nonempty value hEmpty
  nodup value := by
    rw [lookup_pushId]
    split
    · refine List.nodup_append.mpr ⟨h.nodup value, List.nodup_singleton k, fun a ha b hb hEq => ?_⟩
      obtain ⟨r, hr, -⟩ := (h.mem value a).mp ha
      rw [hEq, List.mem_singleton.mp hb, hk] at hr
      cases hr
    · rw [List.append_nil]
      exact h.nodup value
  mem value j := by
    rw [lookup_pushId, List.mem_append, h.mem value j]
    by_cases hj : j = k
    · subst hj
      rw [Function.update_self, hk]
      by_cases hv : value = indexedValue record
      · simp [hv]
      · simp [hv, Ne.symm hv]
    · rw [Function.update_of_ne hj]
      by_cases hv : value = indexedValue record <;> simp [hv, hj]

/-- A record that goes leaves the bucket of its value. -/
theorem Buckets.drop (h : Buckets m index) (hk : m k = some record) :
    Buckets (Function.update m k none) (dropId index (indexedValue record) k) where
  nonempty value := by
    intro hEmpty
    unfold dropId at hEmpty
    split at hEmpty
    · exact h.nonempty value hEmpty
    · dsimp only at hEmpty
      by_cases hv : value = indexedValue record
      · subst hv
        split at hEmpty
        · simp at hEmpty
        · next hSome =>
          rw [AList.lookup_insert, Option.some.injEq] at hEmpty
          rw [hEmpty] at hSome
          simp at hSome
      · split at hEmpty
        · rw [AList.lookup_erase_ne hv] at hEmpty
          exact h.nonempty value hEmpty
        · rw [AList.lookup_insert_ne hv] at hEmpty
          exact h.nonempty value hEmpty
  nodup value := by
    rw [lookup_dropId]
    split
    · exact (h.nodup value).filter _
    · exact h.nodup value
  mem value j := by
    rw [lookup_dropId]
    by_cases hj : j = k
    · subst hj
      rw [Function.update_self]
      refine iff_of_false ?_ (fun ⟨_, hNone, _⟩ => nomatch hNone)
      split
      · simp
      · next hv =>
        rw [h.mem, hk]
        rintro ⟨r, hr, hValue⟩
        cases hr
        exact hv hValue.symm
    · rw [Function.update_of_ne hj, ← h.mem value j]
      split <;> simp [hj]

/-- A record may change in every field but the indexed one. -/
theorem Buckets.overwrite (h : Buckets m index) (hk : m k = some record) {new : R}
    (hValue : indexedValue new = indexedValue record) :
    Buckets (Function.update m k (some new)) index where
  nonempty := h.nonempty
  nodup := h.nodup
  mem value j := by
    rw [h.mem value j]
    by_cases hj : j = k
    · subst hj
      rw [Function.update_self, hk]
      simp [hValue]
    · rw [Function.update_of_ne hj]

theorem buckets_buildIndex {records : List R} (hIds : DistinctIds records) :
    Buckets (contents records) (buildIndex records) := by
  induction records using List.reverseRecOn with
  | nil => exact buckets_empty
  | append_singleton records record ih =>
    rw [DistinctIds, List.map_append, List.map_singleton, List.nodup_append] at hIds
    obtain ⟨hFront, -, hNew⟩ := hIds
    have hNone : contents records (idOf record) = none := contents_eq_none_iff.mpr fun hMem =>
      hNew _ hMem _ (List.mem_singleton_self _) rfl
    have hFold : buildIndex (records ++ [record]) =
        pushId (buildIndex records) (indexedValue record) (idOf record) := by
      simp [buildIndex]
    rw [hFold, contents_snoc]
    exact (ih hFront).push hNone record

end Buckets

end GenericMmapStore

end MultimodalDb
