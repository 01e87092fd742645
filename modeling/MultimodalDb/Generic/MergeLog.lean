import MultimodalDb.Generic.MmapMaps
import MultimodalDb.Generic.OrderCustomer
import MultimodalDb.Lib.Roster
import Mathlib.Data.List.InsertIdx

/-!
# Folding the log twice

What a fold of the log makes of a record list, its order included. An entry with a record lets its
id join, a tombstone lets it leave, so the ids of the folded list are a roster (`ids_mergeLog`), and
the records follow from the ids and the last writes (`eq_of_ids`).

A second fold of one log keeps every record. It keeps the order exactly when no id that was removed
and added again stands in front of an id that is new in the log.
-/

namespace MultimodalDb

open StoredRecord hiding id
open StoredRecord renaming id → idOf

namespace GenericMmapStore

variable {R Id IV SV : Type} [StoredRecord R Id IV SV] [DecidableEq Id]

/-- What a log entry does to the list of ids. -/
def attendance : LogEntry R Id → Roster.Event Id
  | .item record => .join (idOf record)
  | .tombstone key => .leave key

/-- One entry on the ids. -/
theorem ids_mergeEntry {records : List R} {places : AList (fun _ : Id => Nat)}
    (hIds : DistinctIds records) (hPlaces : Places records places) (entry : LogEntry R Id) :
    (mergeEntry (records, places) entry).1.map idOf =
      Roster.step (records.map idOf) (attendance entry) := by
  cases entry with
  | item record =>
    simp only [mergeEntry, attendance]
    cases hi : places.lookup (idOf record) with
    | none =>
      rw [Roster.step_join_new (hPlaces.lookup_none hi), List.map_append, List.map_singleton]
    | some i =>
      have hAt : (records.map (idOf : R → Id))[i]? = some (idOf record) := by
        rw [List.getElem?_map]
        exact (hPlaces _ i).mp hi
      obtain ⟨hIn, hGet⟩ := List.getElem?_eq_some_iff.mp hAt
      rw [Roster.step_join_mem (List.mem_of_getElem? hAt), List.map_set, ← hGet,
        List.set_getElem_self]
  | tombstone key =>
    simp only [mergeEntry, attendance, Roster.step]
    cases hi : places.lookup key with
    | none =>
      refine (List.filter_eq_self.mpr fun k hk => ?_).symm
      have hNe : k ≠ key := fun hEq => hPlaces.lookup_none hi (hEq ▸ hk)
      exact decide_eq_true hNe
    | some i =>
      have hAt : (records.map (idOf : R → Id))[i]? = some key := by
        rw [List.getElem?_map]
        exact (hPlaces key i).mp hi
      obtain ⟨hIn, hGet⟩ := List.getElem?_eq_some_iff.mp hAt
      rw [← List.eraseIdx_map, ← hIds.erase_getElem i hIn, hGet, hIds.erase_eq_filter]
      refine List.filter_congr fun k _ => ?_
      rw [decide_not]
      rfl

/-- **The ids of the folded list** are the roster of the log. -/
theorem ids_mergeLog {records : List R} (hIds : DistinctIds records)
    (logged : List (LogEntry R Id)) :
    (mergeLog records logged).map idOf =
      Roster.run (records.map idOf) (logged.map attendance) := by
  have hFold : ∀ (records : List R) (places : AList (fun _ : Id => Nat)), DistinctIds records →
      Places records places → (logged.foldl mergeEntry (records, places)).1.map idOf =
        Roster.run (records.map idOf) (logged.map attendance) := by
    induction logged with
    | nil => exact fun records places _ _ => rfl
    | cons entry logged ih =>
      intro records places hIds hPlaces
      obtain ⟨hIds', hPlaces', -⟩ := mergeEntry_step hIds hPlaces entry
      rw [List.foldl_cons, ih _ _ hIds' hPlaces', ids_mergeEntry hIds hPlaces, List.map_cons,
        Roster.run_cons]
  unfold mergeLog
  split
  · next hEmpty =>
    rw [List.isEmpty_iff.mp hEmpty]
    rfl
  · exact hFold records _ hIds (places_placesFrom hIds)

/-- Lists of distinct ids with the same ids in the same order and the same contents are one list. -/
theorem eq_of_ids {records others : List R} (hIds : DistinctIds records)
    (hSame : records.map (idOf : R → Id) = others.map idOf)
    (hContents : (contents records : Id → Option R) = contents others) : records = others := by
  have hOthers : DistinctIds others := by rwa [DistinctIds, ← hSame]
  have hLength : records.length = others.length := by
    simpa using congrArg List.length hSame
  refine List.ext_getElem hLength fun i hi hi' => ?_
  have hId : (idOf others[i] : Id) = idOf records[i] := by
    have hAt : (records.map (idOf : R → Id))[i]? = (others.map idOf)[i]? := by rw [hSame]
    simpa [hi, hi'] using hAt.symm
  have hHeld : contents records (idOf records[i]) = some records[i] :=
    (contents_eq_some_iff hIds).mpr ⟨List.getElem_mem hi, rfl⟩
  rw [hContents, ← hId, (contents_eq_some_iff hOthers).mpr ⟨List.getElem_mem hi', rfl⟩] at hHeld
  exact (Option.some.inj hHeld).symm

/-- What a list of distinct ids holds for an id is the one record of that id in it. -/
theorem find?_eq_contents {records : List R} (hIds : DistinctIds records) (k : Id) :
    records.find? (fun record => idOf record = k) = contents records k := by
  cases hFound : records.find? (fun record => idOf record = k) with
  | none =>
    refine (contents_eq_none_iff.mpr fun hMem => ?_).symm
    obtain ⟨record, hRecord, hId⟩ := List.mem_map.mp hMem
    exact absurd hId (by simpa using List.find?_eq_none.mp hFound record hRecord)
  | some record =>
    have hId : idOf record = k := by simpa using List.find?_some hFound
    exact ((contents_eq_some_iff hIds).mpr ⟨List.mem_of_find?_eq_some hFound, hId⟩).symm

/-- **Folding the log**: the folded list holds for an id the record of its last entry, nothing when
that is a tombstone and the base record when there is none, and no id twice. Folding the log once
more gives the same list exactly when no id that came back stands in front of one that is new. -/
theorem fold_of_log {records : List R} (hIds : DistinctIds records)
    (logged : List (LogEntry R Id)) :
    DistinctIds (mergeLog records logged) ∧
      (∀ k : Id, (mergeLog records logged).find? (fun record => idOf record = k) =
        (Overlay.last (logged.map written) k).getD
          (records.find? fun record => idOf record = k)) ∧
      (mergeLog (mergeLog records logged) logged = mergeLog records logged ↔
        ¬ Roster.Overtaken (records.map idOf) (logged.map attendance)) := by
  obtain ⟨hIds', hContents⟩ := mergeLog_spec hIds logged
  obtain ⟨hIds'', hContents'⟩ := mergeLog_spec hIds' logged
  refine ⟨hIds', fun k => ?_, ?_⟩
  · rw [find?_eq_contents hIds', find?_eq_contents hIds, hContents, Overlay.apply_eq]
  · have hOrder : mergeLog (mergeLog records logged) logged = mergeLog records logged ↔
        (mergeLog (mergeLog records logged) logged).map (idOf : R → Id) =
          (mergeLog records logged).map idOf := by
      refine ⟨fun h => by rw [h], fun h => eq_of_ids hIds'' h ?_⟩
      rw [hContents', hContents, Overlay.apply_apply]
    rw [hOrder, ids_mergeLog hIds', ids_mergeLog hIds, Roster.run_run_eq_iff]

/-- A replacement, and a removal: nothing was overtaken, as the next fold shows. -/
theorem fold_of_log_kept :
    ¬ Roster.Overtaken ([Order.sample 1 5, Order.sample 2 6].map (idOf : Order → Uuid))
      ([.item (Order.sample 2 7), .tombstone (Uuid.ofNat 1)].map attendance) :=
  (fold_of_log (by rw [DistinctIds]; decide)
    [.item (Order.sample 2 7), .tombstone (Uuid.ofNat 1)]).2.2.mp (by decide)

/-- Order 1 is removed and added again, then order 2 is added: the next fold swaps them. -/
theorem refold_swaps :
    DistinctIds [Order.sample 1 5] ∧
      let logged := [.tombstone (Uuid.ofNat 1), .item (Order.sample 1 6), .item (Order.sample 2 7)]
      mergeLog (mergeLog [Order.sample 1 5] logged) logged =
        [Order.sample 2 7, Order.sample 1 6] ∧
      mergeLog (mergeLog [Order.sample 1 5] logged) logged ≠
        mergeLog [Order.sample 1 5] logged := by
  rw [DistinctIds]
  decide

end GenericMmapStore

end MultimodalDb
