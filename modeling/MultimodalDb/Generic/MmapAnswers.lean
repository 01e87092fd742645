import MultimodalDb.Generic.MmapReopen

/-!
# What a store answers

Everything a reader can ask of a represented store is decided by its view: `get` is the view, the
ids are those it answers, a filter lists the ids whose record has the value, and a scan returns the
scannable values of the live records in some order, by either of its two paths (`scan_perm`). Two
stores with one view therefore give the same answers (`sameAnswers_of_view`).
-/

namespace MultimodalDb

open StoredRecord hiding id
open StoredRecord renaming id → idOf
open SlotFile (LastCommitted image COMMITTED)

namespace GenericMmapStore

/-- A pass over a list in which no element panics. -/
theorem mapM_eq_filterMap {α β : Type} {l : List α} {f : α → Except Panic β} {g : α → Option β}
    (h : ∀ x ∈ l, ∃ y, g x = some y ∧ f x = .ok y) : l.mapM f = .ok (l.filterMap g) := by
  induction l with
  | nil => rfl
  | cons x l ih =>
    obtain ⟨y, hg, hf⟩ := h x (List.mem_cons_self ..)
    rw [List.mapM_cons, hf, ih fun z hz => h z (List.mem_cons_of_mem x hz),
      List.filterMap_cons_some hg]
    rfl

variable {R Id IV SV : Type} [StoredRecord R Id IV SV] [DecidableEq Id]
variable [MmapFieldValue Id] [MmapFieldValue SV] [DecidableEq IV]
variable {s s' : GenericMmapStore R Id IV SV} {path path' : Path} {slots slots' : List (Slot Id SV)}

theorem view_id (h : Rep s path slots) {k : Id} {record : R} (hk : view s k = some record) :
    idOf record = k := by
  cases hRecord : s.records.lookup k with
  | none =>
    rw [view_none hRecord] at hk
    cases hk
  | some stored =>
    obtain ⟨p, v, hAt⟩ := h.exists_at hRecord
    rw [h.view_at hAt] at hk
    cases hk
    rw [shape, id_set]
    exact h.ids k stored hRecord

theorem mem_allIds (h : Rep s path slots) (k : Id) : k ∈ allIds s ↔ view s k ≠ none := by
  rw [allIds, ← AList.mem_keys, Ne, h.view_eq_none_iff, AList.lookup_eq_none, not_not]

/-- The ids in the position map are the live ones. -/
theorem positionKeys_perm (h : Rep s path slots) : s.positionIndex.keys.Perm (allIds s) :=
  (List.perm_ext_iff_of_nodup s.positionIndex.keys_nodup s.records.keys_nodup).mpr fun k => by
    show k ∈ s.positionIndex.keys ↔ k ∈ s.records.keys
    rw [← AList.mem_keys, ← AList.mem_keys, h.keys]

/-! ## The position map as a list -/

/-- The entries of the position map, each with what it stands for. -/
theorem exists_at_of_mem (h : Rep s path slots) {e : (_ : Id) × Nat}
    (he : e ∈ s.positionIndex.entries) : ∃ record v, At s slots e.1 record e.2 v := by
  have hp : s.positionIndex.lookup e.1 = some e.2 := AList.mem_lookup_iff.mpr he
  have hMem : e.1 ∈ s.records := (h.keys e.1).mpr (AList.lookup_isSome.mp (by rw [hp]; rfl))
  obtain ⟨record, hRecord⟩ := Option.isSome_iff_exists.mp (AList.lookup_isSome.mpr hMem)
  obtain ⟨v, hv⟩ := h.last _ _ hp
  exact ⟨record, v, hRecord, hp, hv⟩

theorem nodup_positions (h : Rep s path slots) : (s.positionIndex.entries.map (·.2)).Nodup := by
  refine List.Nodup.map_on (fun e he e' he' hEq => ?_)
    (List.NodupKeys.nodup s.positionIndex.nodupKeys)
  obtain ⟨record, v, hAt⟩ := exists_at_of_mem h he
  obtain ⟨record', v', hAt'⟩ := exists_at_of_mem h he'
  by_cases hk : e.1 = e'.1
  · exact Sigma.ext hk (heq_of_eq hEq)
  · exact (hAt.ne_position hAt' hk hEq).elim

/-- The value in the slot at a position. -/
def valueAt (slots : List (Slot Id SV)) (p : Nat) : Option SV := (slots[p]?).map Slot.value

omit [DecidableEq Id] [MmapFieldValue Id] [MmapFieldValue SV] in
theorem filterMap_valueAt_range (slots : List (Slot Id SV)) :
    (List.range slots.length).filterMap (valueAt slots) = slots.map Slot.value := by
  induction slots using List.reverseRecOn with
  | nil => rfl
  | append_singleton slots t ih =>
    have hFront : (List.range slots.length).filterMap (valueAt (slots ++ [t])) =
        (List.range slots.length).filterMap (valueAt slots) :=
      List.filterMap_congr fun i hi => by
        rw [valueAt, List.getElem?_append_left (List.mem_range.mp hi), valueAt]
    rw [List.length_append, List.length_singleton, List.range_succ,
      List.filterMap_append, hFront, ih, List.map_append]
    simp [valueAt]

/-- The scannable values of the live records, position by position. -/
theorem positions_values (h : Rep s path slots) :
    ((s.positionIndex.entries.map (·.2)).filterMap (valueAt slots)).Perm
      ((allIds s).filterMap fun k => (view s k).map scannableValue) := by
  have hKeys : s.positionIndex.keys.filterMap (fun k => (view s k).map scannableValue) =
      (s.positionIndex.entries.map (·.2)).filterMap (valueAt slots) := by
    rw [AList.keys, List.keys, List.filterMap_map, List.filterMap_map]
    refine List.filterMap_congr fun e he => ?_
    obtain ⟨record, v, hAt⟩ := exists_at_of_mem h he
    simp only [Function.comp_apply]
    rw [h.view_at hAt, valueAt, hAt.2.2.1, Option.map_some, Option.map_some, scannableValue_shape]
  rw [← hKeys]
  exact (positionKeys_perm h).filterMap _

/-- When every slot is live, the positions are all there are. -/
theorem positions_perm_range (h : Rep s path slots)
    (hCount : s.positionIndex.entries.length = slots.length) :
    (s.positionIndex.entries.map (·.2)).Perm (List.range slots.length) := by
  refine (List.subperm_of_subset (nodup_positions h) fun p hp => ?_).perm_of_length_le ?_
  · obtain ⟨e, he, rfl⟩ := List.mem_map.mp hp
    obtain ⟨record, v, hAt⟩ := exists_at_of_mem h he
    exact List.mem_range.mpr (List.getElem?_eq_some_iff.mp hAt.2.2.1).1
  · rw [List.length_range, List.length_map, hCount]

/-- **A scan** returns the scannable values of the live records, whichever way it reads them. -/
theorem scan_perm (h : Rep s path slots) :
    ∃ values, scan s = .ok values ∧
      values.Perm ((allIds s).filterMap fun k => (view s k).map scannableValue) := by
  have hGapless : isGapless s = .ok (decide (s.positionIndex.entries.length = slots.length)) := by
    rw [isGapless, h.file, SlotFile.isGapless_image]
  unfold scan
  rw [hGapless]
  by_cases hCount : s.positionIndex.entries.length = slots.length
  · -- the fast path reads every slot of the file
    have hTail : ([] : Bytes).length < SlotFile.slotWidth Id SV := SlotFile.slotWidth_pos Id SV
    refine ⟨slots.map Slot.value, ?_, ?_⟩
    · simp only [bind, Except.bind, decide_eq_true hCount, if_true, pure, Except.pure]
      rw [h.file, SlotFile.slotBytes_image]
      simp only
      rw [Column.chunksExact_flat (SlotFile.slotWidth_pos Id SV) Slot.length_bytes slots
        hTail, List.map_map]
      refine congrArg Except.ok (List.map_congr_left fun t _ => ?_)
      rw [Function.comp_apply, Slot.slice_value, MmapFieldValue.readLe_writeLe]
    · rw [← filterMap_valueAt_range]
      exact ((positions_perm_range h hCount).filterMap _).symm.trans (positions_values h)
  · -- the other reads the live positions in order
    have hSorted := List.perm_insertionSort (· ≤ ·) (s.positionIndex.entries.map (·.2))
    refine ⟨_, ?_, (hSorted.filterMap (valueAt slots)).trans (positions_values h)⟩
    simp only [bind, Except.bind, decide_eq_false hCount, Bool.false_eq_true, if_false]
    refine mapM_eq_filterMap fun p hp => ?_
    obtain ⟨e, he, rfl⟩ := List.mem_map.mp (hSorted.mem_iff.mp hp)
    obtain ⟨record, v, hAt⟩ := exists_at_of_mem h he
    refine ⟨v, by rw [valueAt, hAt.2.2.1]; rfl, ?_⟩
    rw [h.file, SlotFile.readValue_image hAt.2.2.1]

/-! ## Two stores with one view -/

/-- The two stores give a reader the same answers: ids, records, filters and scans, the lists up to
their order. -/
structure SameAnswers (s s' : GenericMmapStore R Id IV SV) : Prop where
  ids : (allIds s').Perm (allIds s)
  get : ∀ k, get s' k = get s k
  filter : ∀ value, (filterEq s' value).Perm (filterEq s value)
  scan : ∃ values values', scan s = .ok values ∧ scan s' = .ok values' ∧ values'.Perm values

theorem mem_filterEq (h : Rep s path slots) (value : IV) (k : Id) :
    k ∈ filterEq s value ↔ ∃ record, view s k = some record ∧ indexedValue record = value := by
  rw [filterEq, h.buckets.mem value k]
  constructor
  · rintro ⟨record, hk, rfl⟩
    obtain ⟨p, v, hAt⟩ := h.exists_at hk
    exact ⟨_, h.view_at hAt, indexedValue_set v record⟩
  · rintro ⟨record, hk, rfl⟩
    cases hRecord : s.records.lookup k with
    | none =>
      rw [view_none hRecord] at hk
      cases hk
    | some stored =>
      obtain ⟨p, v, hAt⟩ := h.exists_at hRecord
      rw [h.view_at hAt] at hk
      cases hk
      exact ⟨stored, rfl, (indexedValue_set v stored).symm⟩

theorem allIds_perm (h : Rep s path slots) (h' : Rep s' path' slots') (hView : view s' = view s) :
    (allIds s').Perm (allIds s) :=
  (List.perm_ext_iff_of_nodup s'.records.keys_nodup s.records.keys_nodup).mpr fun k => by
    show k ∈ allIds s' ↔ k ∈ allIds s
    rw [mem_allIds h', mem_allIds h, hView]

theorem sameAnswers_of_view (h : Rep s path slots) (h' : Rep s' path' slots')
    (hView : view s' = view s) : SameAnswers s s' where
  ids := allIds_perm h h' hView
  get k := by rw [h'.get_eq, h.get_eq, hView]
  filter value := (List.perm_ext_iff_of_nodup (h'.buckets.nodup value) (h.buckets.nodup value)).mpr
    fun k => by
      show k ∈ filterEq s' value ↔ k ∈ filterEq s value
      rw [mem_filterEq h', mem_filterEq h, hView]
  scan := by
    obtain ⟨values, hScan, hPerm⟩ := scan_perm h
    obtain ⟨values', hScan', hPerm'⟩ := scan_perm h'
    refine ⟨values, values', hScan, hScan', hPerm'.trans (List.Perm.trans ?_ hPerm.symm)⟩
    rw [hView]
    exact (allIds_perm h h' hView).filterMap _

/-- The store answers every question from the records `m`. -/
structure Answers (s : GenericMmapStore R Id IV SV) (m : Id → Option R) : Prop where
  get : ∀ k, get s k = .ok (m k)
  ids : (allIds s).Nodup ∧ ∀ k, k ∈ allIds s ↔ m k ≠ none
  filter : ∀ value, (filterEq s value).Nodup ∧
    ∀ k, k ∈ filterEq s value ↔ ∃ record, m k = some record ∧ indexedValue record = value
  scan : ∃ values, scan s = .ok values ∧
    values.Perm ((allIds s).filterMap fun k => (m k).map scannableValue)

theorem Rep.answers (h : Rep s path slots) : Answers s (view s) where
  get := h.get_eq
  ids := ⟨s.records.keys_nodup, mem_allIds h⟩
  filter value := ⟨h.buckets.nodup value, mem_filterEq h value⟩
  scan := scan_perm h

/-! ## The records a compaction writes -/

/-- The live records in position order, each with its slot's value: the view as a list. -/
theorem orderedRecords_spec (h : Rep s path slots) :
    ∃ records, orderedRecords s = .ok records ∧ DistinctIds records ∧ contents records = view s ∧
      records.length ≤ slots.length := by
  obtain ⟨pairs, hPairs⟩ : ∃ pairs, pairs = (s.positionIndex.entries.map
      (fun e : (_ : Id) × Nat => (e.2, e.1))).insertionSort (fun a b => a.1 ≤ b.1) := ⟨_, rfl⟩
  have hPerm : pairs.Perm (s.positionIndex.entries.map (fun e => (e.2, e.1))) := by
    rw [hPairs]
    exact List.perm_insertionSort _ _
  have hAt : ∀ e ∈ pairs, ∃ record v, At s slots e.2 record e.1 v := by
    intro e he
    obtain ⟨e', he', rfl⟩ := List.mem_map.mp (hPerm.mem_iff.mp he)
    exact exists_at_of_mem h he'
  have hIds : ((pairs.filterMap fun e => view s e.2).map (idOf : R → Id)) = pairs.map (·.2) := by
    rw [List.map_filterMap, ← List.filterMap_eq_map]
    refine List.filterMap_congr fun e he => ?_
    obtain ⟨record, v, hp⟩ := hAt e he
    rw [h.view_at hp, Option.map_some, view_id h (h.view_at hp)]
    rfl
  have hKeys : (pairs.map (·.2)).Perm s.positionIndex.keys := by
    have := hPerm.map (·.2)
    rwa [List.map_map] at this
  have hDistinct : DistinctIds (pairs.filterMap fun e => view s e.2) := by
    rw [DistinctIds, hIds]
    exact hKeys.nodup_iff.mpr s.positionIndex.keys_nodup
  refine ⟨pairs.filterMap fun e => view s e.2, ?_, hDistinct, ?_, ?_⟩
  · unfold orderedRecords
    rw [← hPairs]
    refine mapM_eq_filterMap fun e he => ?_
    obtain ⟨record, v, hp⟩ := hAt e he
    refine ⟨_, h.view_at hp, ?_⟩
    simp only [hp.1, h.file, SlotFile.readValue_image hp.2.2.1]
    rfl
  · funext k
    ext record
    rw [contents_eq_some_iff hDistinct, List.mem_filterMap]
    constructor
    · rintro ⟨⟨e, he, hView⟩, rfl⟩
      rwa [view_id h hView]
    · intro hView
      have hLive : k ∈ s.positionIndex.keys :=
        (positionKeys_perm h).mem_iff.mpr
          ((mem_allIds h k).mpr (by rw [hView]; exact Option.some_ne_none _))
      obtain ⟨e, he, rfl⟩ := List.mem_map.mp (hKeys.mem_iff.mpr hLive)
      exact ⟨⟨e, he, hView⟩, view_id h hView⟩
  · have hSub : (pairs.map (·.1)).Subperm (List.range slots.length) := by
      refine List.subperm_of_subset ?_ fun p hp => ?_
      · have hFst := hPerm.map (·.1)
        rw [List.map_map] at hFst
        exact hFst.nodup_iff.mpr (nodup_positions h)
      · obtain ⟨e, he, rfl⟩ := List.mem_map.mp hp
        obtain ⟨record, v, hp⟩ := hAt e he
        exact List.mem_range.mpr (List.getElem?_eq_some_iff.mp hp.2.2.1).1
    have hLe := hSub.length_le
    rw [List.length_range, List.length_map] at hLe
    exact (List.length_filterMap_le ..).trans hLe

end GenericMmapStore

end MultimodalDb
