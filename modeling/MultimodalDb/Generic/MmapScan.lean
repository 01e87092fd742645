import MultimodalDb.Generic.EdgeFiles
import MultimodalDb.Generic.MmapRuns
import MultimodalDb.Generic.SlotFileTorn

/-!
# The two ways of a scan

A scan reads the whole file at once when the number of live records, times the width of a slot, is
the number of bytes behind the header, and the slots of the live records one by one otherwise. The
count says nothing about where the live records lie, so that it is right takes an invariant of whole
runs: every position is a slot of its own (`Spots`), and the bytes behind the header are at least
those of the live records, with nothing to spare only when each live record's slot is a committed
one. Failed appends leave bytes that no record has, and these are counted with the spare ones.

* `scan_paths`: in every state of a store in service, a scan returns the values of the live slots in
  position order, by either way.
* `scan_skips_a_committed_slot`: a committed slot that an `open` did not adopt is not among them.
-/

namespace MultimodalDb

open StoredRecord hiding id
open StoredRecord renaming id → idOf
open SlotFile (LastCommitted image COMMITTED Shows Behind Extended slotWidth)

namespace GenericMmapStore

variable {R Id IV SV : Type}

/-! ## Maps of positions -/

section Laid

variable [DecidableEq Id] {positions : AList (fun _ : Id => Nat)}

theorem nodup_of_apart
    (hApart : ∀ k k' p, positions.lookup k = some p → positions.lookup k' = some p → k = k') :
    (positions.entries.map (·.2)).Nodup := by
  refine List.Nodup.map_on (fun e he e' he' hEq => ?_) (List.NodupKeys.nodup positions.nodupKeys)
  have hp : positions.lookup e.1 = some e.2 := AList.mem_lookup_iff.mpr he
  have hp' : positions.lookup e'.1 = some e'.2 := AList.mem_lookup_iff.mpr he'
  rw [← hEq] at hp'
  exact Sigma.ext (hApart _ _ _ hp hp') (heq_of_eq hEq)

theorem mem_range_of_inside {n : Nat}
    (hInside : ∀ k p, positions.lookup k = some p → p < n) {p : Nat}
    (hp : p ∈ positions.entries.map (·.2)) : p ∈ List.range n := by
  obtain ⟨e, he, rfl⟩ := List.mem_map.mp hp
  exact List.mem_range.mpr (hInside _ _ (AList.mem_lookup_iff.mpr he))

/-- There are at most as many ids as positions. -/
theorem length_le_of_apart {n : Nat} (hInside : ∀ k p, positions.lookup k = some p → p < n)
    (hApart : ∀ k k' p, positions.lookup k = some p → positions.lookup k' = some p → k = k') :
    positions.entries.length ≤ n := by
  have hSub : (positions.entries.map (·.2)).Subperm (List.range n) :=
    List.subperm_of_subset (nodup_of_apart hApart) fun p hp => mem_range_of_inside hInside hp
  have hLe := hSub.length_le
  rwa [List.length_range, List.length_map] at hLe

variable [StoredRecord R Id IV SV]

/-- The map with each record of a list laid over it, at the positions from `first` on. -/
def laidFrom (first : Nat) (added : List R) (positions : AList (fun _ : Id => Nat)) :
    AList (fun _ : Id => Nat) :=
  (added.zip (List.range' first added.length)).foldl
    (fun index (record, position) => index.insert (idOf record) position) positions

theorem laidFrom_snoc (first : Nat) (added : List R) (record : R)
    (positions : AList (fun _ : Id => Nat)) :
    laidFrom first (added ++ [record]) positions =
      (laidFrom first added positions).insert (idOf record) (first + added.length) := by
  have hZip : (added ++ [record]).zip (List.range' first (added ++ [record]).length) =
      added.zip (List.range' first added.length) ++ [(record, first + added.length)] := by
    rw [List.length_append, List.length_singleton, List.range'_1_concat,
      List.zip_append (by rw [List.length_range'])]
    rfl
  rw [laidFrom, hZip, List.foldl_append, List.foldl_cons, List.foldl_nil, laidFrom]

theorem placesFrom_eq (records : List R) : placesFrom 0 records = laidFrom 0 records ∅ := by
  rw [placesFrom, laidFrom, List.zipIdx_eq_zip_range']

theorem mem_laidFrom {first : Nat} {added : List R} {k : Id} :
    k ∈ laidFrom first added positions ↔ k ∈ positions ∨ k ∈ added.map idOf := by
  induction added using List.reverseRecOn with
  | nil => simp [laidFrom]
  | append_singleton added record ih =>
    rw [laidFrom_snoc, AList.mem_insert, ih, List.map_append, List.mem_append, List.map_singleton,
      List.mem_singleton]
    tauto

theorem length_laidFrom_le (first : Nat) (added : List R) (positions : AList (fun _ : Id => Nat)) :
    (laidFrom first added positions).entries.length ≤ positions.entries.length + added.length := by
  induction added using List.reverseRecOn with
  | nil => exact le_rfl
  | append_singleton added record ih =>
    have hRest :=
      (List.kerase_sublist (idOf record) (laidFrom first added positions).entries).length_le
    rw [laidFrom_snoc, AList.entries_insert, List.length_cons, List.length_append,
      List.length_singleton]
    omega

/-- A position in the new map is an old one or that of a record of the list. -/
theorem lookup_laidFrom {first : Nat} {added : List R} {k : Id} {p : Nat}
    (h : (laidFrom first added positions).lookup k = some p) :
    positions.lookup k = some p ∨
      ∃ i record, added[i]? = some record ∧ idOf record = k ∧ p = first + i := by
  induction added using List.reverseRecOn with
  | nil => exact Or.inl h
  | append_singleton added last ih =>
    rw [laidFrom_snoc] at h
    by_cases hk : k = idOf last
    · rw [hk, AList.lookup_insert] at h
      cases h
      exact Or.inr ⟨added.length, last, List.getElem?_concat_length, hk.symm, rfl⟩
    · rw [AList.lookup_insert_ne hk] at h
      rcases ih h with hOld | ⟨i, record, hi, hId, hp⟩
      · exact Or.inl hOld
      · have hIn := (List.getElem?_eq_some_iff.mp hi).1
        exact Or.inr ⟨i, record, by rw [List.getElem?_append_left hIn, hi], hId, hp⟩

end Laid

/-! ## Positions -/

section Positions

variable [StoredRecord R Id IV SV] [MmapFieldValue Id] [MmapFieldValue SV] [DecidableEq Id]

/-- The slots at the positions are committed. -/
def Marked (slots : List (Slot Id SV)) (positions : AList (fun _ : Id => Nat)) : Prop :=
  ∀ k p t, positions.lookup k = some p → slots[p]? = some t → t.marker = COMMITTED

/-- Every id has a whole slot of its own, and the bytes of the file are those of at least as many
slots as there are ids. When none is left over, the slots of the ids are committed. -/
structure Spots (slots : List (Slot Id SV)) (tail : Bytes) (positions : AList (fun _ : Id => Nat)) :
    Prop where
  short : tail.length < slotWidth Id SV
  inside : ∀ k p, positions.lookup k = some p → p < slots.length
  apart : ∀ k k' p, positions.lookup k = some p → positions.lookup k' = some p → k = k'
  room : ∃ taken stray, slots.length * slotWidth Id SV + tail.length =
    taken * slotWidth Id SV + stray ∧
    positions.entries.length ≤ taken ∧ (stray = 0 → Marked slots positions)

variable {slots slots' : List (Slot Id SV)} {tail tail' : Bytes}
  {positions : AList (fun _ : Id => Nat)}

/-- A file without a tail. -/
theorem spots_nil : Spots ([] : List (Slot Id SV)) [] (∅ : AList (fun _ : Id => Nat)) where
  short := SlotFile.slotWidth_pos Id SV
  inside k p h := by cases h
  apart k k' p h := by cases h
  room := ⟨0, 0, rfl, le_rfl, fun _ k p t h => by cases h⟩

/-- A slot of the file gets a new value. -/
theorem Spots.set_value (h : Spots slots tail positions) {p : Nat} {t : Slot Id SV}
    (hSlot : slots[p]? = some t) (value : SV) :
    Spots (slots.set p { t with value := value }) tail positions where
  short := h.short
  inside k q hq := by
    rw [List.length_set]
    exact h.inside k q hq
  apart := h.apart
  room := by
    obtain ⟨taken, stray, hSize, hLive, hMarked⟩ := h.room
    refine ⟨taken, stray, by rwa [List.length_set], hLive, fun hStray k q u hq hu => ?_⟩
    by_cases hpq : p = q
    · subst hpq
      rw [List.getElem?_set_self (List.getElem?_eq_some_iff.mp hSlot).1] at hu
      cases hu
      exact hMarked hStray k p t hq hSlot
    · rw [List.getElem?_set_ne hpq] at hu
      exact hMarked hStray k q u hq hu

/-- An id leaves, and its slot is overwritten. -/
theorem Spots.erase (h : Spots slots tail positions) {k : Id} {p : Nat}
    (hp : positions.lookup k = some p)
    (t' : Slot Id SV) : Spots (slots.set p t') tail (positions.erase k) := by
  have hOld : ∀ j q, (positions.erase k).lookup j = some q → j ≠ k ∧
      positions.lookup j = some q := by
    intro j q hq
    have hjk : j ≠ k := by
      rintro rfl
      rw [AList.lookup_erase] at hq
      cases hq
    exact ⟨hjk, by rwa [AList.lookup_erase_ne hjk] at hq⟩
  refine ⟨h.short, fun j q hq => ?_,
    fun j j' q hj hj' => h.apart j j' q (hOld j q hj).2 (hOld j' q hj').2, ?_⟩
  · rw [List.length_set]
    exact h.inside j q (hOld j q hq).2
  · obtain ⟨taken, stray, hSize, hLive, hMarked⟩ := h.room
    refine ⟨taken, stray, by rwa [List.length_set], ?_, fun hStray j q u hq hu => ?_⟩
    · exact (List.kerase_sublist k positions.entries).length_le.trans hLive
    · obtain ⟨hjk, hq'⟩ := hOld j q hq
      have hpq : p ≠ q := fun hEq => hjk (h.apart j k q hq' (hEq ▸ hp))
      rw [List.getElem?_set_ne hpq] at hu
      exact hMarked hStray j q u hq' hu

/-- **Records get slots** behind the others. -/
theorem Spots.append (h : Spots slots tail positions) (added : List R) {first : Nat}
    (hExtended : Extended slots tail (slotPairs added) first slots' tail') :
    Spots slots' tail' (laidFrom first added positions) := by
  have hLength : (slotPairs added).length = added.length := List.length_map _
  have hWhole := hExtended.whole
  rw [hLength] at hWhole
  have hBefore : ∀ k p, positions.lookup k = some p → p < first := fun k p hp =>
    (h.inside k p hp).trans_le hExtended.behind
  refine ⟨hExtended.short, fun k p hp => ?_, fun k k' p hk hk' => ?_, ?_⟩
  · rcases lookup_laidFrom hp with hOld | ⟨i, record, hi, -, rfl⟩
    · have := hBefore k p hOld
      omega
    · have := (List.getElem?_eq_some_iff.mp hi).1
      omega
  · rcases lookup_laidFrom hk with hOld | ⟨i, record, hi, hId, rfl⟩ <;>
      rcases lookup_laidFrom hk' with hOld' | ⟨i', record', hi', hId', hp⟩
    · exact h.apart k k' p hOld hOld'
    · have := hBefore k p hOld
      omega
    · have := hBefore k' _ hOld'
      omega
    · obtain rfl : i = i' := by omega
      rw [← hId, ← hId', Option.some.inj (hi.symm.trans hi')]
  · obtain ⟨taken, stray, hSize, hLive, hMarked⟩ := h.room
    obtain ⟨more, hMore, hClean⟩ := hExtended.size
    refine ⟨taken + added.length, stray + more, ?_, ?_, fun hStray k p t hp ht => ?_⟩
    · rw [hMore, hSize, hLength, Nat.add_mul]
      omega
    · exact (length_laidFrom_le ..).trans (Nat.add_le_add_right hLive _)
    · -- nothing is left over, so there was no tail and the new slots follow the old ones
      obtain ⟨rfl, rfl⟩ : stray = 0 ∧ more = 0 := by omega
      have hTail : tail = [] := by
        have hMod := congrArg (· % slotWidth Id SV) hSize
        simp only [Nat.add_zero, Nat.mul_mod_left, Nat.add_comm (_ * _) tail.length,
          Nat.add_mul_mod_self_right, Nat.mod_eq_of_lt h.short] at hMod
        exact List.length_eq_zero_iff.mp hMod
      obtain ⟨rfl, rfl⟩ := hClean rfl hTail
      rcases lookup_laidFrom hp with hOld | ⟨i, record, hi, -, rfl⟩
      · rw [List.getElem?_append_left (h.inside k p hOld)] at ht
        exact hMarked rfl k p t hOld ht
      · rw [List.getElem?_append_right (Nat.le_add_right ..), Nat.add_sub_cancel_left, slotPairs,
          List.getElem?_map, List.getElem?_map, hi] at ht
        cases ht
        rfl

/-- A file built from records. -/
theorem spots_fresh (records : List R) :
    Spots ((slotPairs records).map Slot.commit) [] (placesFrom 0 records) := by
  rw [placesFrom_eq]
  refine spots_nil.append records ⟨List.nil_prefix, Nat.zero_le _, ?_,
    SlotFile.slotWidth_pos Id SV, 0, ?_, fun _ _ => ⟨rfl, (List.nil_append _).symm⟩⟩
  · rw [List.length_map, Nat.zero_add]
  · rw [List.length_map]
    simp

end Positions

/-! ## A store in service -/

/-- Every file but the slot file. -/
def aside (path : Path) : Set Path := {other | other ≠ path}

theorem touches_logged {S : Type} [Serde R] [Serde Id] (path : Path) {tag : String}
    (entry : LogEntry R Id) :
    Method.Touches (aside path) (InsertLog.append (S := S) (InsertLog.logPath path) tag entry) := by
  refine InsertLog.touches_append entry (logPath_ne path) ?_
  show path ++ InsertLog.LOG_SUFFIX ++ InsertLog.UPGRADE_SUFFIX ≠ path
  rw [List.append_assoc]
  exact append_suffix_ne (by decide) path

variable [StoredRecord R Id IV SV] [DecidableEq Id]

/-- The record map and the position map have the same ids, and each record is under its own. -/
structure Paired (records : AList (fun _ : Id => R))
    (positions : AList (fun _ : Id => Nat)) : Prop where
  keys : ∀ k, k ∈ records ↔ k ∈ positions
  ids : ∀ k record, records.lookup k = some record → idOf record = k

theorem ids_recordMap {records : List R} {k : Id} {record : R}
    (h : (recordMap records).lookup k = some record) : idOf record = k := by
  induction records using List.reverseRecOn with
  | nil => cases h
  | append_singleton records last ih =>
    rw [show (recordMap (records ++ [last])).lookup k = contents (records ++ [last]) k from rfl,
      contents_snoc] at h
    by_cases hk : k = idOf last
    · rw [hk, Function.update_self] at h
      cases h
      exact hk.symm
    · rw [Function.update_of_ne hk] at h
      exact ih h

/-- The maps of a store built over records, whose positions are those of their ids. -/
theorem paired_recordMap {records : List R} {positions : AList (fun _ : Id => Nat)}
    (hKeys : ∀ k, k ∈ positions ↔ k ∈ records.map idOf) : Paired (recordMap records) positions where
  keys k := by
    rw [hKeys, ← not_iff_not, ← AList.lookup_eq_none]
    exact contents_eq_none_iff
  ids _ _ := ids_recordMap

/-- A record takes the place of the one under its id, or comes in with a position. -/
theorem Paired.insert {records : AList (fun _ : Id => R)}
    {positions positions' : AList (fun _ : Id => Nat)} (h : Paired records positions) (record : R)
    (hKeys : ∀ k, k ∈ positions' ↔ k ∈ positions ∨ k = idOf record) :
    Paired (records.insert (idOf record) record) positions' where
  keys k := by
    rw [AList.mem_insert, hKeys, h.keys]
    exact or_comm
  ids k r hr := by
    by_cases hk : k = idOf record
    · rw [hk, AList.lookup_insert] at hr
      cases hr
      exact hk.symm
    · rw [AList.lookup_insert_ne hk] at hr
      exact h.ids k r hr

theorem Paired.erase {records : AList (fun _ : Id => R)} {positions : AList (fun _ : Id => Nat)}
    (h : Paired records positions) (key : Id) :
    Paired (records.erase key) (positions.erase key) where
  keys k := by rw [AList.mem_erase, AList.mem_erase, h.keys]
  ids k r hr := by
    by_cases hk : k = key
    · rw [hk, AList.lookup_erase] at hr
      cases hr
    · rw [AList.lookup_erase_ne hk] at hr
      exact h.ids k r hr

variable [MmapFieldValue Id] [MmapFieldValue SV]

/-- **What a store in service keeps.** Its maps agree, every live record has a slot of its own in
what is mapped, and the file on disk begins with what is mapped. -/
def Held (path : Path) (s : GenericMmapStore R Id IV SV) (d : Disk) : Prop :=
  Paired s.records s.positionIndex ∧
    ∃ slots tail, Spots slots tail s.positionIndex ∧ Behind s.file d path slots tail

/-- What is asked of a call that did not return: an error leaves the store in service. -/
def Stopped (path : Path) {ε : Type} (e : Stop ε) (s : GenericMmapStore R Id IV SV)
    (d : Disk) : Prop :=
  ∀ cause, e = .error cause → Held path s d

variable {path : Path} {s : GenericMmapStore R Id IV SV} {d d' : Disk}

theorem Held.frame (h : Held path s d) (hSame : d' path = d path) : Held path s d' := by
  obtain ⟨hPaired, slots, tail, hSpots, hBehind⟩ := h
  exact ⟨hPaired, slots, tail, hSpots, hBehind.frame hSame⟩

theorem Held.file_path (h : Held path s d) : s.file.path = path := by
  obtain ⟨-, slots, tail, -, hBehind⟩ := h
  rw [hBehind.1]

/-- A program that leaves the store and the slot file alone leaves the store in service. -/
theorem Held.wp_aside {ε α : Type} {m : Method (GenericMmapStore R Id IV SV) ε α}
    {Q : α → GenericMmapStore R Id IV SV → Disk → Prop}
    {A C : Stop ε → GenericMmapStore R Id IV SV → Disk → Prop} (h : Held path s d)
    (hTouches : Method.Touches (aside path) m)
    (hOk : ∀ a d', Held path s d' → d' path = d path → Q a s d')
    (hStop : ∀ e d', Held path s d' → d' path = d path → A e s d') : Method.wp m s d Q A C := by
  have hSame : path ∉ aside path := fun hMem => hMem rfl
  refine hTouches.wp (fun a d' hOff => ?_) fun e d' hOff => ?_
  · exact hOk a d' (h.frame (hOff path hSame)) (hOff path hSame)
  · exact hStop e d' (h.frame (hOff path hSame)) (hOff path hSame)

/-! ### What is read -/

/-- What the maps and a list of slots give for an id. -/
def slotView (records : AList (fun _ : Id => R)) (positions : AList (fun _ : Id => Nat))
    (slots : List (Slot Id SV)) (k : Id) : Option R :=
  (records.lookup k).bind fun record =>
    ((positions.lookup k).bind (valueAt slots)).map fun v => setScannableValue v record

section Reading

variable {records records' : AList (fun _ : Id => R)}
  {positions positions' : AList (fun _ : Id => Nat)}
variable {slots slots' : List (Slot Id SV)} {tail : Bytes} {k : Id} {p : Nat} {t : Slot Id SV}

/-- Every read of a store in service succeeds. -/
theorem get_slots (hPaired : Paired s.records s.positionIndex)
    (hSpots : Spots slots tail s.positionIndex)
    (hFile : s.file = ⟨⟨image slots tail, some path⟩, path⟩) (k : Id) :
    get s k = .ok (slotView s.records s.positionIndex slots k) := by
  cases hRecord : s.records.lookup k with
  | none => rw [get_none hRecord, slotView, hRecord, Option.bind_none]
  | some record =>
    have hMem : k ∈ s.positionIndex :=
      (hPaired.keys k).mp (AList.lookup_isSome.mp (by rw [hRecord]; rfl))
    obtain ⟨p, hp⟩ := Option.isSome_iff_exists.mp (AList.lookup_isSome.mpr hMem)
    have hSlot := List.getElem?_eq_getElem (hSpots.inside k p hp)
    rw [get, slotView, hRecord, hp, hFile, Option.bind_some, Option.bind_some, valueAt, hSlot]
    simp only [SlotFile.readValue_image hSlot]
    rfl

theorem view_slots (hPaired : Paired s.records s.positionIndex)
    (hSpots : Spots slots tail s.positionIndex)
    (hFile : s.file = ⟨⟨image slots tail, some path⟩, path⟩) :
    view s = slotView s.records s.positionIndex slots := by
  funext k
  rw [view, get_slots hPaired hSpots hFile]
  rfl

omit [MmapFieldValue Id] [MmapFieldValue SV] in
theorem slotView_congr (hRecords : records'.lookup k = records.lookup k)
    (hValue : (positions'.lookup k).bind (valueAt slots') =
      (positions.lookup k).bind (valueAt slots)) :
    slotView records' positions' slots' k = slotView records positions slots k := by
  rw [slotView, slotView, hRecords, hValue]

/-- What another id has at its position does not change with a slot. -/
theorem Spots.bind_valueAt_set (h : Spots slots tail positions) (hp : positions.lookup k = some p)
    {j : Id} (hj : j ≠ k) (t' : Slot Id SV) :
    (positions.lookup j).bind (valueAt (slots.set p t')) =
      (positions.lookup j).bind (valueAt slots) := by
  cases hq : positions.lookup j with
  | none => rfl
  | some q =>
    have hpq : p ≠ q := fun hEq => hj (h.apart j k q hq (hEq ▸ hp))
    rw [Option.bind_some, Option.bind_some, valueAt, valueAt, List.getElem?_set_ne hpq]

omit [StoredRecord R Id IV SV] [DecidableEq Id] [MmapFieldValue Id] [MmapFieldValue SV] in
theorem valueAt_set (hSlot : slots[p]? = some t) (t' : Slot Id SV) :
    valueAt (slots.set p t') p = some t'.value := by
  rw [valueAt, List.getElem?_set_self (List.getElem?_eq_some_iff.mp hSlot).1, Option.map_some]

theorem slotView_update (h : Spots slots tail positions) (hp : positions.lookup k = some p)
    (hSlot : slots[p]? = some t) (value : SV) :
    slotView records positions (slots.set p { t with value := value }) = Function.update
      (slotView records positions slots) k
        ((slotView records positions slots k).map (setScannableValue value)) := by
  funext j
  by_cases hj : j = k
  · subst hj
    rw [Function.update_self, slotView, slotView, hp, Option.bind_some, Option.bind_some,
      valueAt_set hSlot, valueAt, hSlot]
    cases records.lookup j <;> simp
  · rw [Function.update_of_ne hj]
    exact slotView_congr rfl (h.bind_valueAt_set hp hj _)

theorem slotView_replace (h : Spots slots tail positions) {record : R}
    (hp : positions.lookup (idOf record) = some p) (hSlot : slots[p]? = some t) :
    slotView (records.insert (idOf record) record) positions
      (slots.set p { t with value := scannableValue record }) =
      Function.update (slotView records positions slots) (idOf record) (some record) := by
  funext j
  by_cases hj : j = idOf record
  · subst hj
    rw [Function.update_self, slotView, hp, Option.bind_some, valueAt_set hSlot,
      AList.lookup_insert, Option.bind_some, Option.map_some, set_scannableValue]
  · rw [Function.update_of_ne hj]
    exact slotView_congr (AList.lookup_insert_ne hj) (h.bind_valueAt_set hp hj _)

theorem slotView_delete (h : Spots slots tail positions) (hp : positions.lookup k = some p)
    (t' : Slot Id SV) :
    slotView (records.erase k) (positions.erase k) (slots.set p t') =
      Function.update (slotView records positions slots) k none := by
  funext j
  by_cases hj : j = k
  · subst hj
    rw [Function.update_self, slotView, AList.lookup_erase, Option.bind_none]
  · rw [Function.update_of_ne hj]
    refine slotView_congr (AList.lookup_erase_ne hj) ?_
    rw [AList.lookup_erase_ne hj]
    exact h.bind_valueAt_set hp hj t'

end Reading

/-! ### Calls -/

theorem wp_update_held (h : Held path s d) (key : Id) (value : SV) :
    Method.wp (update key value) s d (fun _ s' d' => Held path s' d' ∧
      view s' = Function.update (view s) key ((view s key).map (setScannableValue value)))
      (Stopped path) (Stopped path) := by
  refine Method.wp_bind (Method.wp_self ?_)
  split
  · next p hPosition =>
    obtain ⟨hPaired, slots, tail, hSpots, hBehind⟩ := h
    have hSlot := List.getElem?_eq_getElem (hSpots.inside _ _ hPosition)
    refine Method.wp_onPart (SlotFile.wp_writeValueBehind hBehind hSlot (fun f' d₂ hBehind' => ?_)
      fun d₂ _ hEq => by cases hEq)
    have hSpots' := hSpots.set_value hSlot value
    refine ⟨⟨hPaired, _, tail, hSpots', hBehind'⟩, ?_⟩
    rw [view_slots hPaired hSpots hBehind.1, ← slotView_update hSpots hPosition hSlot]
    exact view_slots hPaired hSpots' hBehind'.1
  · exact Method.wp_fail fun _ _ => h

variable [DecidableEq IV] [Serde R] [Serde Id]

theorem wp_insert_held (h : Held path s d) (record : R) :
    Method.wp (insert record) s d
      (fun _ s' d' => Held path s' d' ∧ s'.records = s.records.insert (idOf record) record)
      (Stopped path) (Stopped path) := by
  refine Method.wp_bind (Method.wp_bind (Method.wp_self ?_))
  split
  · exact Method.wp_fail fun _ _ => h
  rw [h.file_path]
  refine h.wp_aside (touches_logged path (.item record : LogEntry R Id)).mapError
    (fun _ d₁ h₁ _ => ?_) fun e d₁ h₁ _ _ _ => h₁
  obtain ⟨hPaired, slots, tail, hSpots, hBehind⟩ := h₁
  refine Method.wp_bind (Method.wp_mapError (Method.wp_onPart (SlotFile.wp_appendBehind hBehind
    (fun f' d₂ first slots' tail' hBehind' hExtended => ?_) fun e d₂ hBehind' => ?_)))
  · have hSpots' := hSpots.append [record] hExtended
    refine Method.wp_modifySelf
      ⟨⟨hPaired.insert record fun k => ?_, slots', tail', hSpots', hBehind'⟩, rfl⟩
    exact (AList.mem_insert _).trans or_comm
  · have hKept : Held path (setFile s.file s) d₂ := ⟨hPaired, slots, tail, hSpots, hBehind'⟩
    cases e <;> exact fun _ _ => hKept

theorem wp_replace_held (h : Held path s d) (record : R) :
    Method.wp (replace record) s d (fun _ s' d' => Held path s' d' ∧
      view s' = Function.update (view s) (idOf record) (some record)) (Stopped path)
        (Stopped path) := by
  refine Method.wp_bind (Method.wp_self ?_)
  split
  · next old p hOld hPosition =>
    rw [h.file_path]
    refine Method.wp_bind (h.wp_aside (touches_logged path (.item record : LogEntry R Id)).mapError
      (fun _ d₁ h₁ _ => ?_) fun e d₁ h₁ _ _ _ => h₁)
    obtain ⟨hPaired, slots, tail, hSpots, hBehind⟩ := h₁
    have hSlot := List.getElem?_eq_getElem (hSpots.inside _ _ hPosition)
    refine Method.wp_bind (Method.wp_onPart (SlotFile.wp_writeValueBehind hBehind hSlot
      (fun f' d₂ hBehind' => ?_) fun d₂ _ hEq => by cases hEq))
    have hMem : idOf record ∈ s.positionIndex := AList.lookup_isSome.mp (by rw [hPosition]; rfl)
    have hPaired' := hPaired.insert record fun k =>
      (⟨Or.inl, fun hk => hk.elim id fun hEq => hEq ▸ hMem⟩ :
      k ∈ s.positionIndex ↔ k ∈ s.positionIndex ∨ k = idOf record)
    have hSpots' := hSpots.set_value hSlot (scannableValue record)
    refine Method.wp_modifySelf ⟨⟨hPaired', _, tail, hSpots', hBehind'⟩, ?_⟩
    rw [view_slots hPaired hSpots hBehind.1, ← slotView_replace hSpots hPosition hSlot]
    exact view_slots hPaired' hSpots' hBehind'.1
  · exact Method.wp_fail fun _ _ => h

theorem wp_delete_held (h : Held path s d) (key : Id) :
    Method.wp (delete key) s d (fun _ s' d' => Held path s' d' ∧
      view s' = Function.update (view s) key none) (Stopped path) (Stopped path) := by
  refine Method.wp_bind (Method.wp_bind (Method.wp_self ?_))
  split
  · next record p hRecord hPosition =>
    rw [h.file_path]
    refine Method.wp_bind (h.wp_aside
      (touches_logged path (.tombstone key : LogEntry R Id)).mapError
      (fun _ d₁ h₁ _ => ?_) fun e d₁ h₁ _ _ _ => h₁)
    obtain ⟨hPaired, slots, tail, hSpots, hBehind⟩ := h₁
    obtain ⟨t, hSlot⟩ : ∃ t, slots[p]? = some t :=
      ⟨_, List.getElem?_eq_getElem (hSpots.inside _ _ hPosition)⟩
    refine Method.wp_pure (Method.wp_bind
      (Method.wp_onPart (SlotFile.wp_clearMarkerBehind hBehind hSlot
      (fun f' d₂ hBehind' => ?_) fun d₂ _ hEq => by cases hEq)))
    have hSpots' := hSpots.erase hPosition { t with marker := 0 }
    refine Method.wp_modifySelf ⟨⟨hPaired.erase key, _, tail, hSpots', hBehind'⟩, ?_⟩
    rw [view_slots hPaired hSpots hBehind.1,
      ← slotView_delete hSpots hPosition { t with marker := 0 }]
    exact view_slots (hPaired.erase key) hSpots' hBehind'.1
  · exact Method.wp_fail fun _ _ => h

/-! ### Compaction -/

theorem mapM_map_eq {α β γ : Type} {l : List α} {f : α → Except Panic β} {key : β → γ} (of : α → γ)
    (h : ∀ x ∈ l, ∀ y, f x = .ok y → key y = of x) {ys : List β} (hRun : l.mapM f = .ok ys) :
    ys.map key = l.map of := by
  induction l generalizing ys with
  | nil =>
    cases hRun
    rfl
  | cons x l ih =>
    rw [List.mapM_cons] at hRun
    cases hHead : f x with
    | error e =>
      rw [hHead] at hRun
      cases hRun
    | ok y =>
      cases hRest : l.mapM f with
      | error e =>
        rw [hHead, hRest] at hRun
        cases hRun
      | ok rest =>
        rw [hHead, hRest] at hRun
        cases hRun
        rw [List.map_cons, List.map_cons, h x List.mem_cons_self y hHead,
          ih (fun z hz => h z (List.mem_cons_of_mem x hz)) hRest]

omit [DecidableEq IV] [Serde R] [Serde Id] in
/-- A compaction writes the live records in position order. -/
theorem orderedRecords_ids (h : Paired s.records s.positionIndex) {records : List R}
    (hRun : orderedRecords s = .ok records) :
    records.map (idOf : R → Id) = ((s.positionIndex.entries.map
      (fun e : (_ : Id) × Nat => (e.2, e.1))).insertionSort (fun a b =>
        a.1 ≤ b.1)).map Prod.snd := by
  refine mapM_map_eq Prod.snd (fun e he record hRecord => ?_) hRun
  dsimp only at hRecord
  split at hRecord
  · cases hRecord
  · next stored hStored =>
    cases hValue : SlotFile.readValue s.file e.1 with
    | error cause =>
      rw [hValue] at hRecord
      cases hRecord
    | ok value =>
      rw [hValue] at hRecord
      cases hRecord
      exact (id_set value stored).trans (h.ids _ _ hStored)

omit [DecidableEq IV] [Serde R] [Serde Id] in
/-- One record for each id with a position. -/
theorem mem_orderedRecords (h : Paired s.records s.positionIndex) {records : List R}
    (hRun : orderedRecords s = .ok records) (k : Id) :
    k ∈ s.positionIndex ↔ k ∈ records.map (idOf : R → Id) := by
  have hPerm := (List.perm_insertionSort (fun a b : Nat × Id => a.1 ≤ b.1)
    (s.positionIndex.entries.map fun e => (e.2, e.1))).map Prod.snd
  rw [orderedRecords_ids h hRun, hPerm.mem_iff, List.map_map]
  rfl

omit [DecidableEq IV] [Serde R] [Serde Id] in
/-- What a compaction writes of a record is what was read of it. -/
theorem slotView_compacted {slots : List (Slot Id SV)} {tail : Bytes}
    (h : Paired s.records s.positionIndex)
    (hSpots : Spots slots tail s.positionIndex)
    (hFile : s.file = ⟨⟨image slots tail, some path⟩, path⟩)
    {records : List R} (hRun : orderedRecords s = .ok records) :
    slotView s.records (placesFrom 0 records) ((slotPairs records).map Slot.commit) =
      slotView s.records s.positionIndex slots := by
  obtain ⟨ordered, hOrdered⟩ : ∃ ordered, ordered = (s.positionIndex.entries.map
      (fun e : (_ : Id) × Nat => (e.2, e.1))).insertionSort (fun a b => a.1 ≤ b.1) := ⟨_, rfl⟩
  have hPlace : ∀ e ∈ ordered, s.positionIndex.lookup e.2 = some e.1 := by
    intro e he
    rw [hOrdered, (List.perm_insertionSort _ _).mem_iff] at he
    obtain ⟨entry, hEntry, rfl⟩ := List.mem_map.mp he
    exact AList.mem_lookup_iff.mpr hEntry
  have hValues : records.map (fun record => ((idOf record : Id), some (scannableValue record))) =
      ordered.map fun e => (e.2, valueAt slots e.1) := by
    rw [orderedRecords, ← hOrdered] at hRun
    refine mapM_map_eq (fun e => (e.2, valueAt slots e.1)) (fun e he record hRecord => ?_) hRun
    dsimp only at hRecord
    split at hRecord
    · cases hRecord
    · next stored hStored =>
      have hSlot := List.getElem?_eq_getElem (hSpots.inside e.2 e.1 (hPlace e he))
      rw [hFile, SlotFile.readValue_image hSlot] at hRecord
      cases hRecord
      rw [id_set, h.ids _ _ hStored, scannableValue_set, valueAt, hSlot, Option.map_some]
  funext k
  cases hRecord : s.records.lookup k with
  | none => rw [slotView, slotView, hRecord, Option.bind_none, Option.bind_none]
  | some record =>
    refine slotView_congr rfl ?_
    have hMem : k ∈ s.positionIndex := (h.keys k).mp (AList.lookup_isSome.mp (by rw [hRecord]; rfl))
    have hNew : k ∈ placesFrom 0 records := by
      rw [placesFrom_eq, mem_laidFrom]
      exact Or.inr ((mem_orderedRecords h hRun k).mp hMem)
    obtain ⟨i, hi⟩ := Option.isSome_iff_exists.mp (AList.lookup_isSome.mpr hNew)
    rw [hi, Option.bind_some]
    rw [placesFrom_eq] at hi
    rcases lookup_laidFrom hi with hNone | ⟨j, written, hj, hId, rfl⟩
    · cases hNone
    · have hPair : ((k : Id), some (scannableValue written)) ∈ ordered.map fun e =>
        (e.2, valueAt slots e.1) := by
        rw [← hValues, ← hId]
        exact List.mem_map_of_mem (List.mem_of_getElem? hj)
      obtain ⟨e, he, hEq⟩ := List.mem_map.mp hPair
      simp only [Prod.mk.injEq] at hEq
      rw [← hEq.1, hPlace e he, Option.bind_some, hEq.2, Nat.zero_add, valueAt, slotPairs,
        List.map_map, List.getElem?_map, hj]
      rfl

omit [DecidableEq IV] in
/-- A compaction that fails and leaves the store object as it was leaves it in service. -/
theorem wp_compact_held (h : Held path s d) :
    Method.wp compact s d (fun _ s' d' => Held path s' d' ∧ view s' = view s) (fun e s' d' => s' =
      s → Stopped path e s' d') (fun e s' d' => s' = s → Stopped path e s' d') := by
  have hBlob : GenericRecordBlob.blobPath path ∈ aside path := blobPath_ne path
  have hTemp : RecordBlob.tempPath (GenericRecordBlob.blobPath path) ∈ aside path :=
    (blob_write_frame path).2.1.symm
  refine Method.wp_bind (Method.wp_bind (Method.wp_self ?_))
  rw [h.file_path]
  refine Method.wp_bind (h.wp_aside InsertLog.touches_readEntries (fun logged d₁ h₁ _ => ?_)
    fun e d₁ h₁ _ _ _ _ => h₁)
  refine Method.wp_bind (Method.wp_checked (fun records hRecords => ?_) fun _ _ _ _ hEq =>
    nomatch hEq)
  refine Method.wp_bind (Method.wp_checked (fun before _ => ?_) fun _ _ _ _ hEq => nomatch hEq)
  refine Method.wp_bind (Method.wp_ofExcept (fun encoded _ => ?_) fun _ _ _ _ _ => h₁)
  refine Method.wp_bind (h₁.wp_aside (RecordBlob.touches_write hBlob hTemp) (fun _ d₂ h₂ _ => ?_)
    fun e d₂ h₂ _ _ _ _ => h₂)
  have hKeys := mem_orderedRecords h.1 hRecords
  obtain ⟨hPaired, slots, tail, hSpots, hBehind⟩ := h₂
  refine Method.wp_pure (Method.wp_bind (Method.wp_bind (Method.wp_onPart (SlotFile.wp_rewrite
    h.file_path (fun f' d₃ hShows _ => ?_) fun e f' d₃ hLeft _ => ?_))))
  · refine Method.wp_bind (Method.wp_self ?_)
    rw [show (setFile f' s).file.path = path from congrArg SlotFile.path hShows.1]
    refine Method.wp_bind (InsertLog.wp_clear (Method.wp_modifySelf ?_) fun e hSame _ _ => ?_)
    · have hHeld : Held path { setFile f' s with positionIndex := placesFrom 0 records }
          (Function.update d₃ (InsertLog.logPath path) none) := by
        refine ⟨⟨fun k => ?_, hPaired.ids⟩, _, _, spots_fresh records, hShows.behind.frame ?_⟩
        · show k ∈ s.records ↔ k ∈ placesFrom 0 records
          rw [hPaired.keys, hKeys, placesFrom_eq, mem_laidFrom]
          simp
        · exact Function.update_of_ne (logPath_ne path).symm ..
      have hView : view { setFile f' s with positionIndex := placesFrom 0 records } = view s :=
        (view_slots hHeld.1 (spots_fresh records) hShows.1).trans
          ((slotView_compacted hPaired hSpots hBehind.1 hRecords).trans
            (view_slots hPaired hSpots hBehind.1).symm)
      show Method.wp (if _ then _ else _) _ _ _ _ _
      split
      · exact Method.wp_pure ⟨hHeld, hView⟩
      · exact Method.wp_panic fun _ _ hEq => nomatch hEq
    · -- the new file shows what the old one did
      have hMapped : s.file = f' := congrArg GenericMmapStore.file hSame.symm
      rw [← hMapped] at hShows
      rw [hSame]
      exact ⟨hPaired, slots, tail, hSpots, hShows.behind_of hBehind.1⟩
  · rcases hLeft with ⟨rfl, hSame⟩ | ⟨rfl, -⟩
    · exact fun _ _ _ => ⟨hPaired, slots, tail, hSpots, hBehind.frame hSame⟩
    · intro hSame
      have hFile : (none : Option Path) = s.file.mmap.file :=
        congrArg (fun s : GenericMmapStore R Id IV SV => s.file.mmap.file) hSame
      rw [hBehind.1] at hFile
      cases hFile

/-! ### Creating and opening -/

section Opening

variable {S : Type} {s₀ : S} {records : List R}

omit [Serde Id] in
theorem wp_create_held :
    Method.wp (create records path) s₀ d (fun s _ d' => Held path s d') (fun _ _ _ => True)
      (fun _ _ _ => True) := by
  obtain ⟨hPathBlob, hPathTemp, -, -⟩ := blob_write_frame path
  refine Method.wp_bind (Method.wp_ofExcept (fun encoded _ => ?_) fun _ _ => trivial)
  refine Method.wp_bind (InsertLog.wp_clear ?_ fun _ => trivial)
  refine Method.wp_bind (SlotFile.wp_create (fun f d₁ hShows _ => ?_) fun _ _ _ => trivial)
  have hTouches : Method.Touches (aside path)
      (RecordBlob.write (S := S) encoded (GenericRecordBlob.blobPath path)) :=
    RecordBlob.touches_write hPathBlob.symm hPathTemp.symm
  refine Method.wp_bind (hTouches.wp (fun _ d₂ hOff =>
    Method.wp_pure ⟨paired_recordMap fun k => ?_, _, _,
    spots_fresh records, hShows.behind.frame (hOff path fun hMem => hMem rfl)⟩) fun _ _ _ =>
      trivial)
  show k ∈ placesFrom 0 records ↔ _
  rw [placesFrom_eq, mem_laidFrom]
  simp

omit [DecidableEq IV] [Serde R] [Serde Id] in
/-- The positions that `open` found: the last committed slots, where there are any. -/
theorem spots_found (records : List R) (slots : List (Slot Id SV)) {tail : Bytes}
    (hTail : tail.length < slotWidth Id SV) :
    Spots slots tail
      (foundPositions (SlotFile.pairsBefore (image slots tail) slots.length) records) := by
  have hLast : ∀ k p, (foundPositions (SlotFile.pairsBefore (image slots tail) slots.length)
      records).lookup k = some p → ∃ v, LastCommitted slots k p v := by
    intro k p hp
    have hFinds := SlotFile.lookup_pairsBefore slots tail le_rfl k
    rw [List.take_length] at hFinds
    rw [lookup_foundPositions] at hp
    split at hp
    · obtain ⟨⟨q, v⟩, hFound, rfl⟩ := Option.map_eq_some_iff.mp hp
      rw [hFound] at hFinds
      exact ⟨v, hFinds⟩
    · cases hp
  have hInside : ∀ k p, (foundPositions (SlotFile.pairsBefore (image slots tail) slots.length)
      records).lookup k = some p → p < slots.length := fun k p hp =>
    (List.getElem?_eq_some_iff.mp (hLast k p hp).choose_spec.1).1
  have hApart : ∀ k k' p, (foundPositions (SlotFile.pairsBefore (image slots tail) slots.length)
      records).lookup k = some p →
      (foundPositions (SlotFile.pairsBefore (image slots tail) slots.length)
      records).lookup k' = some p → k = k' := by
    intro k k' p hp hp'
    obtain ⟨v, hv⟩ := hLast k p hp
    obtain ⟨v', hv'⟩ := hLast k' p hp'
    exact congrArg Slot.id (Option.some.inj (hv.1.symm.trans hv'.1))
  refine ⟨hTail, hInside, hApart, slots.length, tail.length, rfl, ?_, fun _ k p t hp ht => ?_⟩
  · exact length_le_of_apart hInside hApart
  · obtain ⟨v, hv⟩ := hLast k p hp
    rw [hv.1] at ht
    cases ht
    rfl

omit [DecidableEq IV] [Serde R] [Serde Id] in
theorem wp_reconcile_held {f : SlotFile Id SV} {slots : List (Slot Id SV)} {tail : Bytes}
    {Q : SlotFile Id SV × AList (fun _ : Id => Nat) → S → Disk → Prop}
    (hShows : Shows f d path slots tail) (hTail : tail.length < slotWidth Id SV)
    (hOk : ∀ f' d' slots' tail' positions, Spots slots' tail' positions →
      Behind f' d' path slots' tail' →
      (∀ k, k ∈ positions ↔ k ∈ records.map idOf) → Q (f', positions) s₀ d') :
    Method.wp (reconcile f records) s₀ d Q (fun _ _ _ => True) (fun _ _ _ => True) := by
  obtain ⟨rfl, hFile⟩ := hShows
  obtain ⟨persisted, hPersisted⟩ : ∃ persisted : AList (fun _ : Id => Nat × SV), persisted =
      SlotFile.pairsBefore (image slots tail) slots.length := ⟨_, rfl⟩
  have hPairs : SlotFile.committedPairs ⟨⟨image slots tail, some path⟩, path⟩ = .ok persisted := by
    unfold SlotFile.committedPairs
    rw [SlotFile.slotCount_image slots tail _ _ hTail, hPersisted]
    rfl
  have hSpots := spots_found records slots hTail
  rw [← hPersisted] at hSpots
  have hMem : ∀ k, k ∈ foundPositions persisted records ↔
      k ∈ records.map idOf ∧ (persisted.lookup k).isSome := by
    intro k
    rw [← AList.lookup_isSome, lookup_foundPositions]
    split <;> simp_all
  have hMissing : ∀ k, k ∈ (missingRecords persisted records).map idOf ↔
      k ∈ records.map idOf ∧ (persisted.lookup k).isNone := by
    intro k
    simp only [missingRecords, List.mem_map, List.mem_filter]
    constructor
    · rintro ⟨record, ⟨hRecord, hNone⟩, rfl⟩
      exact ⟨⟨record, hRecord, rfl⟩, hNone⟩
    · rintro ⟨⟨record, hRecord, rfl⟩, hNone⟩
      exact ⟨record, ⟨hRecord, hNone⟩, rfl⟩
  have hAll : ∀ k, k ∈ foundPositions persisted records ∨
      k ∈ (missingRecords persisted records).map idOf ↔ k ∈ records.map idOf := by
    intro k
    rw [hMem, hMissing]
    cases persisted.lookup k <;> simp
  refine Method.wp_bind (Method.wp_checked (fun found hFound => ?_) fun _ _ => trivial)
  obtain rfl : persisted = found := Except.ok.inj (hPairs.symm.trans hFound)
  dsimp only
  split
  · next hEmpty =>
    refine Method.wp_pure (hOk _ d slots tail _ hSpots ⟨rfl, [], by rw [hFile, List.append_nil]⟩
      fun k => ?_)
    rw [← hAll, List.isEmpty_iff.mp hEmpty]
    simp
  · refine Method.wp_bind (Method.wp_runOn (SlotFile.wp_appendBehind (Shows.behind ⟨rfl, hFile⟩)
      (fun f' d' first slots' tail' hBehind hExtended => Method.wp_pure ?_) fun _ _ _ => trivial))
    rw [show (slotPairs (missingRecords persisted records)).length =
      (missingRecords persisted records).length from List.length_map _]
    refine hOk f' d' slots' tail' (laidFrom first (missingRecords persisted records)
      (foundPositions persisted records)) (hSpots.append _ hExtended) hBehind fun k => ?_
    rw [mem_laidFrom, hAll]

theorem wp_openStore_held :
    Method.wp (openStore records path) s₀ d (fun s _ d' => Held path s d') (fun _ _ _ => True)
      (fun _ _ _ => True) := by
  obtain ⟨hPathBlob, hPathTemp, -, -⟩ := blob_write_frame path
  have hPath : path ∉ aside path := fun hMem => hMem rfl
  have hRead : Method.Touches (aside path) (InsertLog.readEntries (S := S) (T := R) (K := Id)
      (InsertLog.logPath path) (SCHEMA_TAG R)) := InsertLog.touches_readEntries
  refine Method.wp_bind (hRead.wp (fun logged d₁ _ => ?_) fun _ _ _ => trivial)
  obtain ⟨merged, hMerged⟩ : ∃ merged, merged = mergeLog records logged := ⟨_, rfl⟩
  rw [← hMerged]
  have hStale : Method.Touches (aside path)
      (staleBlob (S := S) merged (GenericRecordBlob.blobPath path)) := by
    refine Method.Touches.bind (Method.Touches.bind (Method.Touches.attempt
      (Method.touches_openFile.bind fun _ => Method.touches_readExact)) fun _ =>
      Method.touches_pure _ _) fun current => ?_
    split
    · exact Method.touches_pure _ _
    · exact (Method.touches_ofExcept _ _).bind fun _ => Method.touches_pure _ _
  refine Method.wp_bind (hStale.wp (fun stale d₂ _ => ?_) fun _ _ _ => trivial)
  refine Method.wp_bind (SlotFile.wp_openAt (fun f slots tail hShows hTail => ?_)
    (fun _ _ => trivial) fun _ => trivial)
  refine Method.wp_bind (wp_reconcile_held hShows hTail
    fun f' d₃ slots' tail' positions hSpots hBehind hKeys => ?_)
  have hEnd : ∀ d₄, d₄ path = d₃ path → Method.wp (do
      InsertLog.clear (InsertLog.logPath path)
      return (⟨recordMap merged, buildIndex merged, positions, f'⟩ : GenericMmapStore R Id IV SV))
        s₀ d₄
      (fun s _ d' => Held path s d') (fun _ _ _ => True) (fun _ _ _ => True) := by
    intro d₄ hSame
    refine Method.wp_bind (InsertLog.wp_clear (Method.wp_pure ⟨paired_recordMap hKeys,
      slots', tail', hSpots, hBehind.frame ?_⟩) fun _ => trivial)
    rw [Function.update_of_ne (logPath_ne path).symm, hSame]
  cases stale with
  | none => exact hEnd d₃ rfl
  | some encoded =>
    have hInstall : Method.Touches (aside path)
        (RecordBlob.write (S := S) encoded (GenericRecordBlob.blobPath path)) :=
      RecordBlob.touches_write hPathBlob.symm hPathTemp.symm
    exact Method.wp_bind (hInstall.wp (fun _ d₄ hOff => hEnd d₄ (hOff path hPath)) fun _ _ _ =>
      trivial)

theorem wp_openPortable_held :
    Method.wp (openPortable path) s₀ d (fun (s : GenericMmapStore R Id IV SV) _ d' =>
      Held path s d') (fun _ _ _ => True) (fun _ _ _ => True) := by
  have hRead : Method.Touches (aside path) (readPortableRecords (S := S) (R := R) path) :=
    (Method.touches_readFile.bind fun _ => Method.touches_ofExcept _ _).bind fun _ =>
      InsertLog.touches_readEntries.bind fun _ => Method.touches_pure _ _
  exact Method.wp_bind (hRead.wp (fun _ d' _ => wp_openStore_held) fun _ _ _ => trivial)

end Opening

/-! ## The two paths -/

/-- The positions of the live records, in order. -/
def livePositions (s : GenericMmapStore R Id IV SV) : List Nat :=
  (s.positionIndex.entries.map (·.2)).insertionSort (· ≤ ·)

omit [StoredRecord R Id IV SV] [DecidableEq Id] [MmapFieldValue Id] [MmapFieldValue SV]
  [DecidableEq IV] [Serde R] [Serde Id] in
theorem livePositions_perm (s : GenericMmapStore R Id IV SV) :
    (livePositions s).Perm (s.positionIndex.entries.map (·.2)) :=
  List.perm_insertionSort _ _

/-- What a gapless file has: nothing but committed slots, each a live record's. -/
structure Gapless (s : GenericMmapStore R Id IV SV) (slots : List (Slot Id SV))
    (tail : Bytes) : Prop where
  tail : tail = []
  live : livePositions s = List.range slots.length
  marked : ∀ t ∈ slots, t.marker = COMMITTED

omit [StoredRecord R Id IV SV] [DecidableEq IV] [Serde R] [Serde Id] in
/-- When the live records account for every byte, no slot is anything else. -/
theorem Spots.gapless {slots : List (Slot Id SV)} {tail : Bytes}
    (h : Spots slots tail s.positionIndex)
    (hCount : s.positionIndex.entries.length * slotWidth Id SV =
      slots.length * slotWidth Id SV + tail.length) : Gapless s slots tail := by
  have hWidth := SlotFile.slotWidth_pos Id SV
  obtain ⟨taken, stray, hSize, hLive, hMarked⟩ := h.room
  have hBound := Nat.mul_le_mul_right (slotWidth Id SV) hLive
  have hStray : stray = 0 := by omega
  have hTail : tail = [] := by
    have hMod := congrArg (· % slotWidth Id SV) hCount
    simp only [Nat.mul_mod_left, Nat.add_comm (slots.length * _) tail.length,
      Nat.add_mul_mod_self_right, Nat.mod_eq_of_lt h.short] at hMod
    exact List.length_eq_zero_iff.mp hMod.symm
  subst hTail
  rw [List.length_nil, Nat.add_zero, Nat.mul_left_inj hWidth.ne'] at hCount
  have hPerm : (s.positionIndex.entries.map (·.2)).Perm (List.range slots.length) := by
    refine (List.subperm_of_subset (nodup_of_apart h.apart) fun p hp =>
      mem_range_of_inside h.inside hp).perm_of_length_le ?_
    rw [List.length_range, List.length_map, hCount]
  refine ⟨rfl, ?_, fun t ht => ?_⟩
  · refine ((livePositions_perm s).trans hPerm).eq_of_pairwise'
      (List.pairwise_insertionSort (· ≤ ·) _) ?_
    exact List.pairwise_le_range
  · obtain ⟨p, hp⟩ := List.mem_iff_getElem?.mp ht
    have hMem := hPerm.mem_iff.mpr (List.mem_range.mpr (List.getElem?_eq_some_iff.mp hp).1)
    obtain ⟨e, he, rfl⟩ := List.mem_map.mp hMem
    exact hMarked hStray e.1 e.2 t (AList.mem_lookup_iff.mpr he) hp

section Scans

variable {slots : List (Slot Id SV)} {tail : Bytes}

omit [StoredRecord R Id IV SV] [DecidableEq IV] [Serde R] [Serde Id] in
/-- Reading the live slots one by one. -/
theorem readLive (hSpots : Spots slots tail s.positionIndex)
    (hFile : s.file = ⟨⟨image slots tail, some path⟩, path⟩) :
    (livePositions s).mapM (SlotFile.readValue s.file) =
      .ok ((livePositions s).filterMap (valueAt slots)) := by
  refine mapM_eq_filterMap fun p hp => ?_
  have hIn :=
    List.mem_range.mp (mem_range_of_inside hSpots.inside ((livePositions_perm s).mem_iff.mp hp))
  refine ⟨slots[p].value, by rw [valueAt, List.getElem?_eq_getElem hIn]; rfl, ?_⟩
  rw [hFile, SlotFile.readValue_image (List.getElem?_eq_getElem hIn)]

omit [StoredRecord R Id IV SV] [DecidableEq IV] [Serde R] [Serde Id] in
/-- **Both paths** give the values of the live slots, in position order. -/
theorem scan_eq (hSpots : Spots slots tail s.positionIndex)
    (hFile : s.file = ⟨⟨image slots tail, some path⟩, path⟩) :
    scan s = (livePositions s).mapM (SlotFile.readValue s.file) := by
  have hGapless : isGapless s = .ok (decide (s.positionIndex.entries.length * slotWidth Id SV =
      slots.length * slotWidth Id SV + tail.length)) := by
    rw [isGapless, hFile, SlotFile.isGapless, SlotFile.bodyLen_image]
    rfl
  rw [scan, hGapless]
  simp only [bind, Except.bind]
  split
  · next hCount =>
    obtain ⟨rfl, hRange, -⟩ := hSpots.gapless (of_decide_eq_true hCount)
    rw [readLive hSpots hFile, hRange, filterMap_valueAt_range, hFile, SlotFile.slotBytes_image]
    simp only [pure, Except.pure]
    rw [Column.chunksExact_flat (SlotFile.slotWidth_pos Id SV) Slot.length_bytes slots hSpots.short,
      List.map_map]
    refine congrArg Except.ok (List.map_congr_left fun t _ => ?_)
    rw [Function.comp_apply, Slot.slice_value, MmapFieldValue.readLe_writeLe]
  · rfl

omit [DecidableEq IV] [Serde R] [Serde Id] in
/-- A live record is read with the value of its slot. -/
theorem get_held (hPaired : Paired s.records s.positionIndex)
    (hSpots : Spots slots tail s.positionIndex)
    (hFile : s.file = ⟨⟨image slots tail, some path⟩, path⟩) {k : Id} {p : Nat}
    (hp : s.positionIndex.lookup k = some p) :
    ∃ record v, valueAt slots p = some v ∧ get s k = .ok (some (setScannableValue v record)) := by
  have hMem : k ∈ s.records := (hPaired.keys k).mpr (AList.lookup_isSome.mp (by rw [hp]; rfl))
  obtain ⟨record, hRecord⟩ := Option.isSome_iff_exists.mp (AList.lookup_isSome.mpr hMem)
  have hSlot := List.getElem?_eq_getElem (hSpots.inside k p hp)
  refine ⟨record, _, by rw [valueAt, hSlot]; rfl, ?_⟩
  rw [get, hRecord, hp, hFile]
  simp only [SlotFile.readValue_image hSlot]
  rfl

omit [DecidableEq IV] [Serde R] [Serde Id] in
/-- The values of the live slots are the scannable values that `get` returns. -/
theorem values_perm (hPaired : Paired s.records s.positionIndex)
    (hSpots : Spots slots tail s.positionIndex)
    (hFile : s.file = ⟨⟨image slots tail, some path⟩, path⟩) :
    ((livePositions s).filterMap (valueAt slots)).Perm
      ((allIds s).filterMap fun k => (view s k).map scannableValue) := by
  have hKeys : s.positionIndex.keys.Perm (allIds s) :=
    (List.perm_ext_iff_of_nodup s.positionIndex.keys_nodup s.records.keys_nodup).mpr fun k => by
      show k ∈ s.positionIndex.keys ↔ k ∈ s.records.keys
      rw [← AList.mem_keys, ← AList.mem_keys, hPaired.keys]
  have hValues : s.positionIndex.keys.filterMap (fun k => (view s k).map scannableValue) =
      (s.positionIndex.entries.map (·.2)).filterMap (valueAt slots) := by
    rw [AList.keys, List.keys, List.filterMap_map, List.filterMap_map]
    refine List.filterMap_congr fun e he => ?_
    obtain ⟨record, v, hValue, hGet⟩ := get_held hPaired hSpots hFile (AList.mem_lookup_iff.mpr he)
    rw [Function.comp_apply, Function.comp_apply, hValue, view, hGet]
    exact congrArg some (scannableValue_set v record)
  refine ((livePositions_perm s).filterMap (valueAt slots)).trans ?_
  rw [← hValues]
  exact hKeys.filterMap _

end Scans

/-! ## Runs -/

/-- The states a store in service gets into: created or opened over any records on any disk, then
calls that return, and calls that fail. A compaction that fails behind the point where it let go of
its mapping takes the store out of service. -/
inductive InService (path : Path) : GenericMmapStore R Id IV SV → Disk → Prop where
  | created {records d plan s p} (hRun : create records path ⟨(), d, plan⟩ = .ok s p) :
    InService path s p.disk
  | opened {records d plan s p} (hRun : openStore records path ⟨(), d, plan⟩ = .ok s p) :
    InService path s p.disk
  | reopened {d plan s p} (hRun : openPortable path ⟨(), d, plan⟩ = .ok s p) :
      InService path s p.disk
  | returned {op plan s d p} (h : InService path s d)
    (hRun : Op.method op ⟨s, d, plan⟩ = .ok () p) :
    InService path p.self p.disk
  | failed {op plan s d p e} (h : InService path s d)
    (hRun : Op.method op ⟨s, d, plan⟩ = .error (.error e) p) (hKept : op = .compact → p.self = s) :
    InService path p.self p.disk

theorem wp_method_held (h : Held path s d) (op : Op R Id SV) :
    Method.wp op.method s d (fun _ => Held path) (fun e s' d' => (op = .compact → s' = s) →
      Stopped path e s' d') (fun e s' d' => (op = .compact → s' = s) → Stopped path e s' d') := by
  have hKept : ∀ {ε : Type} {f : ε → Option DurabilityError} (e : Stop ε) (s' : GenericMmapStore R
      Id IV SV) d', Stopped path e s' d' → Method.onMapped f
        (fun e s' d' => (op = .compact → s' = s) → Stopped path e s' d') e s' d' := by
    intro ε f e s' d' hStopped
    cases e with
    | error e => exact fun _ _ _ => hStopped e rfl
    | panic => exact fun _ _ hEq => nomatch hEq
    | crash => exact fun _ _ hEq => nomatch hEq
  cases op with
  | insert record =>
    exact Method.wp_mapError ((wp_insert_held h record).mono (fun _ _ _ => And.left) hKept hKept)
  | replace record =>
    exact Method.wp_mapError ((wp_replace_held h record).mono (fun _ _ _ => And.left) hKept hKept)
  | update key value => exact Method.wp_mapError ((wp_update_held h key value).mono
      (fun _ _ _ => And.left) hKept hKept)
  | delete key =>
    exact Method.wp_mapError ((wp_delete_held h key).mono (fun _ _ _ => And.left) hKept hKept)
  | compact =>
    refine Method.wp_mapError
      (Method.wp_bind ((wp_compact_held h).mono (fun _ s' d' h' => Method.wp_pure h'.1) ?_ ?_)) <;>
    · intro e s' d' hStopped
      cases e with
      | error e => exact fun hSame _ _ => hStopped (hSame rfl) e rfl
      | panic => exact fun _ _ hEq => nomatch hEq
      | crash => exact fun _ _ hEq => nomatch hEq

theorem InService.held (h : InService path s d) : Held path s d := by
  induction h with
  | created hRun => exact wp_create_held.of_ok hRun
  | opened hRun => exact wp_openStore_held.of_ok hRun
  | reopened hRun => exact wp_openPortable_held.of_ok hRun
  | @returned op plan s d p _ hRun ih => exact (wp_method_held ih op).of_ok hRun
  | @failed op plan s d p e _ hRun hKept ih =>
    exact ((wp_method_held ih op).of_error hRun).elim (fun hStopped => hStopped hKept e rfl)
      fun hStopped => hStopped hKept e rfl

/-- **The two paths of a scan.** In every state of a store in service a scan returns, by either
path, the values of the live slots in position order, and these are the scannable values that `get`
returns for the live ids. The store takes the path of a gapless file only where every slot is
committed, each is a live record's, and no partial slot trails. -/
theorem scan_paths (h : InService path s d) :
    ∃ values, scan s = .ok values ∧
      (livePositions s).mapM (SlotFile.readValue s.file) = .ok values ∧
      values.Perm ((allIds s).filterMap fun k => (view s k).map scannableValue) ∧
      (∀ k ∈ allIds s, ∃ record, get s k = .ok (some record)) ∧
      (isGapless s = .ok true → SlotFile.trailingPartialBytes s.file = .ok 0 ∧
        ∃ count, SlotFile.slotCount s.file = .ok count ∧ livePositions s = List.range count ∧
          ∀ p < count, SlotFile.isCommitted Id SV s.file.mmap.bytes p) := by
  obtain ⟨hPaired, slots, tail, hSpots, hFile, -⟩ := h.held
  refine ⟨_, (scan_eq hSpots hFile).trans (readLive hSpots hFile), readLive hSpots hFile,
    values_perm hPaired hSpots hFile, fun k hk => ?_, fun hGapless => ?_⟩
  · have hMem : k ∈ s.positionIndex := (hPaired.keys k).mp hk
    obtain ⟨p, hp⟩ := Option.isSome_iff_exists.mp (AList.lookup_isSome.mpr hMem)
    obtain ⟨record, v, -, hGet⟩ := get_held hPaired hSpots hFile hp
    exact ⟨_, hGet⟩
  · rw [isGapless, hFile, SlotFile.isGapless, SlotFile.bodyLen_image] at hGapless
    have hCount := of_decide_eq_true (Except.ok.inj hGapless)
    obtain ⟨rfl, hRange, hMarked⟩ := hSpots.gapless hCount
    rw [hFile]
    refine ⟨SlotFile.trailingPartialBytes_image slots [] _ _ hSpots.short, slots.length,
      SlotFile.slotCount_image slots [] _ _ hSpots.short, hRange, fun p hp => ?_⟩
    rw [SlotFile.isCommitted_image (List.getElem?_eq_getElem hp)]
    exact decide_eq_true (hMarked _ (List.getElem_mem hp))

/-- A compaction that fails has a reason. -/
theorem compact_never_refused {p : Proc (GenericMmapStore R Id IV SV)}
    (st : Proc (GenericMmapStore R Id IV SV)) :
    (Op.compact : Op R Id SV).method st ≠ .error (.error none) p := by
  intro hRun
  change Method.mapError some (do let _ ← compact; return ()) st = _ at hRun
  unfold Method.mapError at hRun
  split at hRun <;> cases hRun

/-- Calls that return leave a store in service. -/
theorem InService.run {calls : List (Op R Id SV × List Outcome)}
    {st : GenericMmapStore R Id IV SV × Disk}
    (h : InService path s d) (hRun : GenericMmapStore.run (s, d) calls = some st) :
    InService path st.1 st.2 := by
  induction calls generalizing s d with
  | nil =>
    cases hRun
    exact h
  | cons call calls ih =>
    obtain ⟨op, plan⟩ := call
    obtain ⟨⟨s', d'⟩, hAfter, hRest⟩ := Option.bind_eq_some_iff.mp hRun
    refine ih ?_ hRest
    unfold Op.after at hAfter
    split at hAfter
    · next hReturned =>
      cases hAfter
      exact h.returned hReturned
    · next hRefused =>
      cases hAfter
      refine h.failed hRefused fun hOp => ?_
      subst hOp
      exact absurd hRefused (compact_never_refused _)
    · cases hAfter

/-- Both paths give the same values after an update, a deletion, insertions and a compaction. -/
theorem scan_paths_sample :
    ∃ (s₀ : GenericMmapStore Order Uuid OrderStatus Int64) (p : Proc Unit)
      (st : GenericMmapStore Order Uuid OrderStatus Int64 × Disk) (values : List Int64),
      create sampleRecords samplePath ⟨(), fun _ => none, []⟩ = .ok s₀ p ∧
        run (s₀, p.disk) sampleCalls = some st ∧
        scan st.1 = .ok values ∧ (livePositions st.1).mapM (SlotFile.readValue st.1.file) =
        .ok values ∧
        values.Perm ((allIds st.1).filterMap fun k => (view st.1 k).map scannableValue) := by
  obtain ⟨s₀, p, st, hCreate, hRun, -⟩ := sample_run
  have hStart : InService samplePath s₀ p.disk := .created hCreate
  obtain ⟨values, hScan, hLive, hPerm, -⟩ := scan_paths (hStart.run hRun)
  exact ⟨s₀, p, st, values, hCreate, hRun, hScan, hLive, hPerm⟩

/-- `open` on a file that holds two orders, over the first of them: both slots are committed, and a
scan returns the value of one. -/
theorem scan_skips_a_committed_slot :
    ¬ ∀ (path : Path) (s : GenericMmapStore Order Uuid OrderStatus Int64) (d : Disk),
      InService path s d → ∃ count, SlotFile.slotCount s.file = .ok count ∧ scan s =
        ((List.range count).filter (SlotFile.isCommitted Uuid Int64 s.file.mmap.bytes)).mapM
          (SlotFile.readValue s.file) := by
  intro hClaim
  have hOpen : reopenedOverOne.map (fun r => (SlotFile.slotCount r.1.file, scan r.1,
      ((List.range 2).filter (SlotFile.isCommitted Uuid Int64 r.1.file.mmap.bytes)).mapM
        (SlotFile.readValue r.1.file))) = some (.ok 2, .ok [10], .ok [10, 20]) := by decide +kernel
  obtain ⟨⟨s, q⟩, hOpen, hReads⟩ := Option.map_eq_some_iff.mp hOpen
  obtain ⟨d, hRun⟩ := reopenedOverOne_eq hOpen
  simp only [Prod.mk.injEq] at hReads
  obtain ⟨hCount, hScan, hCommitted⟩ := hReads
  obtain ⟨count, hFound, hEq⟩ := hClaim samplePath s q.disk (.opened hRun)
  obtain rfl : 2 = count := Except.ok.inj (hCount.symm.trans hFound)
  rw [hScan, hCommitted] at hEq
  exact absurd hEq (by decide)

end GenericMmapStore

end MultimodalDb
