import MultimodalDb.Generic.InsertLogRules
import MultimodalDb.Generic.MmapMaps
import MultimodalDb.Generic.SlotFileRules

/-!
# Rules for the generic store

The representation invariant (`Rep`): the mapped file shows a list of slots, the record map and the
position map have the same ids, the position of an id is its last committed slot, and the index is
exact. What the store answers is then a map from ids to records, its `view`: the record of the
record map with the value of its slot.

Each operation is described by what it does to the log, to the view, and to what the record map
holds up to the scannable field (`live`), which is all of a record that the log and the blob have to
get right. An operation that is logged has one effect, its log entry read as a write (`Wrote`).
-/

namespace MultimodalDb

open StoredRecord hiding id
open StoredRecord renaming id → idOf
open SlotFile (LastCommitted image COMMITTED)

namespace GenericMmapStore

variable {R Id IV SV : Type}

section Positions

variable [DecidableEq Id]

/-- A live id: its record, its position, and the value in its slot. -/
def At (s : GenericMmapStore R Id IV SV) (slots : List (Slot Id SV)) (k : Id) (record : R)
    (p : Nat) (v : SV) : Prop :=
  s.records.lookup k = some record ∧ s.positionIndex.lookup k = some p ∧ LastCommitted slots k p v

/-- A committed slot that is no live id's position. -/
def Stray (s : GenericMmapStore R Id IV SV) (slots : List (Slot Id SV)) (q : Nat) : Prop :=
  ∃ t, slots[q]? = some t ∧ t.marker = COMMITTED ∧ s.positionIndex.lookup t.id ≠ some q

/-- Distinct live ids have distinct positions. -/
theorem At.ne_position {s : GenericMmapStore R Id IV SV} {slots : List (Slot Id SV)} {k k' : Id}
    {record record' : R} {p p' : Nat} {v v' : SV} (h : At s slots k record p v)
    (h' : At s slots k' record' p' v') (hk : k ≠ k') : p ≠ p' := by
  rintro rfl
  have hSlot := h.2.2.1.symm.trans h'.2.2.1
  simp only [Option.some.injEq, Slot.mk.injEq] at hSlot
  exact hk hSlot.1

/-- No slot becomes stray by a new value in a live one. -/
theorem Stray.of_set_value {s s' : GenericMmapStore R Id IV SV} {slots : List (Slot Id SV)} {k : Id}
    {record : R} {p : Nat} {v : SV}
    (hPositions : s'.positionIndex = s.positionIndex) (hAt : At s slots k record p v)
    {w : SV} {q : Nat} (hStray : Stray s' (slots.set p ⟨k, w, COMMITTED⟩) q) : Stray s slots q := by
  obtain ⟨t, ht, hMark, hPos⟩ := hStray
  rw [hPositions] at hPos
  by_cases hpq : p = q
  · subst hpq
    have hIn := (List.getElem?_eq_some_iff.mp hAt.2.2.1).1
    rw [List.getElem?_set_self hIn] at ht
    cases ht
    exact (hPos hAt.2.1).elim
  · rw [List.getElem?_set_ne hpq] at ht
    exact ⟨t, ht, hMark, hPos⟩

end Positions

variable [StoredRecord R Id IV SV]

/-! ## What a store holds -/

/-- A record up to its scannable field. -/
def shape (record : R) (value : SV) : R := setScannableValue value record

@[simp] theorem shape_set (record : R) (value : SV) :
    shape (setScannableValue value record) = shape record :=
  funext fun w => set_set w value record

theorem shape_scannableValue (record : R) : shape record (scannableValue record) = record :=
  set_scannableValue record

@[simp] theorem scannableValue_shape (record : R) (value : SV) :
    scannableValue (shape record value) = value :=
  scannableValue_set value record

variable [DecidableEq Id]

/-- The record map up to the scannable field. -/
def live (s : GenericMmapStore R Id IV SV) (k : Id) : Option (SV → R) :=
  (s.records.lookup k).map shape

/-- The live records after one record was written. -/
theorem live_write {s s' : GenericMmapStore R Id IV SV} {k : Id} {new : Option R}
    (h : (fun j => s'.records.lookup j) = Function.update (fun j => s.records.lookup j) k new) :
    live s' = Function.update (live s) k (new.map shape) := by
  funext j
  rw [live, show s'.records.lookup j = _ from congrFun h j]
  by_cases hjk : j = k
  · subst hjk
    rw [Function.update_self, Function.update_self]
  · rw [Function.update_of_ne hjk, Function.update_of_ne hjk, live]

variable [MmapFieldValue Id] [MmapFieldValue SV]

/-- What the store answers for each id. -/
def view (s : GenericMmapStore R Id IV SV) (k : Id) : Option R :=
  (get s k).toOption.join

variable {s : GenericMmapStore R Id IV SV} {path : Path} {slots : List (Slot Id SV)} {k : Id}
variable {record : R} {p : Nat} {v : SV}

theorem get_none (hk : s.records.lookup k = none) : get s k = .ok none := by
  unfold get
  rw [hk]

theorem view_none (hk : s.records.lookup k = none) : view s k = none := by
  rw [view, get_none hk]
  rfl

variable [DecidableEq IV]

/-- The store answers from its maps and a mapped list of slots. -/
structure Rep (s : GenericMmapStore R Id IV SV) (path : Path) (slots : List (Slot Id SV)) :
    Prop where
  file : s.file = ⟨⟨image slots [], some path⟩, path⟩
  keys : ∀ k, k ∈ s.records ↔ k ∈ s.positionIndex
  ids : ∀ k record, s.records.lookup k = some record → idOf record = k
  last : ∀ k p, s.positionIndex.lookup k = some p → ∃ v, LastCommitted slots k p v
  buckets : Buckets (fun k => s.records.lookup k) s.index

theorem Rep.exists_at (h : Rep s path slots) (hk : s.records.lookup k = some record) :
    ∃ p v, At s slots k record p v := by
  have hMem : k ∈ s.positionIndex := (h.keys k).mp (AList.lookup_isSome.mp (by rw [hk]; rfl))
  obtain ⟨p, hp⟩ := Option.isSome_iff_exists.mp (AList.lookup_isSome.mpr hMem)
  obtain ⟨v, hv⟩ := h.last k p hp
  exact ⟨p, v, hk, hp, hv⟩

theorem Rep.position_none (h : Rep s path slots) (hk : s.records.lookup k = none) :
    s.positionIndex.lookup k = none := by
  rw [AList.lookup_eq_none] at hk ⊢
  exact fun hMem => hk ((h.keys k).mpr hMem)

theorem Rep.get_at (h : Rep s path slots) (hAt : At s slots k record p v) :
    get s k = .ok (some (shape record v)) := by
  unfold get
  rw [hAt.1, hAt.2.1, h.file]
  simp only [SlotFile.readValue_image hAt.2.2.1]
  rfl

/-- No read of a represented store panics, and the view is what it answers. -/
theorem Rep.get_eq (h : Rep s path slots) (k : Id) : get s k = .ok (view s k) := by
  unfold view
  cases hk : s.records.lookup k with
  | none =>
    rw [get_none hk]
    rfl
  | some record =>
    obtain ⟨p, v, hAt⟩ := h.exists_at hk
    rw [h.get_at hAt]
    rfl

theorem Rep.view_at (h : Rep s path slots) (hAt : At s slots k record p v) :
    view s k = some (shape record v) := by
  rw [view, h.get_at hAt]
  rfl

theorem Rep.view_eq_none_iff (h : Rep s path slots) :
    view s k = none ↔ s.records.lookup k = none := by
  refine ⟨fun hView => ?_, view_none⟩
  cases hk : s.records.lookup k with
  | none => rfl
  | some record =>
    obtain ⟨p, v, hAt⟩ := h.exists_at hk
    rw [h.view_at hAt] at hView
    cases hView

/-- An id whose record and slot are untouched is answered as before. -/
theorem view_frame {s' : GenericMmapStore R Id IV SV} {slots' : List (Slot Id SV)}
    (h : Rep s path slots) (h' : Rep s' path slots')
    (hRecords : s'.records.lookup k = s.records.lookup k)
    (hAt : ∀ record p v, At s slots k record p v → At s' slots' k record p v) :
    view s' k = view s k := by
  cases hk : s.records.lookup k with
  | none => rw [view_none hk, view_none (hRecords.trans hk)]
  | some record =>
    obtain ⟨p, v, hp⟩ := h.exists_at hk
    rw [h.view_at hp, h'.view_at (hAt record p v hp)]

/-- The maps over a file in which one live slot has a new value. -/
theorem Rep.set_value (h : Rep s path slots) (hAt : At s slots k record p v) (w : SV)
    {file : SlotFile Id SV}
    (hFile : file = ⟨⟨image (slots.set p ⟨k, w, COMMITTED⟩) [], some path⟩, path⟩) :
    Rep (setFile file s) path (slots.set p ⟨k, w, COMMITTED⟩) where
  file := hFile
  keys := h.keys
  ids := h.ids
  last j q hj := by
    obtain ⟨u, hu⟩ := h.last j q hj
    by_cases hjk : j = k
    · subst hjk
      obtain rfl : q = p := Option.some.inj (hj.symm.trans hAt.2.1)
      exact ⟨w, hAt.2.2.set_value w⟩
    · exact ⟨u, hu.set_other hAt.2.2 hjk rfl⟩
  buckets := h.buckets

/-- The answers up to the scannable field are the live records. -/
theorem Rep.view_shape (h : Rep s path slots) (k : Id) : (view s k).map shape = live s k := by
  rw [live]
  cases hk : s.records.lookup k with
  | none => rw [view_none hk, Option.map_none]
  | some record =>
    obtain ⟨p, v, hAt⟩ := h.exists_at hk
    rw [h.view_at hAt, Option.map_some, Option.map_some, shape, shape_set]

variable [Serde R] [Serde Id]

/-! ## A store and its files -/

/-- The store at `path` between two operations: its slot file shows `slots`, its log holds `L`. -/
structure Session (path : Path) (L : List (LogEntry R Id)) (slots : List (Slot Id SV))
    (s : GenericMmapStore R Id IV SV) (d : Disk) : Prop where
  rep : Rep s path slots
  file : d path = some (image slots [])
  log : InsertLog.Holds (SCHEMA_TAG R) L (d (InsertLog.logPath path))

/-- What a logged operation does: its entry is a write of the view and of the live records, and it
leaves no new stray slot. -/
structure Wrote (path : Path) (entry : LogEntry R Id) (L : List (LogEntry R Id))
    (slots : List (Slot Id SV)) (s : GenericMmapStore R Id IV SV) (d : Disk)
    (slots' : List (Slot Id SV)) (s' : GenericMmapStore R Id IV SV) (d' : Disk) : Prop where
  session : Session path (L ++ [entry]) slots' s' d'
  view : view s' = Function.update (view s) (written entry).1 (written entry).2
  live : live s' = Function.update (live s) (written entry).1 ((written entry).2.map shape)
  blob : d' (GenericRecordBlob.blobPath path) = d (GenericRecordBlob.blobPath path)
  strays : ∀ q, Stray s' slots' q → Stray s slots q

/-- The companions are files of their own. -/
theorem logPath_ne (path : Path) : InsertLog.logPath path ≠ path :=
  append_suffix_ne (by decide) path

theorem blobPath_ne (path : Path) : GenericRecordBlob.blobPath path ≠ path :=
  append_suffix_ne (by decide) path

theorem blobPath_ne_logPath (path : Path) :
    GenericRecordBlob.blobPath path ≠ InsertLog.logPath path :=
  append_suffix_ne_append (by decide) path

/-! ## Insert -/

section Insert

variable {L : List (LogEntry R Id)} {d : Disk}

/-- The first step: the log entry, or a refusal with nothing written. -/
theorem wp_insertEntry {Q : Unit → GenericMmapStore R Id IV SV → Disk → Prop}
    {A C : Stop (InsertError Id) → GenericMmapStore R Id IV SV → Disk → Prop}
    (h : Session path L slots s d) (record : R)
    (hOk : s.records.lookup (idOf record) = none → ∀ d',
      Session path (L ++ [.item record]) slots s d' →
      Disk.AgreeOff [InsertLog.logPath path] d d' → Q () s d')
    (hDuplicate : idOf record ∈ s.records → A (.error (.duplicate (idOf record))) s d)
    (hDurable : ∀ e, A (.error (.durability e)) s d)
    (hStop : ∀ e d', (∀ k, e ≠ .error (.duplicate k)) → C e s d') :
    Method.wp (insertEntry record) s d Q A C := by
  refine Method.wp_bind (Method.wp_self ?_)
  split
  · next hMem => exact Method.wp_fail (hDuplicate hMem)
  · next hNew =>
    rw [h.rep.file]
    have hAgree : ∀ file, Disk.AgreeOff [InsertLog.logPath path] d
        (Function.update d (InsertLog.logPath path) file) := fun file =>
      (Disk.AgreeOff.refl _ d).update (List.mem_singleton_self _) file
    refine Method.wp_mapError (InsertLog.wp_append (.item record) h.log
      (fun file hFile => ?_) hDurable (fun e => ?_) (fun e payload n _ => ?_))
    · refine hOk (AList.lookup_eq_none.mpr hNew) _ ⟨h.rep, ?_, ?_⟩ (hAgree file)
      · rw [Function.update_of_ne (logPath_ne path).symm]
        exact h.file
      · rwa [Function.update_self]
    · cases e <;> exact hStop _ _ fun _ h => nomatch h
    · cases e <;> exact hStop _ _ fun _ h => nomatch h

/-- The second step: the slot, and the record in the maps. -/
theorem wp_insertSlot {Q : Unit → GenericMmapStore R Id IV SV → Disk → Prop}
    {A C : Stop (InsertError Id) → GenericMmapStore R Id IV SV → Disk → Prop}
    (h : Session path L slots s d) {record : R} (hNew : s.records.lookup (idOf record) = none)
    (hOk : ∀ s' d', Session path L (slots ++ [.commit (idOf record, scannableValue record)]) s' d' →
      s'.records = s.records.insert (idOf record) record →
      s'.positionIndex = s.positionIndex.insert (idOf record) slots.length →
      Disk.AgreeOff [path] d d' → Q () s' d')
    (hStop : ∀ e s' d', (∀ k, e ≠ .error (.duplicate k)) → C e s' d') :
    Method.wp (insertSlot record) s d Q A C := by
  have hTail : ([] : Bytes).length < SlotFile.slotWidth Id SV := SlotFile.slotWidth_pos Id SV
  have hAgree : ∀ file, Disk.AgreeOff [path] d (Function.update d path file) := fun file =>
    (Disk.AgreeOff.refl _ d).update (List.mem_singleton_self path) file
  refine Method.wp_bind (Method.wp_mapError (Method.wp_onPart (SlotFile.wp_appendCommittedSlots
    (by rw [h.rep.file]) h.file hTail (fun bytes hBytes => ?_) fun e d' _ => ?_)))
  · obtain rfl : bytes = image (slots ++ [.commit (idOf record, scannableValue record)]) [] := by
      rw [hBytes, SlotFile.image_append]
      rfl
    refine Method.wp_modifySelf
      (hOk _ _ ⟨⟨rfl, fun k => ?_, fun k r hr => ?_, fun k q hq => ?_, ?_⟩,
      Function.update_self .., ?_⟩ rfl rfl (hAgree _))
    · show k ∈ s.records.insert _ _ ↔ k ∈ s.positionIndex.insert _ _
      rw [AList.mem_insert, AList.mem_insert, h.rep.keys k]
    · change (s.records.insert _ _).lookup k = some r at hr
      by_cases hk : k = idOf record
      · subst hk
        rw [AList.lookup_insert] at hr
        cases hr
        rfl
      · rw [AList.lookup_insert_ne hk] at hr
        exact h.rep.ids k r hr
    · change (s.positionIndex.insert _ _).lookup k = some q at hq
      by_cases hk : k = idOf record
      · subst hk
        rw [AList.lookup_insert] at hq
        cases hq
        exact ⟨_, SlotFile.lastCommitted_snoc_self slots (idOf record, scannableValue record)⟩
      · rw [AList.lookup_insert_ne hk] at hq
        obtain ⟨v, hv⟩ := h.rep.last k q hq
        exact ⟨v, hv.snoc fun _ => Ne.symm hk⟩
    · show Buckets (fun k => (s.records.insert _ _).lookup k) (pushId s.index _ _)
      rw [MapPairs.lookup_insert_eq_update]
      exact h.rep.buckets.push hNew record
    · rw [Function.update_of_ne (logPath_ne path)]
      exact h.log
  · cases e <;> exact hStop _ _ _ fun _ h => nomatch h

/-- An insert that returns wrote its entry; one that is refused wrote nothing. -/
theorem wp_insert (h : Session path L slots s d) (record : R) :
    Method.wp (insert record) s d
      (fun _ s' d' => s.records.lookup (idOf record) = none ∧
        Wrote path (.item record) L slots s d
          (slots ++ [.commit (idOf record, scannableValue record)]) s' d')
      (fun e s' d' => s' = s ∧ d' = d ∧
        ∀ k, e = .error (.duplicate k) → idOf record ∈ s.records)
      (fun e _ _ => ∀ k, e ≠ .error (.duplicate k)) := by
  refine Method.wp_bind (wp_insertEntry h record (fun hNew d₁ h₁ hAgree₁ => ?_)
    (fun hMem => ⟨rfl, rfl, fun _ _ => hMem⟩) (fun _ => ⟨rfl, rfl, fun _ hEq => nomatch hEq⟩)
    fun _ _ hStop => hStop)
  refine wp_insertSlot h₁ hNew (fun s' d' h' hRecords hPositions hAgree =>
    ⟨hNew, h', ?_, ?_, ?_, ?_⟩) fun _ _ _ hStop => hStop
  · -- the new id is answered from the new slot, every other as before
    show view s' = Function.update (view s) (idOf record) (some record)
    funext k
    by_cases hk : k = idOf record
    · subst hk
      have hAt : At s' (slots ++ [.commit (idOf record, scannableValue record)]) (idOf record)
          record slots.length (scannableValue record) :=
        ⟨by rw [hRecords, AList.lookup_insert], by rw [hPositions, AList.lookup_insert],
          SlotFile.lastCommitted_snoc_self slots _⟩
      rw [h'.rep.view_at hAt, shape_scannableValue, Function.update_self]
    · rw [Function.update_of_ne hk]
      refine view_frame h.rep h'.rep ?_ fun r p v hAt => ?_
      · rw [hRecords, AList.lookup_insert_ne hk]
      · exact ⟨by rw [hRecords, AList.lookup_insert_ne hk, hAt.1],
          by rw [hPositions, AList.lookup_insert_ne hk, hAt.2.1], hAt.2.2.snoc fun _ => Ne.symm hk⟩
  · exact live_write (by rw [hRecords, MapPairs.lookup_insert_eq_update]; rfl)
  · rw [hAgree _ (by simpa using blobPath_ne path),
      hAgree₁ _ (by simpa using blobPath_ne_logPath path)]
  · rintro q ⟨t, ht, hMark, hPos⟩
    rw [hPositions] at hPos
    by_cases hIn : q < slots.length
    · rw [List.getElem?_append_left hIn] at ht
      refine ⟨t, ht, hMark, ?_⟩
      by_cases hk : t.id = idOf record
      · rw [hk, h.rep.position_none hNew]
        exact fun hNone => nomatch hNone
      · rwa [AList.lookup_insert_ne hk] at hPos
    · have hEnd := (List.getElem?_eq_some_iff.mp ht).1
      rw [List.length_append, List.length_singleton] at hEnd
      obtain rfl : q = slots.length := by omega
      rw [List.getElem?_concat_length] at ht
      cases ht
      exact (hPos (AList.lookup_insert s.positionIndex)).elim

end Insert

/-! ## Update -/

section Update

variable {L : List (LogEntry R Id)} {d : Disk}

/-- What an update does: one record's scannable value, in the view and nowhere else. -/
structure Touched (path : Path) (L : List (LogEntry R Id)) (slots : List (Slot Id SV))
    (s : GenericMmapStore R Id IV SV) (d : Disk) (key : Id) (value : SV)
    (slots' : List (Slot Id SV)) (s' : GenericMmapStore R Id IV SV) (d' : Disk) : Prop where
  session : Session path L slots' s' d'
  records : s'.records = s.records
  view : view s' = Function.update (view s) key ((view s key).map (setScannableValue value))
  blob : d' (GenericRecordBlob.blobPath path) = d (GenericRecordBlob.blobPath path)
  strays : ∀ q, Stray s' slots' q → Stray s slots q

omit [Serde R] [Serde Id] in
/-- An update that returns changed one value, in the slot file alone; one refused for an unknown id
changed nothing. -/
theorem wp_update_slot (h : Rep s path slots) (hFile : d path = some (image slots [])) (key : Id)
    (value : SV) :
    Method.wp (update key value) s d
      (fun _ s' d' => (s.records.lookup key).isSome ∧ ∃ slots', Rep s' path slots' ∧
        d' path = some (image slots' []) ∧ s'.records = s.records ∧
        view s' = Function.update (view s) key ((view s key).map (setScannableValue value)) ∧
        (∀ q, Stray s' slots' q → Stray s slots q) ∧ Disk.AgreeOff [path] d d')
      (fun _ s' d' => s' = s ∧ d' = d ∧ s.records.lookup key = none)
      (fun e _ _ => e = .crash) := by
  refine Method.wp_bind (Method.wp_self ?_)
  split
  · next p hp =>
    have hMem : key ∈ s.records := (h.keys key).mpr (AList.lookup_isSome.mp (by rw [hp]; rfl))
    obtain ⟨record, hRecord⟩ := Option.isSome_iff_exists.mp (AList.lookup_isSome.mpr hMem)
    obtain ⟨v, hv⟩ := h.last key p hp
    have hAt : At s slots key record p v := ⟨hRecord, hp, hv⟩
    refine Method.wp_onPart (SlotFile.wp_writeValue ⟨h.file, hFile⟩ hv.1
      (fun f' d' hShows hAgree => ⟨by rw [hRecord]; rfl, slots.set p ⟨key, value, COMMITTED⟩, ?_⟩)
      fun _ _ => rfl)
    have hRep := h.set_value hAt value hShows.1
    refine ⟨hRep, hShows.2, rfl, ?_, fun q => Stray.of_set_value rfl hAt, hAgree⟩
    funext k
    by_cases hk : k = key
    · subst hk
      rw [Function.update_self, h.view_at hAt,
        hRep.view_at ⟨hRecord, hp, hv.set_value value⟩]
      exact congrArg some (set_set value v record).symm
    · rw [Function.update_of_ne hk]
      exact view_frame h hRep rfl fun r q u hq => ⟨hq.1, hq.2.1, hq.2.2.set_other hv hk rfl⟩
  · next hNone =>
    refine Method.wp_fail ⟨rfl, rfl, ?_⟩
    rw [AList.lookup_eq_none, h.keys, ← AList.lookup_eq_none]
    exact hNone

theorem wp_update (h : Session path L slots s d) (key : Id) (value : SV) :
    Method.wp (update key value) s d
      (fun _ s' d' => (s.records.lookup key).isSome ∧
        ∃ slots', Touched path L slots s d key value slots' s' d')
      (fun _ s' d' => s' = s ∧ d' = d ∧ s.records.lookup key = none)
      (fun e _ _ => e = .crash) := by
  refine (wp_update_slot h.rep h.file key value).mono (fun _ s' d' hDone => ?_) (fun _ _ _ => id)
    fun _ _ _ => id
  obtain ⟨hKnown, slots', hRep, hFile, hRecords, hView, hStrays, hAgree⟩ := hDone
  refine ⟨hKnown, slots', ⟨hRep, hFile, ?_⟩, hRecords, hView, ?_, hStrays⟩
  · rw [hAgree _ (by simpa using logPath_ne path)]
    exact h.log
  · exact hAgree _ (by simpa using blobPath_ne path)

end Update

/-! ## Replace -/

section Replace

variable {L : List (LogEntry R Id)} {d : Disk}

/-- A replacement that returns wrote its entry; one that is refused wrote nothing. -/
theorem wp_replace (h : Session path L slots s d) (record : R) :
    Method.wp (replace record) s d
      (fun _ s' d' => (s.records.lookup (idOf record)).isSome ∧
        ∃ slots', Wrote path (.item record) L slots s d slots' s' d')
      (fun e s' d' => s' = s ∧ d' = d ∧
        ∀ k, e = .error (.notFound k) → s.records.lookup (idOf record) = none)
      (fun e _ _ => ∀ k, e ≠ .error (.notFound k)) := by
  refine Method.wp_bind (Method.wp_self ?_)
  split
  · next old p hOld hp =>
    obtain ⟨v, hv⟩ := h.rep.last _ p hp
    have hAt : At s slots (idOf record) old p v := ⟨hOld, hp, hv⟩
    rw [h.rep.file]
    refine Method.wp_bind (Method.wp_mapError (InsertLog.wp_append (.item record) h.log
      (fun file hLog => ?_) (fun _ => ⟨rfl, rfl, fun _ hEq => nomatch hEq⟩)
      (fun e => by cases e <;> exact fun _ hEq => nomatch hEq)
      (fun e _ _ _ => by cases e <;> exact fun _ hEq => nomatch hEq)))
    have hFile : Function.update d (InsertLog.logPath path) file path = some (image slots []) := by
      rw [Function.update_of_ne (logPath_ne path).symm, h.file]
    refine Method.wp_bind (Method.wp_onPart (SlotFile.wp_writeValue ⟨h.rep.file, hFile⟩ hv.1
      (fun f' d' hShows hAgree => Method.wp_modifySelf ?_) fun _ _ _ hEq => nomatch hEq))
    have hRep := h.rep.set_value hAt (scannableValue record) hShows.1
    -- the slot has the new value; now the maps follow
    suffices hDone : ∀ s' : GenericMmapStore R Id IV SV, s'.file = f' →
        s'.records = s.records.insert (idOf record) record → s'.positionIndex = s.positionIndex →
        s'.index = (if indexedValue old ≠ indexedValue record then
            pushId (dropId s.index (indexedValue old) (idOf record)) (indexedValue record)
              (idOf record)
          else s.index) →
        (s.records.lookup (idOf record)).isSome ∧
          ∃ slots', Wrote path (.item record) L slots s d slots' s' d' from hDone _ rfl rfl rfl rfl
    intro s' hMapped hRecords hPositions hIndex
    have hRep' : Rep s' path (slots.set p ⟨idOf record, scannableValue record, COMMITTED⟩) := by
      refine ⟨?_, fun k => ?_, fun k r hr => ?_, ?_, ?_⟩
      · rw [hMapped]
        exact hRep.file
      · rw [hRecords, hPositions, AList.mem_insert, ← h.rep.keys k, or_iff_right_iff_imp]
        rintro rfl
        exact AList.lookup_isSome.mp (by rw [hOld]; rfl)
      · rw [hRecords] at hr
        by_cases hk : k = idOf record
        · subst hk
          rw [AList.lookup_insert] at hr
          cases hr
          rfl
        · rw [AList.lookup_insert_ne hk] at hr
          exact h.rep.ids k r hr
      · rw [hPositions]
        exact hRep.last
      · rw [hRecords, MapPairs.lookup_insert_eq_update, hIndex]
        split
        · have hPush := (h.rep.buckets.drop hOld).push (Function.update_self ..) record
          rwa [Function.update_idem] at hPush
        · next hValue => exact h.rep.buckets.overwrite hOld (not_not.mp hValue).symm
    refine ⟨by rw [hOld]; rfl, _, ⟨hRep', hShows.2, ?_⟩, ?_, ?_, ?_, fun q =>
      Stray.of_set_value hPositions hAt⟩
    · rw [hAgree _ (by simpa using logPath_ne path), Function.update_self]
      exact hLog
    · show view s' = Function.update (view s) (idOf record) (some record)
      funext k
      by_cases hk : k = idOf record
      · subst hk
        rw [Function.update_self, hRep'.view_at ⟨by rw [hRecords, AList.lookup_insert],
          by rw [hPositions, hp], hv.set_value (scannableValue record)⟩, shape_scannableValue]
      · rw [Function.update_of_ne hk]
        refine view_frame h.rep hRep' (by rw [hRecords, AList.lookup_insert_ne hk]) fun r q u hq =>
          ⟨by rw [hRecords, AList.lookup_insert_ne hk, hq.1], by rw [hPositions, hq.2.1],
            hq.2.2.set_other hv hk rfl⟩
    · exact live_write (by rw [hRecords, MapPairs.lookup_insert_eq_update]; rfl)
    · rw [hAgree _ (by simpa using blobPath_ne path),
        Function.update_of_ne (blobPath_ne_logPath path)]
  · next hNone =>
    refine Method.wp_fail ⟨rfl, rfl, fun _ _ => ?_⟩
    cases hOld : s.records.lookup (idOf record) with
    | none => rfl
    | some old =>
      obtain ⟨p, v, hAt⟩ := h.rep.exists_at hOld
      exact (hNone old p hOld hAt.2.1).elim

end Replace

/-! ## Delete -/

section Delete

variable {L : List (LogEntry R Id)} {d : Disk}

/-- The first step: the tombstone, or a refusal with nothing written. -/
theorem wp_deleteEntry {Q : R × Nat → GenericMmapStore R Id IV SV → Disk → Prop}
    {A C : Stop (DeleteError Id) → GenericMmapStore R Id IV SV → Disk → Prop}
    (h : Session path L slots s d) (key : Id)
    (hOk : ∀ record p v d', At s slots key record p v →
      Session path (L ++ [.tombstone key]) slots s d' →
      Disk.AgreeOff [InsertLog.logPath path] d d' → Q (record, p) s d')
    (hUnknown : s.records.lookup key = none → A (.error (.notFound key)) s d)
    (hDurable : ∀ e, A (.error (.durability e)) s d)
    (hStop : ∀ e d', (∀ j, e ≠ .error (.notFound j)) → C e s d') :
    Method.wp (deleteEntry key) s d Q A C := by
  refine Method.wp_bind (Method.wp_self ?_)
  split
  · next record p hRecord hp =>
    obtain ⟨v, hv⟩ := h.rep.last key p hp
    rw [h.rep.file]
    have hAgree : ∀ file, Disk.AgreeOff [InsertLog.logPath path] d
        (Function.update d (InsertLog.logPath path) file) := fun file =>
      (Disk.AgreeOff.refl _ d).update (List.mem_singleton_self _) file
    refine Method.wp_bind (Method.wp_mapError (InsertLog.wp_append (.tombstone key) h.log
      (fun file hLog => Method.wp_pure ?_) hDurable
      (fun e => by cases e <;> exact hStop _ _ fun _ hEq => nomatch hEq)
      (fun e _ _ _ => by cases e <;> exact hStop _ _ fun _ hEq => nomatch hEq)))
    refine hOk record p v _ ⟨hRecord, hp, hv⟩ ⟨h.rep, ?_, ?_⟩ (hAgree file)
    · rw [Function.update_of_ne (logPath_ne path).symm]
      exact h.file
    · rwa [Function.update_self]
  · next hNone =>
    refine Method.wp_fail (hUnknown ?_)
    cases hRecord : s.records.lookup key with
    | none => rfl
    | some record =>
      obtain ⟨p, v, hAt⟩ := h.rep.exists_at hRecord
      exact (hNone record p hRecord hAt.2.1).elim

/-- The second step: the marker is cleared, and the record leaves the maps. -/
theorem wp_deleteSlot {Q : Unit → GenericMmapStore R Id IV SV → Disk → Prop}
    {A C : Stop (DeleteError Id) → GenericMmapStore R Id IV SV → Disk → Prop}
    (h : Session path L slots s d) (hAt : At s slots k record p v)
    (hOk : ∀ s' d', Session path L (slots.set p ⟨k, v, 0⟩) s' d' →
      s'.records = s.records.erase k → s'.positionIndex = s.positionIndex.erase k →
      Disk.AgreeOff [path] d d' → Q () s' d')
    (hStop : ∀ s' d', C .crash s' d') : Method.wp (deleteSlot k record p) s d Q A C := by
  refine Method.wp_bind (Method.wp_onPart (SlotFile.wp_clearMarker ⟨h.rep.file, h.file⟩ hAt.2.2.1
    (fun f' d' hShows hAgree => Method.wp_modifySelf ?_) fun d' _ => hStop _ _))
  refine hOk _ d' ⟨⟨hShows.1, fun j => ?_, fun j r hr => ?_, fun j q hq => ?_, ?_⟩, hShows.2, ?_⟩
    rfl rfl hAgree
  · show j ∈ s.records.erase k ↔ j ∈ s.positionIndex.erase k
    rw [AList.mem_erase, AList.mem_erase, h.rep.keys j]
  · change (s.records.erase k).lookup j = some r at hr
    by_cases hj : j = k
    · subst hj
      rw [AList.lookup_erase] at hr
      cases hr
    · rw [AList.lookup_erase_ne hj] at hr
      exact h.rep.ids j r hr
  · change (s.positionIndex.erase k).lookup j = some q at hq
    by_cases hj : j = k
    · subst hj
      rw [AList.lookup_erase] at hq
      cases hq
    · rw [AList.lookup_erase_ne hj] at hq
      obtain ⟨u, hu⟩ := h.rep.last j q hq
      exact ⟨u, hu.set_other hAt.2.2 hj rfl⟩
  · show Buckets (fun j => (s.records.erase k).lookup j) (dropId s.index (indexedValue record) k)
    rw [MapPairs.lookup_erase_eq_update]
    exact h.rep.buckets.drop hAt.1
  · rw [hAgree _ (by simpa using logPath_ne path)]
    exact h.log

/-- A delete that returns wrote its entry; one that is refused wrote nothing. -/
theorem wp_delete (h : Session path L slots s d) (key : Id) :
    Method.wp (delete key) s d
      (fun _ s' d' => (s.records.lookup key).isSome ∧
        ∃ slots', Wrote path (.tombstone key) L slots s d slots' s' d')
      (fun e s' d' => s' = s ∧ d' = d ∧
        ∀ j, e = .error (.notFound j) → s.records.lookup key = none)
      (fun e _ _ => ∀ j, e ≠ .error (.notFound j)) := by
  refine Method.wp_bind (wp_deleteEntry h key (fun record p v d₁ hAt h₁ hAgree₁ => ?_)
    (fun hNone => ⟨rfl, rfl, fun _ _ => hNone⟩) (fun _ => ⟨rfl, rfl, fun _ hEq => nomatch hEq⟩)
    fun _ _ hStop => hStop)
  refine wp_deleteSlot h₁ hAt (fun s' d' h' hRecords hPositions hAgree =>
    ⟨by rw [hAt.1]; rfl, _, h', ?_, ?_, ?_, ?_⟩) fun _ _ _ hEq => nomatch hEq
  · show view s' = Function.update (view s) key none
    funext k
    by_cases hk : k = key
    · subst hk
      rw [Function.update_self]
      exact view_none (by rw [hRecords, AList.lookup_erase])
    · rw [Function.update_of_ne hk]
      exact view_frame h.rep h'.rep (by rw [hRecords, AList.lookup_erase_ne hk]) fun r q u hq =>
        ⟨by rw [hRecords, AList.lookup_erase_ne hk, hq.1],
          by rw [hPositions, AList.lookup_erase_ne hk, hq.2.1], hq.2.2.set_other hAt.2.2 hk rfl⟩
  · exact live_write (by rw [hRecords, MapPairs.lookup_erase_eq_update]; rfl)
  · rw [hAgree _ (by simpa using blobPath_ne path),
      hAgree₁ _ (by simpa using blobPath_ne_logPath path)]
  · rintro q ⟨t, ht, hMark, hPos⟩
    have hpq : p ≠ q := by
      rintro rfl
      rw [List.getElem?_set_self (List.getElem?_eq_some_iff.mp hAt.2.2.1).1] at ht
      cases ht
      exact absurd (show (0 : UInt8) = COMMITTED from hMark) (by decide)
    rw [List.getElem?_set_ne hpq] at ht
    refine ⟨t, ht, hMark, ?_⟩
    rw [hPositions] at hPos
    by_cases hk : t.id = key
    · rw [hk, hAt.2.1]
      exact fun hEq => hpq (Option.some.inj hEq)
    · rwa [AList.lookup_erase_ne hk] at hPos

end Delete

end GenericMmapStore

end MultimodalDb
