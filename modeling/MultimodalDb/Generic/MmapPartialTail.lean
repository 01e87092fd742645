import MultimodalDb.Generic.MmapRuns

/-!
# Slot files with a partial tail

A failed or interrupted append leaves part of a slot at the end of the file. The number of slots
rounds such a tail away, but the next slot is appended behind it, so that what is read at the
position it is reported at is the tail and the front of the slot. A store keeps what it promises of
inserted slots if and only if there is no tail (`readsBack_iff`): of two values that differ in their
last byte at least one is read back wrong.
-/

namespace MultimodalDb

open StoredRecord hiding id
open StoredRecord renaming id → idOf
open SlotFile (LastCommitted Unclaimed image COMMITTED slotWidth idWidth valueWidth)

namespace GenericMmapStore

variable {R Id IV SV : Type} [StoredRecord R Id IV SV] [DecidableEq Id]
variable [MmapFieldValue Id] [MmapFieldValue SV] [DecidableEq IV] [Serde R] [Serde Id]

/-- What stores opened on a file of these slots and this tail should do. Opened over any records,
with the log folded in, a store answers with the last committed value of an id, or the record's own.
After any calls, an insert that returns has a position at which its value is read back, in this
store and in one opened on the file again. -/
def ReadsBack (R : Type) {Id IV SV : Type} [StoredRecord R Id IV SV] [DecidableEq Id]
    [MmapFieldValue Id] [MmapFieldValue SV] [DecidableEq IV] [Serde R] [Serde Id] (path : Path)
    (slots : List (Slot Id SV)) (tail : Bytes) : Prop :=
  ∀ (d : Disk) (records : List R) (plan : List Outcome) (s : GenericMmapStore R Id IV SV)
    (p : Proc Unit), d path = some (image slots tail) → DistinctIds records →
    openStore records path ⟨(), d, plan⟩ = .ok s p →
    (∀ logged, InsertLog.entriesOf (InsertLog.logPath path) (SCHEMA_TAG R)
        (d (InsertLog.logPath path)) = .ok logged →
      ∃ answers, (∀ k, get s k = .ok (answers k)) ∧
        Recovers (contents (mergeLog records logged)) slots answers) ∧
    ∀ calls st record plan' q, run (s, p.disk) calls = some st →
      insert record ⟨st.1, st.2, plan'⟩ = .ok () q →
      ∃ position, q.self.positionIndex.lookup (idOf record) = some position ∧
        SlotFile.readValue q.self.file position = .ok (scannableValue record) ∧
        ∀ (records' : List R) plan'' (s' : GenericMmapStore R Id IV SV) (p' : Proc Unit),
          DistinctIds records' → openStore records' path ⟨(), q.disk, plan''⟩ = .ok s' p' →
          SlotFile.readValue s'.file position = .ok (scannableValue record)

variable {path : Path} {slots : List (Slot Id SV)} {tail : Bytes}

/-! ## Without a tail -/

theorem readsBack_of_no_tail : ReadsBack R path slots [] := by
  intro d records plan s p hFile hIds hRun
  obtain ⟨logged, slots', hLogged, hOpened⟩ := opened_of_ok hFile hIds hRun
  refine ⟨fun found hFound => ⟨view s, hOpened.session.rep.get_eq, ?_⟩, ?_⟩
  · obtain rfl := Except.ok.inj (hLogged.symm.trans hFound)
    exact hOpened.recovers (mergeLog_spec hIds logged).1
  · intro calls st record plan' q hCalls hInsert
    obtain ⟨L, slots₁, hSession, -⟩ := run_induction (P := fun _ _ _ _ _ => True)
      (fun _ _ _ _ _ _ _ _ _ _ _ _ _ => trivial) [] hOpened.session trivial hCalls
    obtain ⟨-, hWrote⟩ := (wp_insert hSession record).of_ok hInsert
    have hRep := hWrote.session.rep
    -- the new record is live, so it has a slot, and the slot has its value
    have hView : view q.self (idOf record) = some record := by
      rw [hWrote.view]
      exact Function.update_self ..
    obtain ⟨stored, hStored⟩ : ∃ stored, q.self.records.lookup (idOf record) = some stored :=
      Option.ne_none_iff_exists'.mp fun hNone => by
        rw [view_none hNone] at hView
        cases hView
    obtain ⟨position, v, hAt⟩ := hRep.exists_at hStored
    have hValue : scannableValue record = v := by
      rw [hRep.view_at hAt, Option.some.injEq] at hView
      rw [← hView, scannableValue_shape]
    refine ⟨position, hAt.2.1, ?_, fun records' plan'' s' p' hIds' hReopen => ?_⟩
    · rw [hRep.file, SlotFile.readValue_image hAt.2.2.1, hValue]
    · obtain ⟨_, slots₂, -, hAgain⟩ := opened_of_ok hWrote.session.file hIds' hReopen
      rw [hAgain.session.rep.file,
        SlotFile.readValue_image (hAgain.reconciled.old _ _ _ hAt.2.2).1, hValue]

/-! ## Behind a tail -/

/-- A record that can be logged. -/
def Loggable (record : R) : Prop :=
  ∃ payload, Codec.encode record = some payload ∧ payload.length < 2 ^ 32

/-- A disk with one file. -/
def onlyFile (path : Path) (bytes : Bytes) : Disk :=
  Function.update (fun _ => none) path (some bytes)

/-- A store opened without records on a file with a tail is an empty one. -/
theorem wp_openStore_empty (path : Path) (slots : List (Slot Id SV))
    (hTail : tail.length < slotWidth Id SV) :
    Method.wp (openStore ([] : List R) path) () (onlyFile path (image slots tail))
      (fun (s : GenericMmapStore R Id IV SV) _ d' => s.records = ∅ ∧
        s.file = ⟨⟨image slots tail, some path⟩, path⟩ ∧ d' path = some (image slots tail) ∧
        d' (InsertLog.logPath path) = none)
      (fun _ _ _ => False) (fun _ _ _ => True) := by
  obtain ⟨d, hd⟩ : ∃ d, d = onlyFile path (image slots tail) := ⟨_, rfl⟩
  rw [← hd]
  have hFile : d path = some (image slots tail) := by
    rw [hd]
    exact Function.update_self ..
  have hLog : d (InsertLog.logPath path) = none := by
    rw [hd]
    exact Function.update_of_ne (logPath_ne path) ..
  have hBlob : d (GenericRecordBlob.blobPath path) = none := by
    rw [hd]
    exact Function.update_of_ne (blobPath_ne path) ..
  obtain ⟨hPathBlob, hPathTemp, hLogBlob, hLogTemp⟩ := blob_write_frame path
  refine Method.wp_bind (InsertLog.wp_readEntries_none hLog ?_ fun _ => trivial)
  refine Method.wp_bind (Method.wp_bind
    (GenericRecordBlob.wp_isCurrentAt (fun current hCurrent => ?_) fun _ => trivial))
  cases current with
  | true =>
    obtain ⟨bytes, fp, hBytes, -⟩ := hCurrent rfl
    cases hBlob.symm.trans hBytes
  | false =>
    obtain ⟨body, hBody⟩ : ∃ body, Codec.encode ([] : List R) = some body :=
      Option.isSome_iff_exists.mp (Codec.encode_list_isSome (Nat.pow_pos (by decide)) nofun)
    have hEncode : GenericRecordBlob.encode (SCHEMA_TAG R) ([] : List R) =
        .ok (GenericRecordBlob.image (SCHEMA_TAG R) body) := by
      unfold GenericRecordBlob.encode
      rw [hBody]
    refine Method.wp_bind (Method.wp_ofExcept (fun encoded hEncoded => ?_) fun e hError =>
      nomatch hEncode.symm.trans hError)
    refine Method.wp_pure (Method.wp_bind (SlotFile.wp_openAt (fun f found tail' hShows _ => ?_)
      (fun e hNot => (hNot slots tail hFile).elim) fun _ => trivial))
    have hMapped : f = ⟨⟨image slots tail, some path⟩, path⟩ := by
      rw [hShows.1, ← Option.some.inj (hShows.2.symm.trans hFile)]
    -- there is no record to find or to append a slot for
    have hPairs : ∃ persisted, SlotFile.committedPairs f = .ok persisted := by
      unfold SlotFile.committedPairs
      rw [hMapped, SlotFile.slotCount_image slots tail _ _ hTail]
      exact ⟨_, rfl⟩
    obtain ⟨persisted, hPersisted⟩ := hPairs
    refine Method.wp_bind (Method.wp_bind (Method.wp_checked (fun found hFound => Method.wp_pure ?_)
      fun e hPanic => nomatch hPersisted.symm.trans hPanic))
    refine Method.wp_bind (RecordBlob.wp_write (fun d' _ _ hFrame => ?_) fun _ _ _ => trivial)
    refine Method.wp_bind (InsertLog.wp_clear (Method.wp_pure ⟨rfl, hMapped, ?_, ?_⟩) fun _ =>
      trivial)
    · rw [Function.update_of_ne (logPath_ne path).symm, hFrame _ hPathBlob hPathTemp, hFile]
    · exact Function.update_self ..

/-- An insert into it lands behind the tail. -/
theorem wp_insert_behind {s : GenericMmapStore R Id IV SV} {d : Disk} {record : R}
    (hTail : tail.length < slotWidth Id SV) (hEmpty : s.records = ∅)
    (hMapped : s.file = ⟨⟨image slots tail, some path⟩, path⟩)
    (hFile : d path = some (image slots tail))
    (hLog : d (InsertLog.logPath path) = none) (hLoggable : Loggable record) :
    Method.wp (insert record) s d
      (fun _ s' _ => s'.positionIndex.lookup (idOf record) = some slots.length ∧
        ∃ at_, s'.file = ⟨⟨image slots tail ++
          (Slot.commit (idOf record, scannableValue record)).bytes, some path⟩, at_⟩)
      (fun _ _ _ => False) (fun _ _ _ => True) := by
  obtain ⟨payload, hPayload, hShort⟩ := hLoggable
  have hStop : ∀ (e : Stop DurabilityError) (s' : GenericMmapStore R Id IV SV) (d' : Disk),
      Method.onMapped InsertError.durability
        (fun (_ : Stop (InsertError Id)) (_ : GenericMmapStore R Id IV SV) (_ : Disk) => True) e s'
          d' :=
    fun e _ _ => by cases e <;> trivial
  refine Method.wp_bind (Method.wp_bind (Method.wp_self ?_))
  rw [if_neg (by rw [hEmpty]; exact AList.notMem_empty _), hMapped]
  have hItem : InsertLog.payloadOf (.item record : LogEntry R Id) = some payload := hPayload
  have hAppend := InsertLog.append_of_payload (S := GenericMmapStore R Id IV SV) hItem
    (InsertLog.logPath path) (SCHEMA_TAG R)
  rw [show InsertLog.appendItem (InsertLog.logPath path) (SCHEMA_TAG R) record = _ from hAppend]
  refine Method.wp_mapError
    (InsertLog.wp_appendEntry (by rw [hLog]; simp [InsertLog.declaredVersion])
    (fun _ => ?_) (fun hLong => (hLong hShort).elim) (fun e => hStop e _ _) fun e _ => hStop e _ _)
  have hFile' : ∀ file, Function.update d (InsertLog.logPath path) file path =
      some (image slots tail) := fun file => by
    rw [Function.update_of_ne (logPath_ne path).symm, hFile]
  refine Method.wp_bind (Method.wp_mapError (Method.wp_onPart (SlotFile.wp_appendCommittedSlots
    (by rw [hMapped]) (hFile' _) hTail (fun bytes hBytes => ?_) fun e _ _ => hStop e _ _)))
  rw [List.map_singleton, Column.flat_cons, Column.flat_nil, List.append_nil] at hBytes
  subst hBytes
  exact Method.wp_modifySelf ⟨AList.lookup_insert _, path, rfl⟩

/-- Two values that differ in their last byte cannot both be read back behind a tail. -/
theorem not_readsBack_of_tail (hTail : tail.length < slotWidth Id SV) (hSome : tail ≠ [])
    {record : R} (hLoggable : ∀ value : SV, Loggable (setScannableValue value record)) :
    ¬ ReadsBack R path slots tail := by
  intro hReads
  obtain ⟨s, p, hOpen, ⟨hEmpty, hMapped, hFile, hLog⟩, -⟩ :=
    Method.wp_total (wp_openStore_empty (R := R) path slots hTail)
  have hStart : onlyFile path (image slots tail) path = some (image slots tail) :=
    Function.update_self ..
  -- whatever value is inserted, the window at its position reads as it
  have hWindow : ∀ value : SV, MmapFieldValue.readLe (Bytes.slice
      (tail ++ (Slot.commit (idOf record, value)).bytes) (idWidth Id) (valueWidth SV)) = value := by
    intro value
    obtain ⟨_, q, hInsert, ⟨hPosition, at_, hGrown⟩, -⟩ :=
      Method.wp_total (wp_insert_behind hTail hEmpty hMapped hFile hLog (hLoggable value))
    obtain ⟨position, hLookup, hRead, -⟩ := (hReads _ [] [] s p hStart List.nodup_nil hOpen).2 []
      (s, p.disk) _ [] q rfl hInsert
    obtain rfl : position = slots.length := Option.some.inj (hLookup.symm.trans hPosition)
    rw [hGrown, SlotFile.readValue_behind, Except.ok.injEq, id_set, scannableValue_set] at hRead
    exact hRead
  obtain ⟨front, hFront⟩ : ∃ front : Bytes, front.length + 1 = valueWidth SV :=
    ⟨List.replicate (valueWidth SV - 1) 0, by
      rw [List.length_replicate]
      exact Nat.sub_add_cancel MmapFieldValue.byteWidth_pos⟩
  have hLast : ∀ byte : UInt8, MmapFieldValue.readLe (α := SV) (front ++ [byte]) =
      MmapFieldValue.readLe (Bytes.slice (tail ++ (MmapFieldValue.writeLe (idOf record) ++ front))
        (idWidth Id) (valueWidth SV)) := by
    intro byte
    have hBytes : MmapFieldValue.writeLe (MmapFieldValue.readLe (α := SV) (front ++ [byte])) =
        front ++ [byte] := by
      refine MmapFieldValue.writeLe_readLe _ ?_
      rw [List.length_append, List.length_singleton, hFront]
    rw [← hWindow (MmapFieldValue.readLe (front ++ [byte])), Slot.bytes, Slot.commit, hBytes,
      List.append_assoc, SlotFile.slice_behind hSome _ hFront]
  have hSame : front ++ [(0 : UInt8)] = front ++ [1] := by
    have hValues := (hLast 0).trans (hLast 1).symm
    have hLength : ∀ byte : UInt8, (front ++ [byte]).length = MmapFieldValue.byteWidth SV :=
      fun byte => by
      rw [List.length_append, List.length_singleton, hFront]
    rw [← MmapFieldValue.writeLe_readLe (α := SV) _ (hLength 0), hValues,
      MmapFieldValue.writeLe_readLe (α := SV) _ (hLength 1)]
  exact absurd (List.append_cancel_left hSame) (by decide)

/-- **A slot file with a partial tail.** What a store promises of the values of its slots holds for
every use of a slot file if and only if the file has no trailing partial bytes, for record types
with a record that can be logged whatever its scannable value is. -/
theorem readsBack_iff (hTail : tail.length < slotWidth Id SV)
    (hLoggable : ∃ record : R, ∀ value : SV, Loggable (setScannableValue value record)) :
    ReadsBack R path slots tail ↔ SlotFile.trailingPartialBytes
      (⟨⟨image slots tail, some path⟩, path⟩ : SlotFile Id SV) = .ok 0 := by
  obtain ⟨record, hRecord⟩ := hLoggable
  rw [SlotFile.trailingPartialBytes_image slots tail _ _ hTail, Except.ok.injEq,
    List.length_eq_zero_iff]
  constructor
  · intro hReads
    by_contra hSome
    exact not_readsBack_of_tail hTail hSome hRecord hReads
  · rintro rfl
    exact readsBack_of_no_tail

theorem loggable_sample (value : Int64) : Loggable (setScannableValue value (Order.sample 1 0)) :=
  ⟨_, rfl, by simp⟩

theorem readsBack_iff_sample :
    ReadsBack Order samplePath [⟨Uuid.ofNat 1, (10 : Int64), COMMITTED⟩] [0] ↔
      SlotFile.trailingPartialBytes
        (⟨⟨image [⟨Uuid.ofNat 1, (10 : Int64), COMMITTED⟩] [0], some samplePath⟩,
        samplePath⟩ : SlotFile Uuid Int64) = .ok 0 :=
  readsBack_iff (by decide) ⟨Order.sample 1 0, loggable_sample⟩

/-- One byte behind the header, and an insert of 99: the slot is reported at position 0 and reads as
99 with its bytes moved up by one. -/
theorem insert_behind_a_tail_is_misread : ¬ ReadsBack Order samplePath [] [0] := by
  intro hReads
  have hRun : (Method.finished (openStore ([] : List Order) samplePath
      ⟨(), onlyFile samplePath (image ([] : List (Slot Uuid Int64)) [0]), []⟩)).bind (fun r =>
      (Method.finished (insert (Order.sample 1 99) ⟨r.1, r.2.disk, []⟩)).map fun t =>
        (t.2.self.positionIndex.lookup (Uuid.ofNat 1),
          (SlotFile.readValue t.2.self.file 0).toOption)) =
      some (some 0, some (99 * 256)) := by decide +kernel
  obtain ⟨⟨s, p⟩, hOpen, hRun⟩ := Option.bind_eq_some_iff.mp hRun
  obtain ⟨⟨a, q⟩, hInsert, hRun⟩ := Option.map_eq_some_iff.mp hRun
  rw [Prod.mk.injEq] at hRun
  obtain ⟨position, hLookup, hRead, -⟩ :=
    (hReads _ [] [] s p (Function.update_self ..) List.nodup_nil
    (Method.finished_eq_some.mp hOpen)).2 [] (s, p.disk) (.sample 1 99) [] q rfl
      (Method.finished_eq_some.mp hInsert)
  obtain rfl : position = 0 := Option.some.inj (hLookup.symm.trans hRun.1)
  rw [hRead] at hRun
  exact absurd hRun.2 (by decide)

end GenericMmapStore

end MultimodalDb
