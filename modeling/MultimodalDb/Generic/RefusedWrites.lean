import MultimodalDb.Generic.InsertLogShort
import MultimodalDb.Generic.MmapCompactFailures
import MultimodalDb.Lib.Machine

/-!
# Writes that fail

An insert, a replacement or a delete that reports a durability error has changed nothing in memory,
whichever step failed. On the disk its log entry may be there already: behind a failed sync, or in
front of the slot of an insert, the entry is whole, and a reopen folds it in. A torn entry at the
end of the log is not read, and the next entry behind it is lost.

* `refused_writes`: in every run whose failing writes stop short of their entry, and whose other
  logged writes find a whole log, the store and every reopen of its files answer without the writes
  that failed.
-/

namespace MultimodalDb

open StoredRecord hiding id
open StoredRecord renaming id → idOf
open SlotFile (LastCommitted image COMMITTED)

/-- The log entry that a call writes. A call that the store refuses writes none. -/
def Op.logged {R Id IV SV : Type} [StoredRecord R Id IV SV] [DecidableEq Id]
    (s : GenericMmapStore R Id IV SV) :
    Op R Id SV → Option (LogEntry R Id)
  | .insert record => if idOf record ∈ s.records then none else some (.item record)
  | .replace record => if idOf record ∈ s.records then some (.item record) else none
  | .delete key => if key ∈ s.records then some (.tombstone key) else none
  | .update _ _ | .compact => none

namespace GenericMmapStore

variable {R Id IV SV : Type} [StoredRecord R Id IV SV] [DecidableEq Id]
variable [MmapFieldValue Id] [MmapFieldValue SV] [DecidableEq IV] [Serde R] [Serde Id]

/-! ## The store in memory -/

section Memory

variable {S ε ε' : Type} {F : Set Path} {d : Disk}

/-- A program that stops with an error has left its object as it was. -/
def InPlace (s : S) (e : Stop ε) (s' : S) (_ : Disk) : Prop := ∀ cause, e = .error cause → s' = s

theorem inPlace_self (s : S) (e : Stop ε) (d : Disk) : InPlace s e s d := fun _ _ => rfl

theorem InPlace.mapped {s s' : S} {f : ε → ε'} {e : Stop ε} (h : InPlace s e s' d) :
    Method.onMapped f (InPlace s) e s' d := by
  cases e with
  | error c => exact fun _ _ => h c rfl
  | panic | crash => exact fun _ hEq => nomatch hEq

omit [StoredRecord R Id IV SV] [DecidableEq Id] [MmapFieldValue Id] [MmapFieldValue SV]
  [DecidableEq IV] [Serde R] [Serde Id] in
theorem wp_storeAt_inPlace {f : SlotFile Id SV} {start : Nat} {bytes : Bytes} :
    Method.wp (SlotFile.storeAt start bytes : Method (SlotFile Id SV) ε Unit) f d
      (fun _ _ _ => True) (fun e _ _ => ∀ c, e ≠ .error c) (fun e _ _ => ∀ c, e ≠ .error c) := by
  refine Method.wp_bind (Method.wp_self (Method.wp_bind ?_))
  unfold Method.store
  split
  · split
    · exact Method.wp_pure (Method.wp_modifySelf trivial)
    · exact Method.wp_bind (Method.wp_storeBytes (Method.wp_pure (Method.wp_modifySelf trivial))
        fun _ _ => nofun)
  · exact Method.wp_panic fun _ => nofun

omit [StoredRecord R Id IV SV] [DecidableEq Id] [DecidableEq IV] [Serde R] [Serde Id] in
theorem wp_appendEachSlot_inPlace (pairs : List (Id × SV)) (path : Path) (t : S) :
    Method.wp (SlotFile.appendEachSlot path pairs : Method S DurabilityError _) t d
      (fun positions t' _ => positions.length = pairs.length ∧ t' = t) (InPlace t) (InPlace t) := by
  induction pairs generalizing d with
  | nil => exact Method.wp_pure ⟨rfl, rfl⟩
  | cons pair rest ih =>
    have hStop : ∀ (e : Stop DurabilityError) d, InPlace t e t d := inPlace_self t
    refine Method.wp_bind (Method.wp_bind (Method.wp_appendAll (Method.wp_bind (Method.wp_fileLen
      (Method.wp_pure ?_) fun e => hStop e _)) fun _ e => hStop e _))
    refine Method.wp_bind (ih.post fun positions t' d' hRest => Method.wp_pure ?_)
    exact ⟨congrArg Nat.succ hRest.1, hRest.2⟩

omit [StoredRecord R Id IV SV] [DecidableEq Id] [DecidableEq IV] [Serde R] [Serde Id] in
theorem wp_appendCommittedSlots_inPlace (pairs : List (Id × SV)) (f : SlotFile Id SV) :
    Method.wp (SlotFile.appendCommittedSlots pairs) f d
      (fun positions _ _ => positions.length = pairs.length) (InPlace f) (InPlace f) := by
  have hStop : ∀ (e : Stop DurabilityError) d, InPlace f e f d := inPlace_self f
  refine Method.wp_bind (Method.wp_self
    (Method.wp_bind (Method.wp_openFile (fun _ _ => ?_) (fun _ => hStop _ _) fun _ => hStop _ _)))
  refine Method.wp_bind ((wp_appendEachSlot_inPlace pairs f.path f).post
    fun positions f' d' hDone => ?_)
  obtain ⟨hLen, rfl⟩ := hDone
  refine Method.wp_bind (Method.wp_openFile (fun _ _ => ?_) (fun _ => hStop _ _) fun _ => hStop _ _)
  exact Method.wp_bind (Method.wp_mapFile
    (Method.wp_bind (Method.wp_modifySelf (Method.wp_pure hLen))) fun _ => hStop _ _)

/-- **Nothing in memory changes** when an insert, a replacement or a delete stops with an error. -/
theorem wp_method_inPlace (s : GenericMmapStore R Id IV SV) {op : Op R Id SV}
    (hOp : op ≠ .compact) :
    Method.wp op.method s d (fun _ _ _ => True) (InPlace s) (InPlace s) := by
  have hStop : ∀ {ε : Type} (e : Stop ε) d, InPlace s e s d := fun e d => inPlace_self s e d
  have hLogged : ∀ {ε : Type} (f : DurabilityError → ε) (path : Path) (entry : LogEntry R Id),
      Method.Touches Set.univ (Method.mapError f
        (InsertLog.append (S := GenericMmapStore R Id IV SV) path
        (SCHEMA_TAG R) entry)) := fun f path entry =>
    Method.Touches.mapError (InsertLog.touches_append entry trivial trivial)
  have hStored : ∀ {ε : Type} {position : Nat} {bytes : Bytes} {f : GenericMmapStore R Id IV SV →
      GenericMmapStore R Id IV SV} {d : Disk}, Method.wp (do
        onFile (SlotFile.storeAt position bytes)
        Method.modifySelf f : Method (GenericMmapStore R Id IV SV) ε Unit) s d (fun _ _ _ => True)
        (InPlace s) (InPlace s) := fun {ε position bytes f d} =>
    Method.wp_bind (Method.wp_onPart
      (wp_storeAt_inPlace.mono (fun _ _ _ _ => Method.wp_modifySelf trivial)
      (fun _ _ _ hNot c hEq => (hNot c hEq).elim) fun _ _ _ hNot c hEq => (hNot c hEq).elim))
  have hMapped : ∀ {ε ε' α : Type} {m : Method (GenericMmapStore R Id IV SV) ε α} {f : ε → ε'},
      Method.wp m s d (fun _ _ _ => True) (InPlace s) (InPlace s) →
      Method.wp (Method.mapError f m) s d (fun _ _ _ => True) (InPlace s) (InPlace s) := fun h =>
    Method.wp_mapError (h.mono (fun _ _ _ _ => trivial) (fun _ _ _ => InPlace.mapped) fun _ _ _ =>
      InPlace.mapped)
  cases op with
  | insert record =>
    refine hMapped (Method.wp_bind (Method.wp_bind (Method.wp_self ?_)))
    split
    · exact Method.wp_fail (hStop _ _)
    · refine (hLogged InsertError.durability _ (.item record)).wp (fun _ d' _ => ?_) fun e d' _ =>
        hStop e d'
      refine Method.wp_bind (Method.wp_mapError (Method.wp_onPart ((wp_appendCommittedSlots_inPlace
        [(idOf record, scannableValue record)] s.file).mono (fun positions f' d' hLen => ?_)
          (fun e f' d' hSame => ?_) fun e f' d' hSame => ?_)))
      · split
        · next hNone =>
          rw [List.head?_eq_none_iff.mp hNone] at hLen
          cases hLen
        · exact Method.wp_modifySelf trivial
      all_goals
        refine InPlace.mapped fun cause hEq => ?_
        rw [hSame cause hEq]
        rfl
  | replace record =>
    refine hMapped (Method.wp_bind (Method.wp_self ?_))
    split
    · exact Method.wp_bind ((hLogged ReplaceError.durability _ (.item record)).wp
        (fun _ _ _ => hStored) fun e d' _ => hStop e d')
    · exact Method.wp_fail (hStop _ _)
  | update key value =>
    refine hMapped (Method.wp_bind (Method.wp_self ?_))
    split
    · exact Method.wp_onPart (wp_storeAt_inPlace.mono (fun _ _ _ _ => trivial)
        (fun _ _ _ hNot c hEq => (hNot c hEq).elim) fun _ _ _ hNot c hEq => (hNot c hEq).elim)
    · exact Method.wp_fail (hStop _ _)
  | delete key =>
    refine hMapped (Method.wp_bind (Method.wp_bind (Method.wp_self ?_)))
    split
    · exact Method.wp_bind ((hLogged DeleteError.durability _ (.tombstone key)).wp
        (fun _ _ _ => Method.wp_pure hStored) fun e d' _ => hStop e d')
    · exact Method.wp_fail (hStop _ _)
  | compact => exact (hOp rfl).elim

end Memory

/-! ## Calls and their entries -/

section Entries

variable {s : GenericMmapStore R Id IV SV} {path : Path} {slots : List (Slot Id SV)} {d : Disk}
variable {plan : List Outcome} {op : Op R Id SV} {entry : LogEntry R Id}

/-- A call without an entry is refused, unless it is an update or a compaction. -/
theorem method_of_unlogged (hLogged : op.logged s = none) (hUpdate : ∀ k v, op ≠ .update k v)
    (hCompact : op ≠ .compact) : op.method ⟨s, d, plan⟩ = .error (.error none) ⟨s, d, plan⟩ := by
  have hUnknown : ∀ {k}, k ∉ s.records → s.records.lookup k = none := AList.lookup_eq_none.mpr
  cases op with
  | insert record =>
    simp only [Op.logged] at hLogged
    split at hLogged
    · next hMem =>
      simp only [Op.method, Method.mapError, insert, insertEntry, bind, EStateM.bind, Method.self,
        if_pos hMem, Method.fail]
    · cases hLogged
  | replace record =>
    simp only [Op.logged] at hLogged
    split at hLogged
    · cases hLogged
    · next hMem =>
      simp only [Op.method, Method.mapError, replace, bind, EStateM.bind, Method.self,
        hUnknown hMem, Method.fail]
  | update key value => exact (hUpdate key value rfl).elim
  | delete key =>
    simp only [Op.logged] at hLogged
    split at hLogged
    · cases hLogged
    · next hMem =>
      simp only [Op.method, Method.mapError, delete, deleteEntry, bind, EStateM.bind, Method.self,
        hUnknown hMem, Method.fail]
  | compact => exact (hCompact rfl).elim

/-- A call whose entry cannot be appended stops there. -/
theorem method_of_append_error (h : Rep s path slots) (hLogged : op.logged s = some entry)
    {e : DurabilityError}
    {p : Proc (GenericMmapStore R Id IV SV)}
    (hAppend : InsertLog.append (InsertLog.logPath path) (SCHEMA_TAG R) entry
      ⟨s, d, plan⟩ = .error (.error e) p) : op.method ⟨s, d, plan⟩ =
        .error (.error (some e)) p := by
  have hPath : s.file.path = path := by rw [h.file]
  cases op with
  | insert record =>
    simp only [Op.logged] at hLogged
    split at hLogged
    · cases hLogged
    · next hNew =>
      cases hLogged
      change InsertLog.appendItem _ _ record _ = _ at hAppend
      simp only [Op.method, Method.mapError, insert, insertEntry, bind, EStateM.bind, Method.self,
        if_neg hNew, hPath, hAppend]
  | replace record =>
    simp only [Op.logged] at hLogged
    split at hLogged
    · next hMem =>
      cases hLogged
      obtain ⟨old, hOld⟩ := Option.isSome_iff_exists.mp (AList.lookup_isSome.mpr hMem)
      obtain ⟨position, v, hAt⟩ := h.exists_at hOld
      change InsertLog.appendItem _ _ record _ = _ at hAppend
      simp only [Op.method, Method.mapError, replace, bind, EStateM.bind, Method.self, hOld,
        hAt.2.1, hPath, hAppend]
    · cases hLogged
  | update | compact => cases hLogged
  | delete key =>
    simp only [Op.logged] at hLogged
    split at hLogged
    · next hMem =>
      cases hLogged
      obtain ⟨old, hOld⟩ := Option.isSome_iff_exists.mp (AList.lookup_isSome.mpr hMem)
      obtain ⟨position, v, hAt⟩ := h.exists_at hOld
      change InsertLog.appendTombstone _ _ key _ = _ at hAppend
      simp only [Op.method, Method.mapError, delete, deleteEntry, bind, EStateM.bind, Method.self,
        hOld, hAt.2.1, hPath, hAppend]
    · cases hLogged

theorem steady_storeAt {Id SV ε : Type} (start : Nat) (bytes : Bytes) :
    Method.Steady (SlotFile.storeAt start bytes : Method (SlotFile Id SV) ε Unit) := by
  refine Method.steady_self.bind fun f => Method.Steady.bind ?_ fun mmap =>
    Method.steady_modifySelf _
  unfold Method.store
  split
  · split
    · exact Method.steady_pure _
    · exact Method.steady_storeBytes.bind fun _ => Method.steady_pure _
  · exact fun _ _ _ _ => rfl

omit [DecidableEq Id] [Serde Id] in
theorem steady_appendCommittedSlots (pairs : List (Id × SV)) :
    Method.Steady (SlotFile.appendCommittedSlots pairs) := by
  have hEach : ∀ (path : Path) (pairs : List (Id × SV)),
      Method.Steady
        (SlotFile.appendEachSlot path pairs : Method (SlotFile Id SV) DurabilityError _) := by
    intro path pairs
    induction pairs with
    | nil => exact Method.steady_pure _
    | cons pair rest ih =>
      exact (Method.steady_call.bind fun _ => Method.steady_call.bind fun _ =>
        Method.steady_pure _).bind fun _ =>
        ih.bind fun _ => Method.steady_pure _
  exact Method.steady_self.bind fun f => Method.steady_call.bind fun _ =>
    (hEach f.path pairs).bind fun _ =>
    Method.steady_call.bind fun _ => Method.steady_call.bind fun _ =>
      (Method.steady_modifySelf _).bind fun _ =>
      Method.steady_pure _

theorem steady_method (hOp : op ≠ .compact) : Method.Steady op.method := by
  cases op with
  | insert record =>
    refine Method.Steady.mapError (Method.Steady.bind ?_ fun _ => ?_)
    · refine Method.steady_self.bind fun s => ?_
      split
      · exact Method.steady_fail _
      · exact (InsertLog.steady_append _ _ (.item record : LogEntry R Id)).mapError
    · refine Method.Steady.bind (steady_appendCommittedSlots _).onPart.mapError fun positions => ?_
      split
      · exact Method.steady_fail _
      · exact Method.steady_modifySelf _
  | replace record =>
    refine Method.Steady.mapError (Method.steady_self.bind fun s => ?_)
    split
    · exact (InsertLog.steady_append _ _ (.item record : LogEntry R Id)).mapError.bind fun _ =>
        (steady_storeAt _ _).onPart.bind fun _ => Method.steady_modifySelf _
    · exact Method.steady_fail _
  | update key value =>
    refine Method.Steady.mapError (Method.steady_self.bind fun s => ?_)
    split
    · exact (steady_storeAt _ _).onPart
    · exact Method.steady_fail _
  | delete key =>
    refine Method.Steady.mapError (Method.Steady.bind ?_ fun _ => ?_)
    · refine Method.steady_self.bind fun s => ?_
      split
      · exact (InsertLog.steady_append _ _ (.tombstone key : LogEntry R Id)).mapError.bind fun _ =>
          Method.steady_pure _
      · exact Method.steady_fail _
    · exact (steady_storeAt _ _).onPart.bind fun _ => Method.steady_modifySelf _
  | compact => exact (hOp rfl).elim

end Entries

/-! ## The store and its files -/

section Files

variable {s s' : GenericMmapStore R Id IV SV} {path : Path} {slots : List (Slot Id SV)}
  {d d' : Disk}
variable {L : List (LogEntry R Id)} {records : List R} {plan : List Outcome} {op : Op R Id SV}

/-- The record set that a reopen finds is counted by a `usize`, and when its fingerprint is that of
the blob it is what the blob holds. -/
def Tells (path : Path) (d : Disk) : Prop :=
  ∀ (records : List R) (logged : List (LogEntry R Id)),
    Method.value
      (GenericRecordBlob.read (SCHEMA_TAG R) (GenericRecordBlob.blobPath path) ⟨(), d, []⟩) =
      some records →
    InsertLog.entriesAt (InsertLog.logPath path) (SCHEMA_TAG R) d = some logged →
    (merged records logged).length < 2 ^ 64 ∧
      (GenericRecordBlob.fingerprint (merged records logged) =
        GenericRecordBlob.fingerprint records → contents (merged records logged) = contents records)

/-- A store over its files, where the log may end in part of an entry: the blob with the log over it
is the record map up to the scannable fields. -/
structure Stands (path : Path) (L : List (LogEntry R Id)) (slots : List (Slot Id SV))
    (records : List R) (s : GenericMmapStore R Id IV SV) (d : Disk) : Prop where
  rep : Rep s path slots
  file : d path = some (image slots [])
  log : InsertLog.Reads (SCHEMA_TAG R) L (d (InsertLog.logPath path))
  ids : DistinctIds records
  blob : BlobOf path records d
  live : live s = fun k => (contents (merged records L) k).map shape

theorem Session.stands (h : Session path L slots s d) (hBacked : Backed path L s d) :
    ∃ records, Stands path L slots records s d := by
  obtain ⟨records, hStored, hLive⟩ := hBacked
  exact ⟨records, h.rep, h.file, h.log.reads, hStored.ids, hStored.blob, hLive⟩

/-- Over a whole log the store is as between two calls that returned. -/
theorem Stands.session (h : Stands path L slots records s d)
    (hWhole : InsertLog.WholeLog (SCHEMA_TAG R) (d (InsertLog.logPath path))) :
    Session path L slots s d ∧ Backed path L s d := by
  have hLog := InsertLog.holds_of_whole h.log hWhole
  exact ⟨⟨h.rep, h.file, hLog⟩, records, ⟨h.ids, h.blob, hLog⟩, h.live⟩

/-- The store over another log that reads the same. -/
theorem Stands.relog (h : Stands path L slots records s d) {file : Option Bytes}
    (hReads : InsertLog.Reads (SCHEMA_TAG R) L file) :
    Stands path L slots records s (Function.update d (InsertLog.logPath path) file) where
  rep := h.rep
  file := by rw [Function.update_of_ne (logPath_ne path).symm, h.file]
  log := by rwa [Function.update_self]
  ids := h.ids
  blob := h.blob.of_same (Function.update_of_ne (blobPath_ne_logPath path) ..)
  live := h.live

/-! ### Reopening -/

/-- The files as they are when the torn end of the log is cut off. -/
theorem Stands.stored (h : Stands path L slots records s d) : ∃ file, Stored path records L
    (Function.update d (InsertLog.logPath path) file) := by
  have hSame : ∀ file, BlobOf path records (Function.update d (InsertLog.logPath path) file) :=
    fun file =>
    h.blob.of_same (Function.update_of_ne (blobPath_ne_logPath path) ..)
  rcases h.log with ⟨-, rfl⟩ | ⟨frames, tail, -, -, hFrames⟩
  · refine ⟨none, h.ids, hSame _, ?_⟩
    rw [Function.update_self]
    exact InsertLog.holds_none _
  · refine ⟨some (InsertLog.logImage (SCHEMA_TAG R) frames), h.ids, hSame _, ?_⟩
    rw [Function.update_self]
    exact Or.inr ⟨frames, rfl, hFrames⟩

theorem Stands.length_merged (h : Stands path L slots records s d) :
    (merged records L).length = (allIds s).length := by
  refine length_eq_of_ids (distinctIds_merged h.ids L) s.records.keys_nodup fun k => ?_
  have hk := congrFun h.live k
  rw [GenericMmapStore.live] at hk
  rw [Ne, ← Option.map_eq_none_iff (f := shape), ← hk, Option.map_eq_none_iff,
    AList.lookup_eq_none, not_not]
  rfl

/-- **A reopen** of a log that ends in part of an entry answers as the store did. -/
theorem Stands.wp_openPortable (h : Stands path L slots records s d) :
    Method.wp (openPortable path) () d
      (fun s' _ d' => view s' = view s ∧
        ∃ slots', Opened path (merged records L) slots d slots' s' d')
      (fun _ _ _ => 2 ^ 64 ≤ (allIds s).length) (fun _ _ _ => True) := by
  obtain ⟨body, hBody, hBlob⟩ := h.blob
  have hIds := distinctIds_merged h.ids L
  refine Method.wp_bind (Method.wp_bind (GenericRecordBlob.wp_read_image hBlob hBody
    (Method.wp_bind (InsertLog.wp_readEntries_reads h.log (Method.wp_pure ?_) fun _ => trivial))
      fun _ => trivial))
  refine Method.wp_bind (InsertLog.wp_readEntries_reads h.log ?_ fun _ => trivial)
  refine wp_openFolded h.file hIds (fun slots' s' d' hOpened => ⟨?_, slots', hOpened⟩)
    (fun hNone => ?_) fun _ _ => trivial
  · refine answers_of_recovers (hOpened.recovers hIds) (fun k => ?_) (h.rep.carries _)
    rw [h.rep.view_shape, h.live]
    rfl
  · by_contra hFew
    obtain ⟨file, hStored⟩ := h.stored
    obtain ⟨found, hFound⟩ := hStored.encode_isSome (by rw [h.length_merged]; exact not_le.mp hFew)
    cases hNone.symm.trans hFound

/-- The files say what they hold. -/
theorem Stands.read_eq (h : Stands path L slots records s d) :
    Method.value
        (GenericRecordBlob.read (SCHEMA_TAG R) (GenericRecordBlob.blobPath path) ⟨(), d, []⟩) =
        some records ∧
      InsertLog.entriesAt (InsertLog.logPath path) (SCHEMA_TAG R) d = some L := by
  obtain ⟨body, hBody, hBlob⟩ := h.blob
  obtain ⟨found, p, hRun, hFound, -⟩ := Method.wp_total
    (GenericRecordBlob.wp_read_image (s := ()) (C := fun _ _ _ => True)
      (Q := fun found _ _ => found = records) hBlob hBody rfl fun _ => trivial)
  obtain ⟨logged, q, hRead, hLogged, -⟩ := Method.wp_total
    (InsertLog.wp_readEntries_reads (s := ()) (C := fun _ _ _ => True)
      (Q := fun logged _ _ => logged = L) h.log rfl fun _ => trivial)
  constructor
  · rw [hRun, ← hFound]
    rfl
  · unfold InsertLog.entriesAt
    rw [hRead, ← hLogged]
    rfl

/-- A store that was opened from its files stands over them. -/
theorem Opened.stands {slots' : List (Slot Id SV)}
    (h : Opened path (merged records L) slots d slots' s' d')
    (hStands : Stands path L slots records s d) (hTell : Tells (R := R) path d) :
    ∃ records', Stands path [] slots' records' s' d' := by
  obtain ⟨hRecords, hLogged⟩ := hStands.read_eq
  refine h.session.stands ?_
  rcases h.blob with ⟨hSame, hCurrent⟩ | ⟨body, hBody, hImage⟩
  · -- the blob was taken for current, and so it is
    obtain ⟨body, hBody, hImage⟩ := hStands.blob
    rw [hImage] at hCurrent
    have hPrint := GenericRecordBlob.currentAt_image hBody hCurrent
    refine ⟨records, ⟨hStands.ids, ⟨body, hBody, hSame.trans hImage⟩, h.session.log⟩, ?_⟩
    rw [h.live, (hTell records L hRecords hLogged).2 hPrint]
    rfl
  · exact ⟨merged records L,
      ⟨distinctIds_merged hStands.ids L, ⟨body, hBody, hImage⟩, h.session.log⟩, h.live⟩

/-! ### Calls -/

/-- A call stops short of its entry, or appends it to a whole log and no step of it fails. A call
without an entry, or with one that cannot be encoded or is too long, writes nothing to the log. -/
def LogsCleanly (path : Path) (op : Op R Id SV) (plan : List Outcome)
    (s : GenericMmapStore R Id IV SV) (d : Disk) :
    Prop :=
  ∀ entry payload, op.logged s = some entry → InsertLog.payloadOf entry = some payload →
    payload.length < 2 ^ 32 →
      InsertLog.StopsShort (SCHEMA_TAG R) (InsertLog.kindOf entry) payload
        (d (InsertLog.logPath path)) plan ∨
        InsertLog.WholeLog (SCHEMA_TAG R) (d (InsertLog.logPath path)) ∧ Unfailing plan

/-- A failing write that stops short leaves the store over its files. -/
theorem Stands.short {entry : LogEntry R Id} {payload : Bytes} (h : Stands path L slots records s d)
    (hLogged : op.logged s = some entry) (hPayload : InsertLog.payloadOf entry = some payload)
    (hLen : payload.length < 2 ^ 32)
    (hShort : InsertLog.StopsShort (SCHEMA_TAG R) (InsertLog.kindOf entry) payload
      (d (InsertLog.logPath path)) plan) :
    ∃ e d' plan', op.method ⟨s, d, plan⟩ = .error (.error (some e)) ⟨s, d', plan'⟩ ∧
      Stands path L slots records s d' := by
  obtain ⟨e, file, plan', hAppend, hReads⟩ :=
    InsertLog.append_short (s := s) h.log hPayload hLen hShort
  exact ⟨e, _, plan', method_of_append_error h.rep hLogged hAppend, h.relog hReads⟩

/-- An entry that cannot be written stops its call. -/
theorem Stands.unwritable {entry : LogEntry R Id} (h : Stands path L slots records s d)
    (hLogged : op.logged s = some entry)
    (hEntry : ∀ payload, InsertLog.payloadOf entry = some payload → ¬ payload.length < 2 ^ 32) :
    ∃ e, op.method ⟨s, d, plan⟩ = .error (.error (some e)) ⟨s, d, plan⟩ := by
  cases hPayload : InsertLog.payloadOf entry with
  | none =>
    refine ⟨.serde, method_of_append_error h.rep hLogged ?_⟩
    rw [InsertLog.append_of_unencodable hPayload]
    rfl
  | some payload =>
    refine ⟨.io .invalidInput, method_of_append_error h.rep hLogged ?_⟩
    rw [InsertLog.append_of_payload hPayload, InsertLog.appendEntry,
      if_neg (hEntry payload hPayload)]
    rfl

end Files

/-! ## Runs -/

/-- What happens to a store: a call on it, or a reopen of its files in its place. -/
inductive Deed (R Id SV : Type) where
  | call (op : Op R Id SV) (plan : List Outcome)
  | reopen (plan : List Outcome)

/-- The store and its files with the records it should have: a call that returned has its effect on
them, one that was refused or failed has none. A crash ends the run. -/
def step (path : Path) (t : (GenericMmapStore R Id IV SV × Disk) × (Id → Option R)) :
    Deed R Id SV → Option ((GenericMmapStore R Id IV SV × Disk) × (Id → Option R))
  | .call op plan =>
    match op.method ⟨t.1.1, t.1.2, plan⟩ with
    | .ok _ p => some ((p.self, p.disk), op.apply t.2)
    | .error (.error _) p => some ((p.self, p.disk), t.2)
    | .error _ _ => none
  | .reopen plan => (reopen path plan t.1.2).map fun st => (st, t.2)

/-- Writes stop short or log cleanly, compactions return, and a reopen is not misled by a
fingerprint. -/
def Clean (path : Path) (t : (GenericMmapStore R Id IV SV × Disk) × (Id → Option R)) :
  Deed R Id SV → Prop
  | .call .compact plan => ((Op.compact : Op R Id SV).after plan t.1).isSome
  | .call op plan => LogsCleanly path op plan t.1.1 t.1.2
  | .reopen _ => Tells (R := R) path t.1.2

/-- The store stands over its files and answers with the records it should have. -/
def Standing (path : Path) (t : (GenericMmapStore R Id IV SV × Disk) × (Id → Option R)) : Prop :=
  ∃ L slots records, Stands path L slots records t.1.1 t.1.2 ∧ view t.1.1 = t.2

section Runs

variable {path : Path} {t t' : (GenericMmapStore R Id IV SV × Disk) × (Id → Option R)}
variable {s : GenericMmapStore R Id IV SV} {d : Disk} {L : List (LogEntry R Id)}
  {slots : List (Slot Id SV)}
variable {records : List R} {m : Id → Option R} {op : Op R Id SV} {plan : List Outcome}

theorem step_of_error {e : Option DurabilityError} {p : Proc (GenericMmapStore R Id IV SV)}
    (hRun : op.method ⟨s, d, plan⟩ = .error (.error e) p) :
    step path ((s, d), m) (.call op plan) = some ((p.self, p.disk), m) := by
  simp only [step, hRun]

/-- What a rule says of a call holds of a step that made it. -/
theorem of_step {Q : Unit → GenericMmapStore R Id IV SV → Disk → Prop}
    {A C : Stop (Option DurabilityError) → GenericMmapStore R Id IV SV → Disk → Prop}
    (h : Method.wp op.method s d Q A C) (hStep : step path ((s, d), m) (.call op plan) = some t') :
    (Q () t'.1.1 t'.1.2 ∧ t'.2 = op.apply m) ∨
      ∃ e p, op.method ⟨s, d, plan⟩ = .error (.error e) p ∧ t' = ((p.self, p.disk), m) ∧
        (A (.error e) p.self p.disk ∨ C (.error e) p.self p.disk) := by
  simp only [step] at hStep
  split at hStep
  · next p hRun =>
    cases hStep
    exact Or.inl ⟨h.of_ok hRun, rfl⟩
  · next e p hRun =>
    cases hStep
    exact Or.inr ⟨e, p, hRun, rfl, h.of_error hRun⟩
  · cases hStep

/-- A call on a store with a whole log, none of whose steps fails. -/
theorem standing_of_whole (h : Stands path L slots records s d)
    (hWhole : InsertLog.WholeLog (SCHEMA_TAG R) (d (InsertLog.logPath path))) (hOp : op ≠ .compact)
    (hPlan : Unfailing plan) (hStep : step path ((s, d), view s) (.call op plan) = some t') :
    Standing path t' := by
  obtain ⟨hSession, hBacked⟩ := h.session hWhole
  have hMethod := wp_method hSession op
  rcases of_step hMethod hStep with ⟨⟨L', slots', hAdvance⟩, hRecords⟩ | ⟨e, p, hRun, rfl, -⟩
  · obtain ⟨records', hStands⟩ := hAdvance.session.stands (hAdvance.backed hBacked)
    exact ⟨L', slots', records', hStands, hAdvance.view.trans hRecords.symm⟩
  · -- without a failure the call was refused for a reason of its own
    obtain ⟨hSelf, hDisk, -⟩ := hMethod.of_error_nil ((steady_method hOp).error_nil hPlan hRun)
    refine ⟨L, slots, records, ?_, congrArg view hSelf⟩
    show Stands path L slots records p.self p.disk
    rw [show p.self = s from hSelf, show p.disk = d from hDisk]
    exact h

theorem standing_of_update (h : Stands path L slots records s d) {key : Id} {value : SV}
    (hStep : step path ((s, d), view s) (.call (.update key value) plan) = some t') :
    Standing path t' := by
  have hUpdate : Method.wp (Op.update key value : Op R Id SV).method s d
      (fun _ s' d' => ∃ slots', Rep s' path slots' ∧ d' path = some (image slots' []) ∧
        s'.records = s.records ∧
        view s' = Function.update (view s) key ((view s key).map (setScannableValue value)) ∧
        Disk.AgreeOff [path] d d')
      (fun _ s' d' => s' = s ∧ d' = d) (fun e _ _ => e = .crash) := by
    refine Method.wp_mapError
      ((wp_update_slot h.rep h.file key value).mono (fun _ s' d' hDone => ?_)
      (fun e s' d' hRefused => ?_) fun e s' d' hCrash => ?_)
    · obtain ⟨-, slots', hRep, hFile, hRecords, hView, -, hAgree⟩ := hDone
      exact ⟨slots', hRep, hFile, hRecords, hView, hAgree⟩
    · exact Method.onMapped_of_forall (C := fun _ s' d' => s' = s ∧ d' = d)
        (fun _ => ⟨hRefused.1, hRefused.2.1⟩) e
    · subst hCrash
      rfl
  rcases of_step hUpdate hStep with ⟨⟨slots', hRep, hFile, hRecords, hView, hAgree⟩, hApplied⟩ |
    ⟨e, p, hRun, rfl, ⟨hSelf, hDisk⟩ | hCrash⟩
  · refine ⟨L, slots', records, ⟨hRep, hFile, ?_, h.ids, ?_, ?_⟩, hView.trans hApplied.symm⟩
    · rw [hAgree _ (by simpa using logPath_ne path)]
      exact h.log
    · exact h.blob.of_same (hAgree _ (by simpa using blobPath_ne path))
    · rw [← h.live]
      funext k
      rw [GenericMmapStore.live, GenericMmapStore.live, hRecords]
  · refine ⟨L, slots, records, ?_, congrArg view hSelf⟩
    rw [hSelf, hDisk]
    exact h
  · cases hCrash

theorem standing_of_compact (h : Stands path L slots records s d)
    (hReturns : ((Op.compact : Op R Id SV).after plan (s, d)).isSome)
    (hStep : step path ((s, d), view s) (.call .compact plan) = some t') : Standing path t' := by
  have hCompact : Method.wp (Op.compact : Op R Id SV).method s d
      (fun _ s' d' => ∃ records, Compacted path records s s' d' ∧ DistinctIds records ∧
        contents records = view s)
      (fun e _ _ => e ≠ .error none) (fun e _ _ => e ≠ .error none) := by
    have hSome : ∀ (e : Stop DurabilityError) (s : GenericMmapStore R Id IV SV) (d : Disk),
        Method.onMapped some (fun (e : Stop (Option DurabilityError)) _ _ => e ≠ .error none) e s
          d := by
      rintro (e | _ | _) s d hEq <;> cases hEq
    refine Method.wp_mapError (Method.wp_bind ((wp_compact_reads h.rep h.log).mono
      (fun _ s' d' hDone => Method.wp_pure ?_) (fun e s' d' _ => hSome e s' d') fun e s' d' _ =>
        hSome e s' d'))
    obtain ⟨records', hDone, hIds, hView, -⟩ := hDone
    exact ⟨records', hDone, hIds, hView⟩
  rcases of_step hCompact hStep with ⟨⟨records', hDone, hIds, hView⟩, hApplied⟩ |
    ⟨e, p, hRun, rfl, hSome⟩
  · obtain ⟨records'', hStands⟩ := hDone.session.stands (hDone.backed hIds hView)
    exact ⟨[], _, records'', hStands, hDone.view.trans hApplied.symm⟩
  · -- a compaction is not refused
    obtain ⟨cause, rfl⟩ : ∃ cause, e = some cause := Option.ne_none_iff_exists'.mp fun hNone => by
      subst hNone
      exact hSome.elim (· rfl) (· rfl)
    rw [Op.after, hRun] at hReturns
    cases hReturns

/-- **One deed.** A clean one keeps the store standing. -/
theorem Standing.step (h : Standing path t) {deed : Deed R Id SV} (hClean : Clean path t deed)
    (hStep : GenericMmapStore.step path t deed = some t') : Standing path t' := by
  obtain ⟨⟨s, d⟩, m⟩ := t
  obtain ⟨L, slots, records, hStands, hView⟩ := h
  obtain rfl : view s = m := hView
  have hKept : ∀ {op : Op R Id SV} {plan e d' plan'}, op.method ⟨s, d, plan⟩ =
      .error (.error e) ⟨s, d', plan'⟩ → Stands path L slots records s d' →
      GenericMmapStore.step path ((s, d), view s) (.call op plan) = some t' → Standing path t' := by
    intro op plan e d' plan' hRun hStands' hStep
    rw [step_of_error hRun, Option.some.injEq] at hStep
    subst hStep
    exact ⟨L, slots, records, hStands', rfl⟩
  cases deed with
  | reopen plan =>
    obtain ⟨st, hReopen, rfl⟩ := Option.map_eq_some_iff.mp hStep
    obtain ⟨hView, slots', hOpened⟩ := post_of_reopen hStands.wp_openPortable hReopen
    obtain ⟨records', hStands'⟩ := hOpened.stands hStands hClean
    exact ⟨[], slots', records', hStands', hView⟩
  | call op plan =>
    by_cases hCompact : op = .compact
    · subst hCompact
      exact standing_of_compact hStands hClean hStep
    by_cases hUpdate : ∃ k v, op = .update k v
    · obtain ⟨key, value, rfl⟩ := hUpdate
      exact standing_of_update hStands hStep
    have hLogs : LogsCleanly path op plan s d := by
      cases op <;> first | exact hClean | exact (hCompact rfl).elim
    cases hLogged : op.logged s with
    | none =>
      exact hKept (method_of_unlogged hLogged (fun k v hEq => hUpdate ⟨k, v, hEq⟩) hCompact)
        hStands hStep
    | some entry =>
      by_cases hEntry : ∃ payload, InsertLog.payloadOf entry = some payload ∧
        payload.length < 2 ^ 32
      · obtain ⟨payload, hPayload, hLen⟩ := hEntry
        rcases hLogs entry payload hLogged hPayload hLen with hShort | ⟨hWhole, hPlan⟩
        · obtain ⟨e, d', plan', hRun, hStands'⟩ := hStands.short hLogged hPayload hLen hShort
          exact hKept hRun hStands' hStep
        · exact standing_of_whole hStands hWhole hCompact hPlan hStep
      · obtain ⟨e, hRun⟩ := hStands.unwritable hLogged fun payload hPayload hLen =>
          hEntry ⟨payload, hPayload, hLen⟩
        exact hKept hRun hStands hStep

/-- The store answers from the records `m`, and so does a reopen of its files, now or under any plan
it returns under. -/
structure Agrees (path : Path) (st : GenericMmapStore R Id IV SV × Disk)
    (m : Id → Option R) : Prop where
  live : Answers st.1 m
  opens : ∃ st' : GenericMmapStore R Id IV SV × Disk, reopen path [] st.2 = some st'
  reopened : ∀ plan (st' : GenericMmapStore R Id IV SV × Disk), reopen path plan st.2 = some st' →
    Answers st'.1 m

theorem Standing.agrees (h : Standing path t) (hCount : (allIds t.1.1).length < 2 ^ 64) :
    Agrees path t.1 t.2 := by
  obtain ⟨L, slots, records, hStands, hView⟩ := h
  obtain ⟨hTotal, hSame⟩ := reopen_of_wp (hStands.wp_openPortable.mono (fun _ _ _ => id)
    (fun _ _ _ hMany => (Nat.not_le.mpr hCount hMany).elim) fun _ _ _ => id)
  rw [← hView]
  refine ⟨hStands.rep.answers, hTotal, fun plan st' hReopen => ?_⟩
  obtain ⟨hAnswers, slots', hOpened⟩ := hSame plan st' hReopen
  rw [← hAnswers]
  exact hOpened.session.rep.answers

/-- **A failing write leaves the live store's reads as they are**, whichever of its steps failed. In
every run in which each write that fails stops short of its entry and each other logged write finds
a whole log, the store and every reopen of its files answer without the writes that failed. -/
theorem refused_writes (hIds : DistinctIds records) {d₀ : Disk} {p : Proc Unit}
    (hCreate : create records path ⟨(), d₀, plan⟩ = .ok s p)
    (hRun : Machine.Runs (step path) (Clean path) ((s, p.disk), contents records) t)
    (hCount : (allIds t.1.1).length < 2 ^ 64) :
    Agrees path t.1 t.2 ∧
      ∀ (op : Op R Id SV) plan' e q, op ≠ .compact →
        op.method ⟨t.1.1, t.1.2, plan'⟩ = .error (.error (some e)) q → SameReads t.1.1 q.self := by
  obtain ⟨hSession, hBacked, hView⟩ := created_backed hIds hCreate
  obtain ⟨records', hStands⟩ := hSession.stands hBacked
  have hStanding : Standing path t := hRun.invariant ⟨[], _, records', hStands, hView⟩
    fun t deed u _ h hClean hStep => h.step hClean hStep
  refine ⟨hStanding.agrees hCount, fun op plan' e q hOp hFails => ?_⟩
  rw [((wp_method_inPlace t.1.1 hOp).of_error hFails).elim (· _ rfl) (· _ rfl)]
  exact ⟨fun _ => rfl, rfl, fun _ => rfl, rfl⟩

end Runs

/-- The third order is inserted, and the write of its entry fails behind 30 bytes. -/
theorem refused_writes_sample :
    ∃ (s : GenericMmapStore Order Uuid OrderStatus Int64) (p : Proc Unit)
      (t : (GenericMmapStore Order Uuid OrderStatus Int64 × Disk) × (Uuid → Option Order)),
      create sampleRecords samplePath ⟨(), fun _ => none, []⟩ = .ok s p ∧
        step samplePath ((s, p.disk), contents sampleRecords)
          (.call (.insert (.sample 3 30)) [.done, .done, .done, .failed 30]) = some t ∧
        Agrees samplePath t.1 t.2 := by
  have hFails : sampleStore.map (fun r => ((r.2.disk (InsertLog.logPath samplePath)).isNone,
      (step samplePath ((r.1, r.2.disk), contents sampleRecords)
        (.call (.insert (.sample 3 30)) [.done, .done, .done, .failed 30])).map fun t =>
          (allIds t.1.1).length)) =
      some (true, some 2) := by decide +kernel
  obtain ⟨⟨s, p⟩, hStore, hFails⟩ := Option.map_eq_some_iff.mp hFails
  have hCreate := Method.finished_eq_some.mp hStore
  rw [Prod.mk.injEq, Option.isNone_iff_eq_none] at hFails
  obtain ⟨hFresh, hStep⟩ := hFails
  obtain ⟨t, hStep, hCount⟩ := Option.map_eq_some_iff.mp hStep
  have hClean : Clean samplePath ((s, p.disk), contents sampleRecords)
      (.call (.insert (Order.sample 3 30)) [.done, .done, .done, .failed 30]) := by
    -- the header of the new log is whole, and the entry is not
    intro entry payload _ _ _
    refine Or.inl ?_
    show 30 < (InsertLog.appended _ (p.disk (InsertLog.logPath samplePath)) _ _).length ∧
      if p.disk (InsertLog.logPath samplePath) = none then _ else _
    rw [hFresh, if_pos rfl]
    refine ⟨?_, by decide⟩
    rw [InsertLog.appended, Option.getD_none, if_pos List.length_nil, List.length_append,
      InsertLog.length_headed, InsertLog.entryBytes]
    have hHeader : 26 ≤ GenericRecordBlob.TAGGED_HEADER_LEN := by decide
    simp only [List.length_nil, List.cons_append, List.length_cons, List.length_append,
      Bytes.length_leBytes]
    omega
  exact ⟨s, p, t, hCreate, hStep, (refused_writes sample_distinctIds hCreate
    (Machine.Runs.refl.tail hClean hStep) (by rw [hCount]; decide)).1⟩

/-- The third order is inserted, and its slot cannot be written: a reopen answers with the order. -/
theorem failed_insert_comes_back :
    ¬ ∀ (path : Path) (records : List Order) (s : GenericMmapStore Order Uuid OrderStatus
      Int64) (p : Proc Unit) (record : Order) (plan : List Outcome) (e : DurabilityError)
      (q : Proc (GenericMmapStore Order Uuid OrderStatus Int64)), DistinctIds records →
      create records path ⟨(), fun _ => none, []⟩ = .ok s p →
      insert record ⟨s, p.disk, plan⟩ = .error (.error (.durability e)) q →
      ∀ st : GenericMmapStore Order Uuid OrderStatus Int64 × Disk, reopen path [] q.disk = some st →
        ∀ k, get st.1 k = get s k := by
  intro hClaim
  have hFails : (sampleFailure (insert (Order.sample 3 30)) (failsAfter 6)).bind (fun r =>
      (reopen samplePath [] r.2.2.2.disk).map
        fun st : GenericMmapStore Order Uuid OrderStatus Int64 × Disk =>
        (r.2.2.1, get r.1 (Uuid.ofNat 3), get st.1 (Uuid.ofNat 3))) =
      some (.durability (.io .other), .ok none, .ok (some (.sample 3 30))) := by decide +kernel
  obtain ⟨⟨s, p, e, q⟩, hFails, hReopen⟩ := Option.bind_eq_some_iff.mp hFails
  obtain ⟨st, hReopen, hReads⟩ := Option.map_eq_some_iff.mp hReopen
  obtain ⟨hCreate, hRun⟩ := sampleFailure_eq hFails
  simp only [Prod.mk.injEq] at hReads
  obtain ⟨rfl, hBefore, hAfter⟩ := hReads
  have hSame := hClaim samplePath sampleRecords s p _ _ _ q sample_distinctIds hCreate hRun st
    hReopen (Uuid.ofNat 3)
  rw [hBefore, hAfter] at hSame
  cases hSame

end GenericMmapStore

end MultimodalDb
