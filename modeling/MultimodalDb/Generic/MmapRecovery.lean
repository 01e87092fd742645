import MultimodalDb.Generic.MmapCompact

/-!
# Reopening from the files alone

A portable open reads the record set from the blob and folds the log over it, once to have the
records and once more as every open does. Folding twice is folding once (`contents_merged`), so what
decides the reopened store is the blob with the log laid over it (`Backed`).

The store then answers as before when the slots agree with the answers there were: every answered id
has its scannable value in its last committed slot, or has no slot and its value in the record
(`answers_of_recovers`).
-/

namespace MultimodalDb

open StoredRecord hiding id
open StoredRecord renaming id → idOf
open SlotFile (LastCommitted Unclaimed image COMMITTED)

namespace GenericMmapStore

variable {R Id IV SV : Type} [StoredRecord R Id IV SV] [DecidableEq Id]

/-! ## The record set of the files -/

/-- The record set a portable open builds its store over. -/
def merged (records : List R) (logged : List (LogEntry R Id)) : List R :=
  mergeLog (mergeLog records logged) logged

section Merged

variable {records : List R} {logged : List (LogEntry R Id)}

theorem distinctIds_merged (h : DistinctIds records) (logged : List (LogEntry R Id)) :
    DistinctIds (merged records logged) :=
  (mergeLog_spec (mergeLog_spec h logged).1 logged).1

theorem contents_merged (h : DistinctIds records) (logged : List (LogEntry R Id)) :
    contents (merged records logged) = Overlay.apply (contents records) (logged.map written) := by
  obtain ⟨hIds, hContents⟩ := mergeLog_spec h logged
  rw [merged, (mergeLog_spec hIds logged).2, hContents, Overlay.apply_apply]

/-- Every record of the merged set is in the blob or was logged. -/
theorem mem_merged (h : DistinctIds records) {record : R} (hMem : record ∈ merged records logged) :
    record ∈ records ∨ LogEntry.item record ∈ logged := by
  have hHeld : contents (merged records logged) (idOf record) = some record :=
    (contents_eq_some_iff (distinctIds_merged h logged)).mpr ⟨hMem, rfl⟩
  rw [contents_merged h, Overlay.apply_eq] at hHeld
  cases hLast : Overlay.last (logged.map written) (idOf record) with
  | none =>
    rw [hLast, Option.getD_none, contents_eq_some_iff h] at hHeld
    exact Or.inl hHeld.1
  | some new =>
    rw [hLast, Option.getD_some] at hHeld
    subst hHeld
    obtain ⟨entry, hEntry, hWritten⟩ := List.mem_map.mp (Overlay.mem_of_last hLast)
    cases entry with
    | item new =>
      simp only [written, Prod.mk.injEq, Option.some.injEq] at hWritten
      rw [← hWritten.2]
      exact Or.inr hEntry
    | tombstone key => simp [written] at hWritten

/-- A record set has as many records as there are ids it holds. -/
theorem length_eq_of_ids {keys : List Id} (h : DistinctIds records) (hKeys : keys.Nodup)
    (hMem : ∀ k, k ∈ keys ↔ contents records k ≠ none) : records.length = keys.length := by
  have hPerm : (records.map (idOf : R → Id)).Perm keys :=
    (List.perm_ext_iff_of_nodup h hKeys).mpr fun k => by
      rw [hMem, Ne, contents_eq_none_iff, not_not]
  have hLength := hPerm.length_eq
  rwa [List.length_map] at hLength

end Merged

/-! ## The files of a store -/

section Stored

variable [Serde R] [Serde Id] {S : Type} {s₀ : S} {d : Disk} {path : Path}
variable {A C : Stop DurabilityError → S → Disk → Prop}

/-- The files of a store: a blob with these records and a log over it. -/
structure Stored (path : Path) (records : List R) (logged : List (LogEntry R Id)) (d : Disk) :
    Prop where
  ids : DistinctIds records
  blob : BlobOf path records d
  log : InsertLog.Holds (SCHEMA_TAG R) logged (d (InsertLog.logPath path))

variable {records : List R} {logged : List (LogEntry R Id)}

theorem wp_readPortableRecords {Q : List R → S → Disk → Prop} (h : Stored path records logged d)
    (hOk : Q (mergeLog records logged) s₀ d) (hStop : ∀ e, C e s₀ d) :
    Method.wp (readPortableRecords path) s₀ d Q A C := by
  obtain ⟨body, hBody, hBlob⟩ := h.blob
  refine Method.wp_bind (GenericRecordBlob.wp_read_image hBlob hBody ?_ hStop)
  exact Method.wp_bind (InsertLog.wp_readEntries h.log (Method.wp_pure hOk) hStop)

omit [DecidableEq Id] in
/-- The files say what they hold. -/
theorem Stored.read_eq (h : Stored path records logged d) :
    Method.value
        (GenericRecordBlob.read (SCHEMA_TAG R) (GenericRecordBlob.blobPath path) ⟨(), d, []⟩) =
        some records ∧
      Method.value (InsertLog.readEntries (InsertLog.logPath path) (SCHEMA_TAG R) ⟨(), d, []⟩) =
        some logged := by
  obtain ⟨body, hBody, hBlob⟩ := h.blob
  constructor
  · obtain ⟨found, p, hRun, hFound, -⟩ := Method.wp_total
      (GenericRecordBlob.wp_read_image (s := ()) (C := fun _ _ _ => True)
        (Q := fun found _ _ => found = records) hBlob hBody rfl fun _ => trivial)
    rw [hRun, ← hFound]
    rfl
  · obtain ⟨found, p, hRun, hFound, -⟩ := Method.wp_total
      (InsertLog.wp_readEntries (s := ()) (C := fun _ _ _ => True)
        (Q := fun found _ _ => found = logged) h.log rfl fun _ => trivial)
    rw [hRun, ← hFound]
    rfl

/-- What is stored can be encoded again, as long as a `usize` counts it. -/
theorem Stored.encode_isSome (h : Stored path records logged d)
    (hLen : (merged records logged).length < 2 ^ 64) :
    ∃ body, Codec.encode (merged records logged) = some body := by
  refine Option.isSome_iff_exists.mp (Codec.encode_list_isSome hLen fun record hMem => ?_)
  rcases mem_merged h.ids hMem with hOld | hNew
  · obtain ⟨body, hBody, -⟩ := h.blob
    exact Codec.encode_mem_isSome (by rw [hBody]; rfl) record hOld
  · exact h.log.encodable _ hNew

theorem Stored.shapes_snoc (h : Stored path records logged d) (entry : LogEntry R Id) :
    (fun k => (contents (merged records (logged ++ [entry])) k).map shape) =
      Function.update (fun k => (contents (merged records logged) k).map shape) (written entry).1
        ((written entry).2.map shape) := by
  rw [contents_merged h.ids, contents_merged h.ids, List.map_append, List.map_singleton,
    Overlay.apply_snoc, Overlay.update_map]

end Stored

/-! ## The answers after a reopen -/

/-- Where the value of an answered id is: in its last committed slot, or in the record itself when
no committed slot carries the id. -/
def Carries (slots : List (Slot Id SV)) (m answers : Id → Option R) : Prop :=
  ∀ k record, answers k = some record →
    (∃ p, LastCommitted slots k p (scannableValue record)) ∨
      (Unclaimed slots k ∧ m k = some record)

omit [DecidableEq Id] in
theorem answers_of_recovers {m answers before : Id → Option R} {slots : List (Slot Id SV)}
    (h : Recovers m slots answers) (hShape : ∀ k, (m k).map shape = (before k).map shape)
    (hCarries : Carries slots m before) : answers = before := by
  funext k
  cases hBefore : before k with
  | none =>
    have hNone : m k = none := by
      have hk := hShape k
      rw [hBefore, Option.map_none, Option.map_eq_none_iff] at hk
      exact hk
    -- whether or not a slot carries the id, there is no record to answer with
    rcases SlotFile.lastCommitted_or_unclaimed slots k with ⟨p, v, hLast⟩ | hFree
    · rw [(h k).1 p v hLast, hNone, Option.map_none]
    · rw [(h k).2 hFree, hNone]
  | some record =>
    rcases hCarries k record hBefore with ⟨p, hLast⟩ | ⟨hFree, hHeld⟩
    · obtain ⟨held, hHeld, hSame⟩ : ∃ held, m k = some held ∧ shape held = shape record := by
        have hk := hShape k
        rw [hBefore, Option.map_some] at hk
        exact Option.map_eq_some_iff.mp hk
      rw [(h k).1 p _ hLast, hHeld, Option.map_some]
      exact congrArg some ((congrFun hSame _).trans (shape_scannableValue record))
    · rw [(h k).2 hFree, hHeld]

variable [MmapFieldValue Id] [MmapFieldValue SV] [DecidableEq IV]

/-- The slots of a represented store carry its answers. -/
theorem Rep.carries {s : GenericMmapStore R Id IV SV} {path : Path} {slots : List (Slot Id SV)}
    (h : Rep s path slots) (m : Id → Option R) : Carries slots m (view s) := by
  intro k record hView
  cases hk : s.records.lookup k with
  | none =>
    rw [view_none hk] at hView
    cases hView
  | some stored =>
    obtain ⟨p, v, hAt⟩ := h.exists_at hk
    rw [h.view_at hAt] at hView
    cases hView
    exact Or.inl ⟨p, by rw [scannableValue_shape]; exact hAt.2.2⟩

variable [Serde R] [Serde Id] {S : Type} {s₀ : S} {d : Disk} {path : Path}
variable {A C : Stop DurabilityError → S → Disk → Prop}
variable {records : List R} {logged : List (LogEntry R Id)}

/-! ## Opening -/

/-- Opening over caller-given records, whatever the log holds. -/
theorem wp_openStore {slots : List (Slot Id SV)}
    {Q : GenericMmapStore R Id IV SV → S → Disk → Prop} (hFile : d path = some (image slots []))
    (hIds : DistinctIds records)
    (hOk : ∀ logged slots' s d',
      InsertLog.entriesOf (InsertLog.logPath path) (SCHEMA_TAG R) (d (InsertLog.logPath path)) =
        .ok logged → Opened path (mergeLog records logged) slots d slots' s d' → Q s s₀ d')
    (hRefused : ∀ e, A (.error e) s₀ d) (hStop : ∀ e d', C e s₀ d') :
    Method.wp (openStore records path) s₀ d Q A C := by
  refine Method.wp_bind (InsertLog.wp_readEntries_any (fun logged hLogged => ?_) hRefused
    fun e => hStop e d)
  exact wp_openFolded hFile (mergeLog_spec hIds logged).1
    (fun slots' s d' => hOk logged slots' s d' hLogged) (fun _ => hRefused _) hStop

/-- What an open that returned has read and opened. -/
theorem opened_of_ok {slots : List (Slot Id SV)} {plan : List Outcome}
    {s : GenericMmapStore R Id IV SV} {p : Proc Unit} (hFile : d path = some (image slots []))
    (hIds : DistinctIds records) (hRun : openStore records path ⟨(), d, plan⟩ = .ok s p) :
    ∃ logged slots', InsertLog.entriesOf (InsertLog.logPath path) (SCHEMA_TAG R)
        (d (InsertLog.logPath path)) = .ok logged ∧
      Opened path (mergeLog records logged) slots d slots' s p.disk :=
  (wp_openStore hFile hIds
    (Q := fun s _ d' => ∃ logged slots', InsertLog.entriesOf (InsertLog.logPath path) (SCHEMA_TAG R)
        (d (InsertLog.logPath path)) = .ok logged ∧
      Opened path (mergeLog records logged) slots d slots' s d')
    (A := fun _ _ _ => True) (C := fun _ _ _ => True)
    (fun logged slots' _ _ hLogged h => ⟨logged, slots', hLogged, h⟩) (fun _ => trivial)
    fun _ _ => trivial).of_ok hRun

/-- Reopening from the files alone. -/
theorem wp_openPortable {slots : List (Slot Id SV)}
    {Q : GenericMmapStore R Id IV SV → S → Disk → Prop} (h : Stored path records logged d)
    (hFile : d path = some (image slots []))
    (hOk : ∀ slots' s d', Opened path (merged records logged) slots d slots' s d' → Q s s₀ d')
    (hSerde : Codec.encode (merged records logged) = none → A (.error .serde) s₀ d)
    (hStop : ∀ e d', C e s₀ d') : Method.wp (openPortable path) s₀ d Q A C := by
  refine Method.wp_bind (wp_readPortableRecords h ?_ fun e => hStop e d)
  refine Method.wp_bind (InsertLog.wp_readEntries h.log ?_ fun e => hStop e d)
  exact wp_openFolded hFile (distinctIds_merged h.ids logged) hOk hSerde hStop

/-- **The reopened store.** When the files hold the answers there were, a portable open returns, and
whenever it returns the answers are those. -/
theorem wp_openPortable_answers {slots : List (Slot Id SV)} {before : Id → Option R}
    (h : Stored path records logged d) (hFile : d path = some (image slots []))
    (hLen : (merged records logged).length < 2 ^ 64)
    (hShape : ∀ k, (contents (merged records logged) k).map shape = (before k).map shape)
    (hCarries : Carries slots (contents (merged records logged)) before) :
    Method.wp (openPortable path) s₀ d
      (fun s _ d' => view s = before ∧
        ∃ slots', Opened path (merged records logged) slots d slots' s d')
      (fun _ _ _ => False) (fun _ _ _ => True) := by
  obtain ⟨body, hBody⟩ := h.encode_isSome hLen
  refine wp_openPortable h hFile (fun slots' s d' hOpened => ⟨?_, slots', hOpened⟩)
    (fun hNone => nomatch hNone.symm.trans hBody) fun _ _ => trivial
  exact answers_of_recovers (hOpened.recovers (distinctIds_merged h.ids logged)) hShape hCarries

end GenericMmapStore

end MultimodalDb
