import MultimodalDb.Generic.MmapRuns

/-!
# Crashes between durable steps

An insert is a log entry and then a slot, a delete a tombstone and then a cleared marker. A crash
between the two leaves the log ahead of the slots, and the reopen brings the slots up to the log, by
id. It reads the log right (`Opened.backed`), but a slot of an earlier life of the id, left
committed by an earlier crash, is taken for the slot of the new one:

* `crash_atomic`: a history in which no insert is cut while the file holds a committed slot of its
  id is atomic.
* `cut_insert_revives_a_value`: a delete cut behind its tombstone, and then an insert cut behind its
  log entry, and the old value is back.

A compaction cut anywhere behind its blob, on the other hand, changes no answer
(`compact_cut_same_answers`): the log left behind says nothing that the new blob does not hold.
-/

namespace MultimodalDb

open StoredRecord hiding id
open StoredRecord renaming id → idOf
open SlotFile (LastCommitted Unclaimed image COMMITTED)

/-- Where a crash falls: behind the first durable step of an insert or of a delete, or between two
calls. -/
inductive Cut (R Id : Type) where
  | insert (record : R)
  | delete (key : Id)
  | idle

/-- A step of a history: a call that returns, or a crash and the reopen behind it. -/
inductive Move (R Id SV : Type) where
  | call (op : Op R Id SV) (plan : List Outcome)
  | crash (cut : Cut R Id)

namespace Cut

variable {R Id IV SV : Type} [StoredRecord R Id IV SV] [DecidableEq Id]

/-- The records if the interrupted call is wholly there. -/
def apply (m : Id → Option R) : Cut R Id → Id → Option R
  | .insert record => (Op.insert record : Op R Id SV).apply m
  | .delete key => (Op.delete key : Op R Id SV).apply m
  | .idle => m

variable [MmapFieldValue Id] [MmapFieldValue SV] [DecidableEq IV] [Serde R] [Serde Id]

/-- The files as the crash leaves them. -/
def disk (st : GenericMmapStore R Id IV SV × Disk) : Cut R Id → Disk
  | .insert record => (Method.final (GenericMmapStore.insertEntry record ⟨st.1, st.2, []⟩)).disk
  | .delete key => (Method.final (GenericMmapStore.deleteEntry key ⟨st.1, st.2, []⟩)).disk
  | .idle => st.2

/-- An insert may be cut when the store refuses it, or when no committed slot carries its id. -/
def Harmless (st : GenericMmapStore R Id IV SV × Disk) : Cut R Id → Prop
  | .insert record => idOf record ∈ st.1.records ∨
      ∃ pairs, SlotFile.committedPairs st.1.file = .ok pairs ∧ pairs.lookup (idOf record) = none
  | _ => True

end Cut

namespace GenericMmapStore

variable {R Id IV SV : Type} [StoredRecord R Id IV SV] [DecidableEq Id]
variable [MmapFieldValue Id] [MmapFieldValue SV] [DecidableEq IV] [Serde R] [Serde Id]

/-! ## Histories -/

/-- At every point of the history the store answers from the records it should have, `m` at its
start: a completed call has its effect, every crash is followed by a reopen that returns, and the
call it interrupted is there wholly or not at all. -/
def CrashAtomic (path : Path) :
    List (Move R Id SV) → GenericMmapStore R Id IV SV × Disk → (Id → Option R) → Prop
  | [], st, m => Answers st.1 m
  | .call op plan :: moves, st, m => Answers st.1 m ∧
      ∀ st', op.after plan st = some st' → CrashAtomic path moves st' (op.apply m)
  | .crash cut :: moves, st, m => Answers st.1 m ∧
      ∃ st', reopen path [] (cut.disk st) = some st' ∧
        (CrashAtomic path moves st' m ∨ CrashAtomic path moves st' (cut.apply m))

/-- The record set on the disk is counted by a `usize`, and when its fingerprint is that of the blob
it is what the blob holds. -/
def Distinguished (path : Path) (d : Disk) : Prop :=
  ∀ (records : List R) (logged : List (LogEntry R Id)), Stored path records logged d →
    (merged records logged).length < 2 ^ 64 ∧
      (GenericRecordBlob.fingerprint (merged records logged) =
        GenericRecordBlob.fingerprint records → contents (merged records logged) = contents records)

/-- Every crash of the history is a harmless one. -/
def CrashesHarmlessly (path : Path) :
    List (Move R Id SV) → GenericMmapStore R Id IV SV × Disk → Prop
  | [], _ => True
  | .call op plan :: moves, st =>
      ∀ st', op.after plan st = some st' → CrashesHarmlessly path moves st'
  | .crash cut :: moves, st => cut.Harmless st ∧ Distinguished (R := R) path (cut.disk st) ∧
      ∀ st', reopen path [] (cut.disk st) = some st' → CrashesHarmlessly path moves st'

/-! ## One crash -/

variable {path : Path} {L : List (LogEntry R Id)} {slots : List (Slot Id SV)}
variable {s s' : GenericMmapStore R Id IV SV} {d d' : Disk} {records : List R}

/-- The files of a store that was opened from its files back it. -/
theorem Opened.backed {slots' : List (Slot Id SV)}
    (h : Opened path (merged records L) slots d slots' s d')
    (hStored : Stored path records L d) (hTell : Distinguished (R := R) path d) :
    Backed path ([] : List (LogEntry R Id)) s d' := by
  rcases h.blob with ⟨hSame, hCurrent⟩ | ⟨body, hBody, hImage⟩
  · -- the blob was taken for current, and so it is
    obtain ⟨body, hBody, hImage⟩ := hStored.blob
    rw [hImage] at hCurrent
    have hPrint := GenericRecordBlob.currentAt_image hBody hCurrent
    refine ⟨records, ⟨hStored.ids, ⟨body, hBody, hSame.trans hImage⟩, h.session.log⟩, ?_⟩
    rw [h.live, (hTell records L hStored).2 hPrint]
    rfl
  · exact ⟨merged records L,
      ⟨distinctIds_merged hStored.ids L, ⟨body, hBody, hImage⟩, h.session.log⟩, h.live⟩

/-- A log entry was appended, and nothing else. -/
theorem Stored.append {entry : LogEntry R Id} (h : Stored path records L d)
    (hSession : Session path (L ++ [entry]) slots s d')
    (hAgree : Disk.AgreeOff [InsertLog.logPath path] d d') :
    Stored path records (L ++ [entry]) d' := by
  exact ⟨h.ids, h.blob.of_same (hAgree _ (by simpa using blobPath_ne_logPath path)), hSession.log⟩

/-- What a crash leaves: the log is at most one entry ahead of the store, and the slots carry the
answers the log says. -/
theorem cut_cases (h : Session path L slots s d) (hBacked : Backed path L s d) (cut : Cut R Id)
    (hHarmless : cut.Harmless (s, d)) :
    ∃ records L' answers, Stored path records L' (cut.disk (s, d)) ∧
      cut.disk (s, d) path = some (image slots []) ∧
      (answers = view s ∨ answers = cut.apply (view s)) ∧
      (∀ k, (contents (merged records L') k).map shape = (answers k).map shape) ∧
      Carries slots (contents (merged records L')) answers := by
  obtain ⟨records, hStored, hLive⟩ := hBacked
  have hShape : ∀ k, (contents (merged records L) k).map shape = (view s k).map shape := fun k => by
    rw [h.rep.view_shape, hLive]
  -- one more entry in the log is one more write of the answers
  have hEntry : ∀ entry : LogEntry R Id, ∀ k,
      (contents (merged records (L ++ [entry])) k).map shape =
        (Function.update (view s) (written entry).1 (written entry).2 k).map shape :=
          fun entry k => by
    rw [congrFun (hStored.shapes_snoc entry) k, congrFun (Overlay.update_map shape _ _ _) k,
      funext hShape]
  have hUncut : cut.disk (s, d) = d →
      ∃ records L' answers, Stored path records L' (cut.disk (s, d)) ∧
      cut.disk (s, d) path = some (image slots []) ∧
      (answers = view s ∨ answers = cut.apply (view s)) ∧
      (∀ k, (contents (merged records L') k).map shape = (answers k).map shape) ∧
      Carries slots (contents (merged records L')) answers := by
    intro hSame
    rw [hSame]
    exact ⟨records, L, view s, hStored, h.file, Or.inl rfl, hShape, h.rep.carries _⟩
  cases cut with
  | idle => exact hUncut rfl
  | insert record =>
    have hCut := Method.wp.final_nil (wp_insertEntry h record
      (Q := fun _ _ d' => d' = d ∨ (s.records.lookup (idOf record) = none ∧
        Session path (L ++ [.item record]) slots s d' ∧
          Disk.AgreeOff [InsertLog.logPath path] d d'))
      (A := fun _ _ d' => d' = d ∨ _) (C := fun _ _ _ => True)
      (fun hNew d' h' hAgree => Or.inr ⟨hNew, h', hAgree⟩) (fun _ => Or.inl rfl)
      (fun _ => Or.inl rfl) fun _ _ _ => trivial)
    rcases hCut with hSame | ⟨hNew, h', hAgree⟩
    · exact hUncut hSame
    · refine ⟨records, L ++ [.item record], Function.update (view s) (idOf record) (some record),
        hStored.append h' hAgree, h'.file, Or.inr ?_, hEntry (.item record), fun k r hk => ?_⟩
      · exact (if_pos (by rw [view_none hNew]; rfl)).symm
      · by_cases hId : k = idOf record
        · -- the record is in the log alone
          subst hId
          rw [Function.update_self] at hk
          cases hk
          refine Or.inr ⟨?_, ?_⟩
          · rcases hHarmless with hLive | ⟨pairs, hPairs, hFree⟩
            · exact absurd hLive (AList.lookup_eq_none.mp hNew)
            · obtain ⟨found, hFound, hFinds⟩ := committedPairs_image slots (some path) path
              rw [h.rep.file, hFound] at hPairs
              cases hPairs
              have hFind := hFinds (idOf record)
              rwa [hFree] at hFind
          · rw [contents_merged hStored.ids, List.map_append, List.map_singleton,
              Overlay.apply_snoc]
            exact Function.update_self ..
        · rw [Function.update_of_ne hId] at hk
          exact h.rep.carries _ k r hk
  | delete key =>
    have hCut := Method.wp.final_nil (wp_deleteEntry h key
      (Q := fun _ _ d' => d' = d ∨
        (Session path (L ++ [.tombstone key]) slots s d' ∧
          Disk.AgreeOff [InsertLog.logPath path] d d'))
      (A := fun _ _ d' => d' = d ∨ _) (C := fun _ _ _ => True)
      (fun _ _ _ d' _ h' hAgree => Or.inr ⟨h', hAgree⟩) (fun _ => Or.inl rfl) (fun _ => Or.inl rfl)
      fun _ _ _ => trivial)
    rcases hCut with hSame | ⟨h', hAgree⟩
    · exact hUncut hSame
    · refine ⟨records, L ++ [.tombstone key], Function.update (view s) key none,
        hStored.append h' hAgree, h'.file, Or.inr rfl, hEntry (.tombstone key), fun k r hk => ?_⟩
      by_cases hId : k = key
      · subst hId
        rw [Function.update_self] at hk
        cases hk
      · rw [Function.update_of_ne hId] at hk
        exact h.rep.carries _ k r hk

/-- **One crash.** The store behind a harmless crash answers as before it, or as if the interrupted
call had been completed, and its files back it again. -/
theorem reopen_after_cut (h : Session path L slots s d) (hBacked : Backed path L s d)
    {cut : Cut R Id}
    (hHarmless : cut.Harmless (s, d)) (hTell : Distinguished (R := R) path (cut.disk (s, d))) :
    ∃ s' d' slots', reopen path [] (cut.disk (s, d)) = some (s', d') ∧
      Session path [] slots' s' d' ∧ Backed path ([] : List (LogEntry R Id)) s' d' ∧
      (view s' = view s ∨ view s' = cut.apply (view s)) := by
  obtain ⟨records, L', answers, hStored, hFile, hAnswers, hShape, hCarries⟩ :=
    cut_cases h hBacked cut hHarmless
  obtain ⟨⟨⟨s', d'⟩, hReopen⟩, hOpened⟩ := reopen_of_wp
    (wp_openPortable_answers hStored hFile (hTell records L' hStored).1 hShape hCarries)
  obtain ⟨hView, slots', hDone⟩ := hOpened [] (s', d') hReopen
  refine ⟨s', d', slots', hReopen, hDone.session, hDone.backed hStored hTell, ?_⟩
  rwa [hView]

/-! ## Whole histories -/

theorem crashAtomic_of_session (h : Session path L slots s d) (hBacked : Backed path L s d)
    {moves : List (Move R Id SV)} (hMoves : CrashesHarmlessly path moves (s, d)) :
    CrashAtomic path moves (s, d) (view s) := by
  induction moves generalizing L slots s d with
  | nil => exact h.rep.answers
  | cons move moves ih =>
    cases move with
    | call op plan =>
      refine ⟨h.rep.answers, fun st' hAfter => ?_⟩
      obtain ⟨L', slots', hAdvance⟩ := after_advance h hAfter
      rw [← hAdvance.view]
      exact ih hAdvance.session (hAdvance.backed hBacked) (hMoves st' hAfter)
    | crash cut =>
      obtain ⟨hHarmless, hTell, hRest⟩ := hMoves
      obtain ⟨s', d', slots', hReopen, hSession, hBacked', hView⟩ :=
        reopen_after_cut h hBacked hHarmless hTell
      have hEnd := ih hSession hBacked' (hRest _ hReopen)
      refine ⟨h.rep.answers, (s', d'), hReopen, ?_⟩
      rcases hView with hView | hView
      · exact Or.inl (hView ▸ hEnd)
      · exact Or.inr (hView ▸ hEnd)

/-- **Crash atomicity** of every history whose crashes are harmless, from the creation of the store
on. -/
theorem crash_atomic (hIds : DistinctIds records) {plan : List Outcome} {p : Proc Unit}
    (hCreate : create records path ⟨(), d, plan⟩ = .ok s p) {moves : List (Move R Id SV)}
    (hMoves : CrashesHarmlessly path moves (s, p.disk)) :
    CrashAtomic path moves (s, p.disk) (contents records) := by
  obtain ⟨hSession, hBacked, hView⟩ := created_backed hIds hCreate
  rw [← hView]
  exact crashAtomic_of_session hSession hBacked hMoves

theorem crash_atomic_sample :
    ∃ s p, create sampleRecords samplePath ⟨(), fun _ => none, []⟩ = .ok s p ∧
      CrashAtomic samplePath [.crash (.insert (.sample 3 30))] (s, p.disk)
        (contents sampleRecords) := by
  have hCut : sampleStore.map (fun r =>
      ((SlotFile.committedPairs r.1.file).toOption.map fun pairs =>
        (pairs.lookup (Uuid.ofNat 3)).isNone,
        Method.value (GenericRecordBlob.read (SCHEMA_TAG Order)
          (GenericRecordBlob.blobPath samplePath)
          ⟨(), (Cut.insert (Order.sample 3 30)).disk (r.1, r.2.disk), []⟩),
        Method.value (InsertLog.readEntries (InsertLog.logPath samplePath) (SCHEMA_TAG Order)
          ⟨(), (Cut.insert (Order.sample 3 30)).disk (r.1, r.2.disk), []⟩))) =
      some (some true, some sampleRecords,
        some [(.item (.sample 3 30) : LogEntry Order Uuid)]) := by decide +kernel
  obtain ⟨⟨s, p⟩, hStore, hCut⟩ := Option.map_eq_some_iff.mp hCut
  have hCreate := Method.finished_eq_some.mp hStore
  simp only [Prod.mk.injEq] at hCut
  obtain ⟨hFree, hBlob, hLog⟩ := hCut
  refine ⟨s, p, hCreate, crash_atomic sample_distinctIds hCreate ⟨Or.inr ?_, ?_,
    fun _ _ => trivial⟩⟩
  · cases hPairs : SlotFile.committedPairs s.file with
    | error e =>
      rw [hPairs] at hFree
      cases hFree
    | ok pairs =>
      rw [hPairs] at hFree
      exact ⟨pairs, rfl, Option.isNone_iff_eq_none.mp (Option.some.inj hFree)⟩
  · intro records logged hStored
    obtain ⟨hRecords, hLogged⟩ := hStored.read_eq
    obtain rfl := Option.some.inj (hBlob.symm.trans hRecords)
    obtain rfl := Option.some.inj (hLog.symm.trans hLogged)
    exact ⟨by decide +kernel, fun hPrint => absurd hPrint (by decide +kernel)⟩

/-- Order 1 is deleted, and the delete is cut behind its tombstone; it is inserted again with
another amount, and the insert is cut behind its log entry. The store then answers with the old
amount. -/
theorem cut_insert_revives_a_value :
    ∃ s p, create [Order.sample 1 10] samplePath ⟨(), fun _ => none, []⟩ = .ok s p ∧
      ¬ CrashAtomic samplePath [.crash (.delete (Uuid.ofNat 1)), .crash (.insert (.sample 1 99))]
        (s, p.disk) (contents [Order.sample 1 10]) := by
  have hRun : (Method.finished (create [Order.sample 1 10] samplePath ⟨(), fun _ => none, []⟩)).bind
    (fun r =>
      (reopen samplePath [] ((Cut.delete (R := Order) (Uuid.ofNat 1)).disk (r.1, r.2.disk))).map
        fun st : GenericMmapStore Order Uuid OrderStatus Int64 × Disk =>
          (get st.1 (Uuid.ofNat 1),
            (reopen samplePath [] ((Cut.insert (Order.sample 1 99)).disk st)).map
            fun st : GenericMmapStore Order Uuid OrderStatus Int64 × Disk =>
              get st.1 (Uuid.ofNat 1))) =
      some (.ok none, some (.ok (some (Order.sample 1 10)))) := by decide +kernel
  obtain ⟨⟨s, p⟩, hStore, hRun⟩ := Option.bind_eq_some_iff.mp hRun
  refine ⟨s, p, Method.finished_eq_some.mp hStore, fun hAtomic => ?_⟩
  obtain ⟨-, st₁, hReopen₁, hFirst⟩ := hAtomic
  rw [hReopen₁, Option.map_some, Option.some.injEq, Prod.mk.injEq] at hRun
  obtain ⟨hGone, hBack⟩ := hRun
  rcases hFirst with hLive | hDeleted
  · -- the delete cannot have been lost: its tombstone was folded
    have hHeld := hLive.1.get (Uuid.ofNat 1)
    rw [hGone] at hHeld
    exact absurd hHeld (by decide)
  · obtain ⟨-, st₂, hReopen₂, hSecond⟩ := hDeleted
    rw [hReopen₂, Option.map_some, Option.some.injEq] at hBack
    rcases hSecond with hAbsent | hPresent
    · have hNone := hAbsent.get (Uuid.ofNat 1)
      rw [hBack] at hNone
      exact absurd hNone (by decide)
    · have hNew := hPresent.get (Uuid.ofNat 1)
      rw [hBack] at hNew
      exact absurd hNew (by decide)

/-! ## Interrupted compactions -/

/-- The files after a compaction that was stopped somewhere behind its blob, or ran to its end. -/
def CutCompact (st : GenericMmapStore R Id IV SV × Disk) (d' : Disk) : Prop :=
  ∃ plan records slotsBefore folded p plan',
    compactBlob ⟨st.1, st.2, plan⟩ = .ok (records, slotsBefore, folded) p ∧
      d' = (Method.final (compactRest records ⟨p.self, p.disk, plan'⟩)).disk

/-- The states a store and its files get into: created, or opened over records with distinct ids on
files whose blob, if there is one, holds such records; then calls that return, reopens, and inserts,
deletes and compactions cut short with a reopen behind them. -/
inductive Reachable (path : Path) : GenericMmapStore R Id IV SV × Disk → Prop where
  | created {records d plan s p} (hIds : DistinctIds records)
    (hRun : create records path ⟨(), d, plan⟩ = .ok s p) : Reachable path (s, p.disk)
  | opened {records d plan s p} {slots : List (Slot Id SV)} (hIds : DistinctIds records)
    (hFile : d path = some (image slots []))
    (hBlob : (d (GenericRecordBlob.blobPath path)).isSome →
      ∃ held : List R, DistinctIds held ∧ BlobOf path held d)
    (hRun : openStore records path ⟨(), d, plan⟩ = .ok s p) : Reachable path (s, p.disk)
  | called {op plan st st'} (h : Reachable path st) (hAfter : Op.after op plan st = some st') :
    Reachable path st'
  | reopened {plan st st'} (h : Reachable path st) (hReopen : reopen path plan st.2 = some st') :
    Reachable path st'
  | crashed {plan st st'} (cut : Cut R Id) (h : Reachable path st)
    (hReopen : reopen path plan (cut.disk st) = some st') : Reachable path st'
  | compactCut {plan st st' d'} (h : Reachable path st) (hCut : CutCompact st d')
    (hReopen : reopen path plan d' = some st') : Reachable path st'

/-- A store over a blob of distinct ids whose log says nothing that the record map does not. -/
def Sound (path : Path) (st : GenericMmapStore R Id IV SV × Disk) : Prop :=
  ∃ (L : List (LogEntry R Id)) (slots : List (Slot Id SV)) (held : List R),
    Session path L slots st.1 st.2 ∧
    Overlay.Settled (live st.1) (Overlay.mapWrites shape (L.map written)) ∧
    DistinctIds held ∧ BlobOf path held st.2

theorem Advance.settled {op : Op R Id SV} {L' : List (LogEntry R Id)} {slots' : List (Slot Id SV)}
    (h : Advance path L slots s d op L' slots' s' d')
    (hSettled : Overlay.Settled (live s) (Overlay.mapWrites shape (L.map written))) :
    Overlay.Settled (live s') (Overlay.mapWrites shape (L'.map written)) := by
  cases h with
  | refused => exact hSettled
  | wrote entry h =>
    have hSnoc := hSettled.snoc ((written entry).1, (written entry).2.map shape)
    rw [h.live]
    simpa only [Overlay.mapWrites, List.map_append, List.map_cons, List.map_nil] using hSnoc
  | touched h =>
    have hLive : live s' = live s := funext fun k => by rw [live, live, h.records]
    rwa [hLive]
  | compacted h => exact Overlay.settled_nil _

theorem Advance.blob {op : Op R Id SV} {L' : List (LogEntry R Id)} {slots' : List (Slot Id SV)}
    (h : Advance path L slots s d op L' slots' s' d') {held : List R} (hIds : DistinctIds held)
    (hBlob : BlobOf path held d) : ∃ held : List R, DistinctIds held ∧ BlobOf path held d' := by
  cases h with
  | refused => exact ⟨held, hIds, hBlob⟩
  | wrote entry h => exact ⟨held, hIds, hBlob.of_same h.blob⟩
  | touched h => exact ⟨held, hIds, hBlob.of_same h.blob⟩
  | compacted h hIds => exact ⟨_, hIds, h.blob⟩

/-- Whatever is opened has the blob there was behind it, or the records it was opened over. -/
theorem Opened.sound {slots' : List (Slot Id SV)} (h : Opened path records slots d slots' s d')
    (hIds : DistinctIds records) (hBlob : (d (GenericRecordBlob.blobPath path)).isSome →
      ∃ held : List R, DistinctIds held ∧ BlobOf path held d) : Sound path (s, d') := by
  rcases h.blob with ⟨hSame, bytes, fp, hBytes, -⟩ | hImage
  · obtain ⟨held, hHeld, hHeldBlob⟩ := hBlob (by rw [hBytes]; rfl)
    exact ⟨[], slots', held, h.session, Overlay.settled_nil _, hHeld, hHeldBlob.of_same hSame⟩
  · exact ⟨[], slots', records, h.session, Overlay.settled_nil _, hIds, hImage⟩

theorem Stored.sound (h : Stored path records L d) (hFile : d path = some (image slots []))
    {plan : List Outcome} {st : GenericMmapStore R Id IV SV × Disk}
    (hReopen : reopen path plan d = some st) : Sound path st := by
  obtain ⟨slots', hOpened⟩ := post_of_reopen (wp_openPortable h hFile
    (Q := fun s _ d' => ∃ slots', Opened path (merged records L) slots d slots' s d')
    (A := fun _ _ _ => True) (C := fun _ _ _ => True) (fun slots' s d' h => ⟨slots', h⟩)
    (fun _ => trivial) fun _ _ => trivial) hReopen
  exact hOpened.sound (distinctIds_merged h.ids L) fun _ => ⟨records, h.ids, h.blob⟩

/-- The files that a cut insert or delete leaves can be read like any others. -/
theorem stored_of_cut (h : Session path L slots s d) (hIds : DistinctIds records)
    (hBlob : BlobOf path records d) (cut : Cut R Id) :
    ∃ L', Stored path records L' (cut.disk (s, d)) ∧
      cut.disk (s, d) path = some (image slots []) := by
  have hUncut : ∃ L', Stored path records L' d ∧ d path = some (image slots []) :=
    ⟨L, ⟨hIds, hBlob, h.log⟩, h.file⟩
  cases cut with
  | idle => exact hUncut
  | insert record =>
    exact Method.wp.final_nil (P := fun _ d' => ∃ L', Stored path records L' d' ∧
        d' path = some (image slots [])) (C := fun _ _ _ => True)
      (wp_insertEntry h record (fun _ d' h' hAgree =>
        ⟨_, Stored.append ⟨hIds, hBlob, h.log⟩ h' hAgree, h'.file⟩) (fun _ =>
          hUncut) (fun _ => hUncut)
        fun _ _ _ => trivial)
  | delete key =>
    exact Method.wp.final_nil (P := fun _ d' => ∃ L', Stored path records L' d' ∧
        d' path = some (image slots [])) (C := fun _ _ _ => True)
      (wp_deleteEntry h key (fun _ _ _ d' _ h' hAgree =>
        ⟨_, Stored.append ⟨hIds, hBlob, h.log⟩ h' hAgree, h'.file⟩) (fun _ =>
          hUncut) (fun _ => hUncut)
        fun _ _ _ => trivial)

/-- The files of a compaction cut behind its blob: the blob holds the answers there were, slots and
log are each the old or the new ones. -/
theorem stored_of_cutCompact (h : Session path L slots s d) (hCut : CutCompact (s, d) d') :
    ∃ held L' slots', Stored path held L' d' ∧ d' path = some (image slots' []) ∧
      contents held = view s ∧ (L' = L ∨ L' = []) ∧
        (slots' = slots ∨ slots' = freshSlots held) := by
  obtain ⟨plan, held, slotsBefore, folded, p, plan', hBlob, rfl⟩ := hCut
  obtain ⟨hIds, hView, hSession, hHeld, hSelf⟩ := (wp_compactBlob h
    (Q := fun r s' d' => DistinctIds r.1 ∧ contents r.1 = view s ∧ Session path L slots s' d' ∧
      BlobOf path r.1 d' ∧ s' = s)
    (A := fun _ _ _ => True) (C := fun _ _ _ => True)
    (fun records d' _ hIds hView _ h' hBlob => ⟨hIds, hView, h', hBlob, rfl⟩) trivial
    fun _ _ _ => trivial).of_ok hBlob
  -- a compaction that ran to its end is cut behind all of its steps
  have hCut : CutBehindBlob path L slots held
      (Method.final (compactRest held ⟨p.self, p.disk, plan'⟩)).disk := by
    refine Method.wp.final (P := fun _ d' => CutBehindBlob path L slots held d')
      (wp_compactRest hSession hIds (hSelf ▸ hView) hHeld (fun s' d' hDone => ?_)
        fun _ _ _ hCut => hCut) plan'
    exact ⟨Or.inr hDone.session.file, Or.inr hDone.session.log, hDone.blob⟩
  obtain ⟨slots', hSlots, hFile⟩ : ∃ slots', (slots' = slots ∨ slots' = freshSlots held) ∧
      (Method.final (compactRest held ⟨p.self, p.disk, plan'⟩)).disk path =
        some (image slots' []) :=
    hCut.file.elim (fun hFile => ⟨slots, Or.inl rfl, hFile⟩) fun hFile => ⟨_, Or.inr rfl, hFile⟩
  rcases hCut.log with hLog | hLog
  · exact ⟨held, L, slots', ⟨hIds, hCut.blob, hLog⟩, hFile, hView, Or.inl rfl, hSlots⟩
  · exact ⟨held, [], slots', ⟨hIds, hCut.blob, hLog⟩, hFile, hView, Or.inr rfl, hSlots⟩

theorem Reachable.sound {st : GenericMmapStore R Id IV SV × Disk} (h : Reachable path st) :
    Sound path st := by
  induction h with
  | @created records d plan s p hIds hRun =>
    obtain ⟨hSession, -, -, -, hBlob⟩ := (wp_create hIds).of_ok hRun
    exact ⟨[], _, records, hSession, Overlay.settled_nil _, hIds, hBlob⟩
  | @opened records d plan s p slots hIds hFile hBlob hRun =>
    obtain ⟨logged, slots', -, hOpened⟩ := opened_of_ok hFile hIds hRun
    exact hOpened.sound (mergeLog_spec hIds logged).1 hBlob
  | called h hAfter ih =>
    obtain ⟨L, slots, held, hSession, hSettled, hHeld, hBlob⟩ := ih
    obtain ⟨L', slots', hAdvance⟩ := after_advance hSession hAfter
    obtain ⟨held', hHeld', hBlob'⟩ := hAdvance.blob hHeld hBlob
    exact ⟨L', slots', held', hAdvance.session, hAdvance.settled hSettled, hHeld', hBlob'⟩
  | reopened h hReopen ih =>
    obtain ⟨L, slots, held, hSession, -, hHeld, hBlob⟩ := ih
    exact Stored.sound ⟨hHeld, hBlob, hSession.log⟩ hSession.file hReopen
  | crashed cut h hReopen ih =>
    obtain ⟨L, slots, held, hSession, -, hHeld, hBlob⟩ := ih
    obtain ⟨L', hStored, hFile⟩ := stored_of_cut hSession hHeld hBlob cut
    exact hStored.sound hFile hReopen
  | compactCut h hCut hReopen ih =>
    obtain ⟨L, slots, held, hSession, -⟩ := ih
    obtain ⟨held', L', slots', hStored, hFile, -⟩ := stored_of_cutCompact hSession hCut
    exact hStored.sound hFile hReopen

/-- **An interrupted compaction is invisible.** From any reachable state, whatever stops a
compaction behind its blob: reopening the files returns when no I/O call fails, and whenever it
returns the answers are those of before. -/
theorem compact_cut_same_answers {st : GenericMmapStore R Id IV SV × Disk} (h : Reachable path st)
    (hCut : CutCompact st d') :
    (∃ st' : GenericMmapStore R Id IV SV × Disk, reopen path [] d' = some st') ∧
      ∀ plan (st' : GenericMmapStore R Id IV SV × Disk), reopen path plan d' = some st' →
        SameAnswers st.1 st'.1 := by
  obtain ⟨L, slots, -, hSession, hSettled, -, -⟩ := h.sound
  obtain ⟨held, L', slots', hStored, hFile, hView, hLog, hSlots⟩ :=
    stored_of_cutCompact hSession hCut
  -- the log says of a record nothing but what the blob holds
  have hShape : ∀ k, (contents (merged held L') k).map shape = (view st.1 k).map shape := by
    rw [contents_merged hStored.ids, hView]
    rcases hLog with rfl | rfl
    · have hLive : (fun k => (view st.1 k).map shape) = live st.1 := funext hSession.rep.view_shape
      intro k
      rw [← congrFun (Overlay.apply_map shape (view st.1) (L'.map written)) k, hLive,
        hSettled.apply_eq_self, ← hLive]
    · exact fun _ => rfl
  have hCarries : Carries slots' (contents (merged held L')) (view st.1) := by
    rcases hSlots with rfl | rfl
    · exact hSession.rep.carries _
    · intro k record hk
      rw [← hView] at hk
      obtain ⟨hMem, rfl⟩ := (contents_eq_some_iff hStored.ids).mp hk
      exact Or.inl ((reconciled_fresh hStored.ids).new record hMem fun t ht => nomatch ht)
  -- it has the ids of the blob, which was counted when it was written
  have hCount : (merged held L').length < 2 ^ 64 := by
    have hSame : (merged held L').length = (held.map (idOf : R → Id)).length := by
      refine length_eq_of_ids (distinctIds_merged hStored.ids L') hStored.ids fun k => ?_
      rw [← not_iff_not, not_not, ← contents_eq_none_iff, hView,
        ← Option.map_eq_none_iff (f := shape), ← hShape, Option.map_eq_none_iff]
    obtain ⟨body, hBody, -⟩ := hStored.blob
    rw [hSame, List.length_map]
    exact Codec.length_lt_of_encode (by rw [hBody]; rfl)
  obtain ⟨hTotal, hSame⟩ := reopen_of_wp
    (wp_openPortable_answers hStored hFile hCount hShape hCarries)
  refine ⟨hTotal, fun plan st' hReopen => ?_⟩
  obtain ⟨hBefore, slots'', hOpened⟩ := hSame plan st' hReopen
  exact sameAnswers_of_view hSession.rep hOpened.session.rep hBefore

theorem Reachable.run {st st' : GenericMmapStore R Id IV SV × Disk} (h : Reachable path st)
    {calls : List (Op R Id SV × List Outcome)} (hRun : run st calls = some st') :
    Reachable path st' := by
  induction calls generalizing st with
  | nil =>
    cases hRun
    exact h
  | cons call calls ih =>
    obtain ⟨st₁, hAfter, hRest⟩ := Option.bind_eq_some_iff.mp hRun
    exact ih (.called h hAfter) hRest

theorem compact_cut_same_answers_sample :
    ∃ st d', Reachable samplePath st ∧ CutCompact st d' ∧
      (∃ st' : GenericMmapStore Order Uuid OrderStatus Int64 × Disk,
        reopen samplePath [] d' = some st') ∧
      ∀ plan (st' : GenericMmapStore Order Uuid OrderStatus Int64 × Disk),
        reopen samplePath plan d' = some st' → SameAnswers st.1 st'.1 := by
  have hBlob : (sampleStore.bind fun r => (run (r.1, r.2.disk) sampleCalls).bind fun st =>
      (Method.value (compactBlob ⟨st.1, st.2, []⟩)).map fun found => found.2) = some (3, 1) := by
        decide +kernel
  obtain ⟨⟨s₀, p⟩, hStore, hBlob⟩ := Option.bind_eq_some_iff.mp hBlob
  obtain ⟨st, hRun, hValue⟩ := Option.bind_eq_some_iff.mp hBlob
  obtain ⟨⟨records, slotsBefore, folded⟩, hFound, -⟩ := Option.map_eq_some_iff.mp hValue
  obtain ⟨q, hCompact⟩ := Method.exists_of_value hFound
  have hReachable :=
    (Reachable.created sample_distinctIds (Method.finished_eq_some.mp hStore)).run hRun
  -- the process ends while the new slot file is being written
  have hCut : CutCompact st
      (Method.final (compactRest records ⟨q.self, q.disk, [.done, .crashed 7]⟩)).disk :=
    ⟨[], records, slotsBefore, folded, q, [.done, .crashed 7], hCompact, rfl⟩
  exact ⟨st, _, hReachable, hCut, compact_cut_same_answers hReachable hCut⟩

end GenericMmapStore

end MultimodalDb
