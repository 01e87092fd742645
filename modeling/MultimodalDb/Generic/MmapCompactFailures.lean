import MultimodalDb.Generic.MmapCrash
import MultimodalDb.Generic.MmapPartialTail
import MultimodalDb.Generic.MmapScan

/-!
# Compactions that fail

A compaction writes the blob and stages the new slot file, lets go of the old mapping, moves the new
file into place and maps it, and removes the log. Its positions follow last. What a failure leaves
of the store in memory depends on the step: in front of the release nothing has changed; behind it,
and until the new file is mapped, a page without slots stands in for the file; and when the log
cannot be removed the store has the new file under the old positions.

* `failed_compact`: the store stays usable exactly when the step that fails lies in front of the
  release, or is the removal of the log and no slot was to be reclaimed.
-/

namespace MultimodalDb

open StoredRecord hiding id
open StoredRecord renaming id → idOf
open SlotFile (LastCommitted image COMMITTED Shows Behind slotWidth)

/-- A call whose log entry, if it has one, can be written. -/
def Op.Writable {R Id IV SV : Type} [StoredRecord R Id IV SV] [Serde R] [Serde Id] :
  Op R Id SV → Prop
  | .insert record | .replace record => GenericMmapStore.Loggable record
  | .update _ _ => True
  | .delete key => ∃ payload, Codec.encode key = some payload ∧ payload.length < 2 ^ 32
  | .compact => False

/-- There is nothing to read at a position behind the last slot. -/
theorem SlotFile.readValue_outside {Id V : Type} [MmapFieldValue Id] [MmapFieldValue V]
    {slots : List (Slot Id V)} {p : Nat} (hOut : slots.length ≤ p) (file : Option Path)
    (at_ : Path) :
    SlotFile.readValue (⟨⟨image slots [], file⟩, at_⟩ : SlotFile Id V) p = .error .outOfBounds := by
  have hWidth : 0 < SlotFile.idWidth Id := MmapFieldValue.byteWidth_pos
  have hBehind := Nat.mul_le_mul_right (slotWidth Id V) hOut
  have hNone : ¬ SlotFile.slotOffset Id V p + SlotFile.idWidth Id + SlotFile.valueWidth V ≤
      (image slots []).length := by
    rw [SlotFile.length_image, SlotFile.slotOffset, List.length_nil]
    omega
  unfold SlotFile.readValue
  rw [Bytes.window, if_neg hNone]

namespace GenericMmapStore

variable {R Id IV SV : Type} [StoredRecord R Id IV SV] [DecidableEq Id]
variable [MmapFieldValue Id] [MmapFieldValue SV] [DecidableEq IV] [Serde R] [Serde Id]

/-! ## The parts of a compaction -/

/-- A compaction up to the point where the old mapping is released. -/
def compactFront : Method (GenericMmapStore R Id IV SV) DurabilityError
    ((List R × Nat × Nat) × (SlotFile Id SV × Mapping)) := do
  let done ← compactBlob
  let staged ← onFile (SlotFile.stage (slotPairs done.1))
  return (done, staged)

/-- A compaction up to the removal of the log. -/
def compactSwap : Method (GenericMmapStore R Id IV SV) DurabilityError (List R × Nat × Nat) := do
  let front ← compactFront
  onFile (SlotFile.install front.2.1 front.2.2)
  return front.1

/-- The end of a compaction. -/
def compactEnd (done : List R × Nat × Nat) :
    Method (GenericMmapStore R Id IV SV) DurabilityError CompactionReport := do
  compactLog done.1
  if done.1.length ≤ done.2.1 then
    return ⟨done.1.length, done.2.1 - done.1.length, done.2.2, 0⟩
  else
    Method.panic

omit [DecidableEq IV] in
theorem compact_eq :
    (compact : Method (GenericMmapStore R Id IV SV) DurabilityError CompactionReport) =
    compactSwap >>= compactEnd := by
  have hSlots (records : List R) :
      (compactSlots records : Method (GenericMmapStore R Id IV SV) DurabilityError Unit) =
        onFile (SlotFile.stage (slotPairs records)) >>= fun staged =>
          onFile (SlotFile.install staged.1 staged.2) := by
    rw [compactSlots, SlotFile.rewrite_eq]
    exact Method.onPart_bind (fun f (s : GenericMmapStore R Id IV SV) =>
      (rfl : (setFile f s).file = f)) (fun _ _ _ => rfl) _ _
  simp only [compact, compactSwap, compactFront, compactEnd, compactRest, hSlots,
    bind_assoc, pure_bind]

/-- The step that fails lies in front of the release of the mapping. -/
def FailsInFront (plan : List Outcome) (st : GenericMmapStore R Id IV SV × Disk) : Prop :=
  ∃ e p, (compactFront : Method (GenericMmapStore R Id IV SV) _ _) ⟨st.1, st.2, plan⟩ = .error e p

/-- Every step but the removal of the log is done. -/
def FailsAtLog (plan : List Outcome) (st : GenericMmapStore R Id IV SV × Disk) : Prop :=
  ∃ done p, (compactSwap : Method (GenericMmapStore R Id IV SV) _ _) ⟨st.1, st.2, plan⟩ = .ok done p

/-! ## What a caller has of a store -/

/-- Every read has the result it had. -/
structure SameReads (s s' : GenericMmapStore R Id IV SV) : Prop where
  get : ∀ k, get s' k = get s k
  ids : allIds s' = allIds s
  filter : ∀ value, filterEq s' value = filterEq s value
  scan : scan s' = scan s

/-- Whatever calls follow, the store answers with the records they make of `m`, and a call that can
be logged is accepted, or refused for a reason of the store's own, when no I/O call fails. -/
structure Serves (m : Id → Option R) (st : GenericMmapStore R Id IV SV × Disk) : Prop where
  answers : ∀ calls st', run st calls = some st' → Answers st'.1 (Op.applyAll m calls)
  accepts : ∀ calls st', run st calls = some st' → ∀ op : Op R Id SV, op.Writable →
    (op.after [] st').isSome

/-- The store reads as it did and serves every later call. -/
def StaysUsable (st st' : GenericMmapStore R Id IV SV × Disk) : Prop :=
  SameReads st.1 st'.1 ∧ Serves (view st.1) st'

variable {path : Path} {L : List (LogEntry R Id)} {slots : List (Slot Id SV)}
variable {s s' : GenericMmapStore R Id IV SV} {d d' : Disk}

omit [Serde R] [Serde Id] in
theorem Rep.spots (h : Rep s path slots) : Spots slots [] s.positionIndex := by
  have hInside : ∀ k p, s.positionIndex.lookup k = some p → p < slots.length := fun k p hp =>
    have ⟨_, hv⟩ := h.last k p hp
    (List.getElem?_eq_some_iff.mp hv.1).1
  have hApart : ∀ k k' p, s.positionIndex.lookup k = some p → s.positionIndex.lookup k' = some p →
      k = k' := by
    intro k k' p hk hk'
    obtain ⟨v, hv⟩ := h.last k p hk
    obtain ⟨v', hv'⟩ := h.last k' p hk'
    exact congrArg Slot.id (Option.some.inj (hv.1.symm.trans hv'.1))
  refine ⟨SlotFile.slotWidth_pos Id SV, hInside, hApart, slots.length, 0, rfl,
    length_le_of_apart hInside hApart, fun _ k p t hp ht => ?_⟩
  obtain ⟨v, hv⟩ := h.last k p hp
  rw [hv.1] at ht
  cases ht
  rfl

theorem Session.held (h : Session path L slots s d) : Held path s d :=
  ⟨⟨h.rep.keys, h.rep.ids⟩, slots, [], h.rep.spots, h.rep.file, [], by rw [h.file, List.append_nil]⟩

/-! ### Calls that are accepted -/

section Accepted

variable {ε ε' : Type} {Q : Unit → GenericMmapStore R Id IV SV → Disk → Prop}
variable {A C : Stop ε → GenericMmapStore R Id IV SV → Disk → Prop}

/-- An entry that can be logged is logged. -/
theorem wp_logged (h : Session path L slots s d) {f : DurabilityError → ε} (entry : LogEntry R Id)
    (hEntry : ∃ payload, InsertLog.payloadOf entry = some payload ∧ payload.length < 2 ^ 32)
    (hOk : ∀ d', Held path s d' → d' path = some (image slots []) → Q () s d')
    (hStop : ∀ e s d, C e s d) :
    Method.wp (Method.mapError f (InsertLog.append (InsertLog.logPath path) (SCHEMA_TAG R) entry)) s
      d Q A C := by
  obtain ⟨payload, hPayload, hShort⟩ := hEntry
  have hMapped : ∀ e s d, Method.onMapped f C e s d := fun e s d =>
    Method.onMapped_of_forall (fun e => hStop e s d) e
  rw [InsertLog.append_of_payload hPayload]
  have hSame : ∀ file, Function.update d (InsertLog.logPath path) file path = d path := fun file =>
    Function.update_of_ne (logPath_ne path).symm ..
  exact Method.wp_mapError (InsertLog.wp_appendEntry h.log.declaredVersion_ne
    (fun _ => hOk _ (h.held.frame (hSame _)) ((hSame _).trans h.file)) (fun hLong =>
      (hLong hShort).elim)
    (fun e => hMapped e _ _) fun e _ => hMapped e _ _)

end Accepted

/-- A call that can be logged is accepted, or refused for a reason of the store's own. -/
theorem wp_accepted (h : Session path L slots s d) {op : Op R Id SV} (hOp : op.Writable) :
    Method.wp op.method s d (fun _ _ _ => True) (fun e _ _ => e = .error none)
      (fun _ _ _ => True) := by
  have hStop : ∀ {ε ε' : Type} {f : ε → ε'} e (s : GenericMmapStore R Id IV SV) d,
      Method.onMapped f (fun _ _ _ => True) e s d := fun e _ _ =>
    Method.onMapped_of_forall (fun _ => trivial) e
  cases op with
  | insert record =>
    refine Method.wp_mapError (Method.wp_bind (Method.wp_bind (Method.wp_self ?_)))
    split
    · exact Method.wp_fail rfl
    · rw [h.rep.file]
      refine wp_logged h (.item record) hOp (fun d₁ h₁ hFile => ?_) hStop
      refine Method.wp_bind (Method.wp_mapError (Method.wp_onPart (SlotFile.wp_appendCommittedSlots
        (by rw [h.rep.file]) hFile (SlotFile.slotWidth_pos Id SV) (fun bytes _ =>
          Method.wp_modifySelf trivial)
        fun e _ _ => Method.onMapped_of_forall (fun e => hStop e _ _) e)))
  | replace record =>
    refine Method.wp_mapError (Method.wp_bind (Method.wp_self ?_))
    split
    · next old p hOld hPosition =>
      obtain ⟨v, hv⟩ := h.rep.last _ p hPosition
      rw [h.rep.file]
      refine Method.wp_bind (wp_logged h (.item record) hOp (fun d₁ h₁ hFile => ?_) hStop)
      exact Method.wp_bind (Method.wp_onPart (SlotFile.wp_writeValue ⟨h.rep.file, hFile⟩ hv.1
        (fun f' d' _ _ => Method.wp_modifySelf trivial) fun _ _ => hStop _ _ _))
    · exact Method.wp_fail rfl
  | update key value =>
    refine Method.wp_mapError (Method.wp_bind (Method.wp_self ?_))
    split
    · next p hPosition =>
      obtain ⟨v, hv⟩ := h.rep.last _ p hPosition
      exact Method.wp_onPart (SlotFile.wp_writeValue ⟨h.rep.file, h.file⟩ hv.1
        (fun _ _ _ _ => trivial) fun _ _ => hStop _ _ _)
    · exact Method.wp_fail rfl
  | delete key =>
    refine Method.wp_mapError (Method.wp_bind (Method.wp_bind (Method.wp_self ?_)))
    split
    · next record p hRecord hPosition =>
      obtain ⟨v, hv⟩ := h.rep.last _ p hPosition
      rw [h.rep.file]
      refine Method.wp_bind (wp_logged h (.tombstone key) hOp (fun d₁ h₁ hFile => ?_) hStop)
      exact Method.wp_pure (Method.wp_bind
        (Method.wp_onPart (SlotFile.wp_clearMarker ⟨h.rep.file, hFile⟩
        hv.1 (fun f' d' _ _ => Method.wp_modifySelf trivial) fun _ _ => hStop _ _ _)))
    · exact Method.wp_fail rfl
  | compact => exact hOp.elim

/-- Between two calls a store serves what it holds. -/
theorem Session.serves (h : Session path L slots s d) : Serves (view s) (s, d) := by
  have hRuns : ∀ calls st', run (s, d) calls = some st' →
      ∃ L' slots', Session path L' slots' st'.1 st'.2 ∧
      view st'.1 = Op.applyAll (view s) ([] ++ calls) := by
    intro calls st' hRun
    exact run_induction (P := fun done _ _ s' _ => view s' = Op.applyAll (view s) done)
      (fun done op plan L slots s' d' L' slots' s'' d'' hView hAdvance => by
        rw [hAdvance.view, hView, Op.applyAll_snoc]) [] h rfl hRun
  refine ⟨fun calls st' hRun => ?_, fun calls st' hRun op hOp => ?_⟩
  · obtain ⟨L', slots', h', hView⟩ := hRuns calls st' hRun
    rw [List.nil_append] at hView
    rw [← hView]
    exact h'.rep.answers
  · obtain ⟨L', slots', h', -⟩ := hRuns calls st' hRun
    have hAccepted := wp_accepted h' hOp
    unfold Op.after
    cases hMethod : op.method ⟨st'.1, st'.2, []⟩ with
    | ok a p => rfl
    | error e p =>
      rw [hAccepted.of_error_nil hMethod]
      rfl

/-! ## In front of the release -/

theorem Session.of_agree (h : Session path L slots s d) {paths : List Path}
    (hAgree : Disk.AgreeOff paths d d') (hPath : path ∉ paths)
    (hLog : InsertLog.logPath path ∉ paths) :
    Session path L slots s d' :=
  ⟨h.rep, (hAgree _ hPath).trans h.file, by rw [hAgree _ hLog]; exact h.log⟩

/-- What the steps in front of the release end with. -/
structure Staged (path : Path) (L : List (LogEntry R Id)) (slots : List (Slot Id SV))
    (s : GenericMmapStore R Id IV SV) (records : List R) (d' : Disk) : Prop where
  ordered : orderedRecords s = .ok records
  ids : DistinctIds records
  view : contents records = view s
  session : Session path L slots s d'
  staged : d' (path ++ SlotFile.COMPACT_SUFFIX) = some (image (freshSlots records) [])

theorem wp_compactFront (h : Session path L slots s d) :
    Method.wp (compactFront : Method (GenericMmapStore R Id IV SV) _ _) s d
      (fun front s' d' => s' = s ∧ front.2 = (s.file, ⟨[0], none⟩) ∧
        Staged path L slots s front.1.1 d')
      (fun _ s' d' => s' = s ∧ Session path L slots s d')
        (fun _ s' d' => s' = s ∧ Session path L slots s d') := by
  have hPathOff : path ∉ [path ++ SlotFile.COMPACT_SUFFIX] := by
    simpa using (append_suffix_ne (by decide) path).symm
  have hLogOff : InsertLog.logPath path ∉ [path ++ SlotFile.COMPACT_SUFFIX] := by
    have hStage : InsertLog.logPath path ≠ path ++ SlotFile.COMPACT_SUFFIX :=
      append_suffix_ne_append (by decide) path
    simpa using hStage
  refine Method.wp_bind (wp_compactBlob h
    (fun records d₁ hRecords hIds hView hLen h₁ hBlob => ?_) ⟨rfl, h⟩ fun _ d' h' => ⟨rfl, h'⟩)
  refine Method.wp_bind (Method.wp_onPart
    (SlotFile.wp_stage (by rw [h.rep.file]) (fun d₂ hStaged hAgree => ?_)
    fun e d' hAgree => ⟨rfl, h₁.of_agree hAgree hPathOff hLogOff⟩))
  exact Method.wp_pure ⟨rfl, rfl, hRecords, hIds, hView,
    h₁.of_agree hAgree hPathOff hLogOff, hStaged⟩

/-! ## Behind the release -/

/-- What the store in memory has when the new file is mapped. -/
structure Swapped (path : Path) (L : List (LogEntry R Id)) (s : GenericMmapStore R Id IV SV)
    (records : List R) (s' : GenericMmapStore R Id IV SV) (d' : Disk) : Prop where
  self : s' = setFile ⟨⟨image (freshSlots records) [], some path⟩, path⟩ s
  file : d' path = some (image (freshSlots records) [])
  log : InsertLog.Holds (SCHEMA_TAG R) L (d' (InsertLog.logPath path))

theorem wp_install_staged {records : List R} (h : Staged path L slots s records d) :
    Method.wp
      (onFile (SlotFile.install s.file ⟨[0], none⟩) : Method (GenericMmapStore R Id IV SV) _ _) s d
      (fun _ s' d' => Swapped path L s records s' d') (fun _ s' _ => s'.file.mmap = ⟨[0], none⟩)
      (fun _ s' _ => s'.file.mmap = ⟨[0], none⟩) := by
  have hLogOff : InsertLog.logPath path ∉ [path, path ++ SlotFile.COMPACT_SUFFIX] := by
    have hStage : InsertLog.logPath path ≠ path ++ SlotFile.COMPACT_SUFFIX :=
      append_suffix_ne_append (by decide) path
    simpa using ⟨logPath_ne path, hStage⟩
  refine Method.wp_onPart (SlotFile.wp_install (by rw [h.session.rep.file]) h.staged
    (fun f' d' hShows hAgree => ⟨by rw [hShows.1]; rfl, hShows.2, ?_⟩) fun _ _ _ _ => rfl)
  rw [hAgree _ hLogOff]
  exact h.session.log

omit [MmapFieldValue Id] [MmapFieldValue SV] [DecidableEq IV] [Serde R] [Serde Id] in
/-- The last steps fail with the store as it is, when they fail. -/
theorem wp_compactEnd (done : List R × Nat × Nat) :
    Method.wp (compactEnd done : Method (GenericMmapStore R Id IV SV) _ _) s d (fun _ _ _ => True)
      (fun e _ _ => e = .panic) (fun _ s' d' => s' = s ∧ d' = d) := by
  refine Method.wp_bind (Method.wp_bind (Method.wp_self (Method.wp_bind (InsertLog.wp_clear
    (Method.wp_modifySelf ?_) fun _ => ⟨rfl, rfl⟩))))
  split
  · exact Method.wp_pure trivial
  · exact Method.wp_panic rfl

/-! ### Positions and the new file -/

section Dense

variable {records : List R}

/-- The positions are those of a file without gaps. -/
def Dense (s : GenericMmapStore R Id IV SV) : Prop :=
  livePositions s = List.range s.positionIndex.entries.length

omit [DecidableEq IV] [Serde R] [Serde Id] in
/-- Without gaps the positions of the new file are the old ones. -/
theorem lookup_of_dense (hPaired : Paired s.records s.positionIndex)
    (hRecords : orderedRecords s = .ok records)
    (hIds : DistinctIds records) (hDense : Dense s) (k : Id) :
    s.positionIndex.lookup k = (placesFrom 0 records).lookup k := by
  obtain ⟨pairs, hPairs⟩ : ∃ pairs, pairs = (s.positionIndex.entries.map
      (fun e : (_ : Id) × Nat => (e.2, e.1))).insertionSort (fun a b => a.1 ≤ b.1) := ⟨_, rfl⟩
  have hPerm : pairs.Perm (s.positionIndex.entries.map (fun e => (e.2, e.1))) := by
    rw [hPairs]
    exact List.perm_insertionSort _ _
  have hSnd : records.map (idOf : R → Id) = pairs.map Prod.snd := by
    rw [hPairs]
    exact orderedRecords_ids hPaired hRecords
  have hFst : pairs.map Prod.fst = List.range s.positionIndex.entries.length := by
    rw [← hDense]
    refine List.Perm.eq_of_pairwise' (r := (· ≤ ·)) ?_ (List.pairwise_insertionSort (· ≤ ·) _) ?_
    · rw [hPairs, List.pairwise_map]
      exact List.pairwise_insertionSort (fun a b : Nat × Id => a.1 ≤ b.1) _
    · refine (hPerm.map Prod.fst).trans ?_
      rw [List.map_map]
      exact (livePositions_perm s).symm
  have hAt : ∀ {i p : Nat} {j : Id}, pairs[i]? = some (p, j) → p = i := by
    intro i p j hi
    have hRange := congrArg (·[i]?) hFst
    simp only [List.getElem?_map, hi, Option.map_some] at hRange
    exact (List.getElem?_eq_some_iff.mp hRange.symm).2.symm.trans (List.getElem_range _)
  ext p
  rw [← Option.mem_def, AList.mem_lookup_iff, places_placesFrom hIds k p, ← List.getElem?_map, hSnd,
    List.getElem?_map, Option.map_eq_some_iff]
  constructor
  · intro hEntry
    obtain ⟨i, hi⟩ := List.mem_iff_getElem?.mp
      (hPerm.mem_iff.mpr (List.mem_map.mpr ⟨⟨k, p⟩, hEntry, rfl⟩))
    obtain rfl := hAt hi
    exact ⟨_, hi, rfl⟩
  · rintro ⟨⟨q, j⟩, hi, rfl⟩
    obtain rfl := hAt hi
    obtain ⟨e, he, hEq⟩ := List.mem_map.mp (hPerm.mem_iff.mp (List.mem_of_getElem? hi))
    cases hEq
    exact he

omit [StoredRecord R Id IV SV] [DecidableEq IV] [Serde R] [Serde Id] in
/-- Positions that all lie in the new file leave no gaps. -/
theorem dense_of_inside (hSpots : Spots slots [] s.positionIndex)
    (hInside : ∀ k p, s.positionIndex.lookup k = some p → p < s.positionIndex.entries.length) :
    Dense s := by
  have hPerm : (s.positionIndex.entries.map (·.2)).Perm
      (List.range s.positionIndex.entries.length) := by
    refine (List.subperm_of_subset (nodup_of_apart hSpots.apart) fun p hp =>
      mem_range_of_inside hInside hp).perm_of_length_le ?_
    rw [List.length_range, List.length_map]
  exact ((livePositions_perm s).trans hPerm).eq_of_pairwise' (List.pairwise_insertionSort (· ≤ ·) _)
    List.pairwise_le_range

omit [DecidableEq IV] [Serde R] [Serde Id] in
theorem length_orderedRecords (h : Paired s.records s.positionIndex)
    (hRecords : orderedRecords s = .ok records) :
    records.length = s.positionIndex.entries.length := by
  have hLen := congrArg List.length (orderedRecords_ids h hRecords)
  rwa [List.length_map, List.length_map, List.length_insertionSort, List.length_map] at hLen

/-- **The log is left.** The store over the new file reads as it did exactly when there were no
gaps, and then it serves every call. -/
theorem Swapped.staysUsable_iff {d₁ : Disk} (hSwapped : Swapped path L s records s' d')
    (h : Session path L slots s d) (hStaged : Staged path L slots s records d₁) :
    StaysUsable (s, d) (s', d') ↔ Dense s := by
  have hHeld := h.held
  have hSpots := h.rep.spots
  have hLen := length_orderedRecords hHeld.1 hStaged.ordered
  have hFresh : (freshSlots records : List (Slot Id SV)).length = records.length := by
    rw [freshSlots, List.length_map, slotPairs, List.length_map]
  constructor
  · rintro ⟨hReads, -⟩
    refine dense_of_inside hSpots fun k p hp => ?_
    by_contra hOut
    -- the position lies behind the new file
    have hMem : k ∈ s.records := (h.rep.keys k).mpr (AList.lookup_isSome.mp (by rw [hp]; rfl))
    obtain ⟨record, hRecord⟩ := Option.isSome_iff_exists.mp (AList.lookup_isSome.mpr hMem)
    have hGet := hReads.get k
    rw [h.rep.get_eq, hSwapped.self] at hGet
    unfold get setFile at hGet
    have hRead := SlotFile.readValue_outside (hFresh.trans hLen ▸ not_lt.mp hOut) (some path) path
    rw [hRecord, hp] at hGet
    simp only [hRead] at hGet
    cases hGet
  · intro hDense
    have hPositions : ∀ k, s'.positionIndex.lookup k = (placesFrom 0 records).lookup k :=
      fun k => by
      rw [hSwapped.self]
      exact lookup_of_dense hHeld.1 hStaged.ordered hStaged.ids hDense k
    obtain ⟨hRep, hView⟩ := rep_compacted h.rep hStaged.ids hStaged.view
      (by rw [hSwapped.self]; rfl)
      (by rw [hSwapped.self]; rfl) (by rw [hSwapped.self]; rfl) hPositions
    have hSession : Session path L (freshSlots records) s' d' := ⟨hRep, hSwapped.file, hSwapped.log⟩
    refine ⟨⟨fun k => ?_, by rw [hSwapped.self]; rfl,
      fun value => by rw [hSwapped.self]; rfl, ?_⟩, ?_⟩
    · rw [hRep.get_eq, h.rep.get_eq, hView]
    · rw [scan_eq hRep.spots hRep.file, scan_eq hSpots h.rep.file, readLive hRep.spots hRep.file,
        readLive hSpots h.rep.file, show livePositions s' = livePositions s by
          rw [hSwapped.self]; rfl]
      refine congrArg Except.ok (List.filterMap_congr fun p hp => ?_)
      obtain ⟨e, he, rfl⟩ := List.mem_map.mp ((livePositions_perm s).mem_iff.mp hp)
      obtain ⟨record, v, hAt⟩ := exists_at_of_mem h.rep he
      obtain ⟨record', v', hAt'⟩ := exists_at_of_mem hRep (by rw [hSwapped.self]; exact he)
      have hSame := congrArg (Option.map scannableValue) (congrFun hView e.1)
      rw [h.rep.view_at hAt, hRep.view_at hAt', Option.map_some, Option.map_some,
        scannableValue_shape, scannableValue_shape] at hSame
      rw [valueAt, valueAt, hAt.2.2.1, hAt'.2.2.1, Option.map_some, Option.map_some, hSame]
    · rw [← hView]
      exact hSession.serves

end Dense

/-! ## Every failure -/

/-- The placeholder has no slots to scan. -/
theorem not_staysUsable_placeholder (h : Session path L slots s d)
    (hMapped : s'.file.mmap = ⟨[0], none⟩) :
    ¬ StaysUsable (s, d) (s', d') := by
  rintro ⟨hReads, -⟩
  have hScan := hReads.scan
  rw [scan_eq h.rep.spots h.rep.file, readLive h.rep.spots h.rep.file, scan, isGapless,
    SlotFile.isGapless, SlotFile.bodyLen, hMapped] at hScan
  cases hScan

/-- **A failed compaction** leaves the store usable exactly when the step that fails lies in front
of the release of the mapping, or is the removal of the log from a store whose slots have no gaps.
-/
theorem failed_compact {st : GenericMmapStore R Id IV SV × Disk} (h : Reachable path st)
    {plan : List Outcome} {e : DurabilityError} {p : Proc (GenericMmapStore R Id IV SV)}
    (hRun : compact ⟨st.1, st.2, plan⟩ = .error (.error e) p) :
    StaysUsable st (p.self, p.disk) ↔ FailsInFront plan st ∨ FailsAtLog plan st ∧ Dense st.1 := by
  obtain ⟨L, slots, held, hSession, -⟩ := h.sound
  obtain ⟨s, d⟩ := st
  rw [compact_eq] at hRun
  unfold FailsInFront FailsAtLog
  cases hFront : (compactFront : Method (GenericMmapStore R Id IV SV) _ _) ⟨s, d, plan⟩ with
  | error e' q =>
    have hSwap : (compactSwap : Method (GenericMmapStore R Id IV SV) _ _) ⟨s, d, plan⟩ =
        .error e' q := by
      show EStateM.bind compactFront _ _ = _
      rw [EStateM.bind, hFront]
    have hEnd : EStateM.bind compactSwap compactEnd ⟨s, d, plan⟩ = .error (.error e) p := hRun
    rw [EStateM.bind, hSwap] at hEnd
    cases hEnd
    obtain ⟨hSelf, hKept⟩ := ((wp_compactFront hSession).of_error hFront).elim id id
    refine iff_of_true ?_ (Or.inl ⟨_, _, rfl⟩)
    rw [hSelf]
    exact ⟨⟨fun _ => rfl, rfl, fun _ => rfl, rfl⟩, hKept.serves⟩
  | ok front q =>
    obtain ⟨s₁, d₁, plan₁⟩ := q
    obtain ⟨done, f, placeholder⟩ := front
    obtain ⟨rfl, hHandles, hStaged⟩ := (wp_compactFront hSession).of_ok hFront
    cases hHandles
    have hInstall := wp_install_staged hStaged
    have hSwap : (compactSwap : Method (GenericMmapStore R Id IV SV) _ _) ⟨s₁, d, plan⟩ =
        EStateM.bind (onFile (SlotFile.install s₁.file ⟨[0], none⟩)) (fun _ => pure done)
          ⟨s₁, d₁, plan₁⟩ := by
      show EStateM.bind compactFront _ _ = _
      rw [EStateM.bind, hFront]
      rfl
    have hEnd : EStateM.bind compactSwap compactEnd ⟨s₁, d, plan⟩ = .error (.error e) p := hRun
    rw [EStateM.bind, hSwap, EStateM.bind] at hEnd
    rw [hSwap, EStateM.bind]
    cases hMoved : (onFile (SlotFile.install s₁.file ⟨[0], none⟩) : Method
        (GenericMmapStore R Id IV SV) _ _) ⟨s₁, d₁, plan₁⟩ with
    | error e' q =>
      rw [hMoved] at hEnd
      cases hEnd
      refine iff_of_false
        (not_staysUsable_placeholder hSession ((hInstall.of_error hMoved).elim id id)) ?_
      rintro (⟨_, _, hNot⟩ | ⟨⟨_, _, hNot⟩, -⟩)
      · cases hNot
      · cases hNot
    | ok a q =>
      rw [hMoved] at hEnd
      have hSwapped := hInstall.of_ok hMoved
      have hStop := ((wp_compactEnd done).of_error hEnd).resolve_left fun hPanic => nomatch hPanic
      obtain ⟨hSelf, hDisk⟩ := hStop
      rw [hSelf, hDisk, hSwapped.staysUsable_iff hSession hStaged]
      constructor
      · exact fun hDense => Or.inr ⟨⟨_, _, rfl⟩, hDense⟩
      · rintro (⟨_, _, hNot⟩ | ⟨-, hDense⟩)
        · cases hNot
        · exact hDense

/-- A plan under which the `n` first calls do what they say and the next one fails. -/
def failsAfter (n : Nat) : List Outcome := List.replicate n .done ++ [.failed 0]

section Samples

variable {ε α : Type} {m : Method (GenericMmapStore Order Uuid OrderStatus Int64) ε α}
  {plan : List Outcome}

/-- The two orders as they are created, and a call on them that fails. -/
def sampleFailure (m : Method (GenericMmapStore Order Uuid OrderStatus Int64) ε α)
    (plan : List Outcome) :
    Option (GenericMmapStore Order Uuid OrderStatus Int64 × Proc Unit × ε ×
      Proc (GenericMmapStore Order Uuid OrderStatus Int64)) :=
  sampleStore.bind fun r =>
    match m ⟨r.1, r.2.disk, plan⟩ with
    | .error (.error e) q => some (r.1, r.2, e, q)
    | _ => none

theorem sampleFailure_eq {s : GenericMmapStore Order Uuid OrderStatus Int64} {p : Proc Unit} {e : ε}
    {q : Proc (GenericMmapStore Order Uuid OrderStatus Int64)}
    (h : sampleFailure m plan = some (s, p, e, q)) :
    create sampleRecords samplePath ⟨(), fun _ => none, []⟩ = .ok s p ∧
      m ⟨s, p.disk, plan⟩ = .error (.error e) q := by
  obtain ⟨r, hStore, hFails⟩ := Option.bind_eq_some_iff.mp h
  split at hFails
  · next hRun =>
    cases hFails
    exact ⟨Method.finished_eq_some.mp hStore, hRun⟩
  · cases hFails

end Samples

/-- The two orders stay usable when the new slot file cannot be staged, and when all is done but the
removal of the log. -/
theorem failed_compact_sample :
    ∃ (s : GenericMmapStore Order Uuid OrderStatus Int64) (p : Proc Unit),
      create sampleRecords samplePath ⟨(), fun _ => none, []⟩ = .ok s p ∧
        ∀ plan ∈ [failsAfter 17, failsAfter 22], ∃ e q, compact ⟨s, p.disk, plan⟩ =
          .error (.error e) q ∧ StaysUsable (s, p.disk) (q.self, q.disk) := by
  have hChecks : sampleStore.any (fun r =>
      (sampleFailure compact (failsAfter 17)).isSome &&
        (sampleFailure compact (failsAfter 22)).isSome &&
        (Method.finished (compactFront ⟨r.1, r.2.disk, failsAfter 17⟩)).isNone &&
        (Method.finished (compactSwap ⟨r.1, r.2.disk, failsAfter 22⟩)).isSome &&
        livePositions r.1 == List.range r.1.positionIndex.entries.length) = true := by
          decide +kernel
  obtain ⟨⟨s, p⟩, hStore, hChecks⟩ := (Option.any_eq_true _ _).mp hChecks
  simp only [Bool.and_eq_true, beq_iff_eq] at hChecks
  obtain ⟨⟨⟨⟨hStage, hLog⟩, hFront⟩, hSwap⟩, hDense⟩ := hChecks
  have hCreate := Method.finished_eq_some.mp hStore
  have hReached : Reachable samplePath (s, p.disk) := .created sample_distinctIds hCreate
  have hFails : ∀ plan, (sampleFailure compact plan).isSome →
      ∃ e q, compact ⟨s, p.disk, plan⟩ = .error (.error e) q := by
    intro plan hSome
    obtain ⟨⟨s', p', e, q⟩, hFails⟩ := Option.isSome_iff_exists.mp hSome
    obtain ⟨hAgain, hRun⟩ := sampleFailure_eq hFails
    rw [hCreate] at hAgain
    cases hAgain
    exact ⟨e, q, hRun⟩
  refine ⟨s, p, hCreate, List.forall_mem_cons.mpr ⟨?_, List.forall_mem_singleton.mpr ?_⟩⟩
  · obtain ⟨e, q, hRun⟩ := hFails _ hStage
    refine ⟨e, q, hRun, (failed_compact hReached hRun).mpr (Or.inl ?_)⟩
    unfold FailsInFront
    cases hEnd : (compactFront : Method (GenericMmapStore Order Uuid OrderStatus Int64) _ _)
        ⟨s, p.disk, failsAfter 17⟩ with
    | error e' q' => exact ⟨e', q', rfl⟩
    | ok done q' =>
      rw [Method.finished_eq_some.mpr hEnd] at hFront
      cases hFront
  · obtain ⟨e, q, hRun⟩ := hFails _ hLog
    obtain ⟨⟨done, q'⟩, hSwapped⟩ := Option.isSome_iff_exists.mp hSwap
    exact ⟨e, q, hRun, (failed_compact hReached hRun).mpr
      (Or.inr ⟨⟨done, q', Method.finished_eq_some.mp hSwapped⟩, hDense⟩)⟩

/-- When the new slot file cannot be moved into place, a scan of the store in memory panics. -/
theorem failed_rename_breaks_the_scan :
    ¬ ∀ (path : Path) (st : GenericMmapStore Order Uuid OrderStatus Int64 × Disk) (plan :
      List Outcome)
      (e : DurabilityError) (p : Proc (GenericMmapStore Order Uuid OrderStatus Int64)),
      Reachable path st →
      compact ⟨st.1, st.2, plan⟩ = .error (.error e) p → StaysUsable st (p.self, p.disk) := by
  intro hClaim
  have hFails : (sampleFailure compact (failsAfter 19)).map
      (fun r => (scan r.1, scan r.2.2.2.self)) =
      some (.ok [10, 20], .error .overflow) := by decide +kernel
  obtain ⟨⟨s, p, e, q⟩, hFails, hScans⟩ := Option.map_eq_some_iff.mp hFails
  obtain ⟨hCreate, hRun⟩ := sampleFailure_eq hFails
  rw [Prod.mk.injEq] at hScans
  have hScan :=
    (hClaim samplePath (s, p.disk) _ e q (.created sample_distinctIds hCreate) hRun).1.scan
  rw [hScans.1, hScans.2] at hScan
  cases hScan

end GenericMmapStore

end MultimodalDb
