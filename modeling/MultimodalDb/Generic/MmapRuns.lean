import MultimodalDb.Generic.MmapRecovery
import MultimodalDb.Generic.OrderCustomer

/-!
# Runs of a store

A caller makes calls on a store, each under its own plan of I/O outcomes, and goes on as long as
they return: accepted, or refused for a reason of the store's own. What a call that returned did is
one of four things (`Advance`), and every invariant of a run is read off them.

* `reopen_same_answers`: whatever calls followed its creation, a store reopened from its files alone
  gives the answers of the store in memory.
* `rep_invariant`: the representation invariant over runs, with the slots that an `open` found in
  the file and did not adopt as its one exception.
-/

namespace MultimodalDb

open StoredRecord hiding id
open StoredRecord renaming id → idOf
open SlotFile (LastCommitted Unclaimed image COMMITTED)

/-- A call on a generic store. -/
inductive Op (R Id SV : Type) where
  | insert (record : R)
  | replace (record : R)
  | update (key : Id) (value : SV)
  | delete (key : Id)
  | compact

namespace Op

variable {R Id IV SV : Type} [StoredRecord R Id IV SV] [DecidableEq Id]

/-- What a call means for the records: a refused one changes nothing. -/
def apply (m : Id → Option R) : Op R Id SV → Id → Option R
  | .insert record =>
    if (m (idOf record)).isNone then Function.update m (idOf record) (some record) else m
  | .replace record =>
    if (m (idOf record)).isSome then Function.update m (idOf record) (some record) else m
  | .update key value => Function.update m key ((m key).map (setScannableValue value))
  | .delete key => Function.update m key none
  | .compact => m

/-- What the calls mean for the records. -/
def applyAll (m : Id → Option R) (calls : List (Op R Id SV × List Outcome)) : Id → Option R :=
  calls.foldl (fun m call => call.1.apply m) m

theorem applyAll_snoc (m : Id → Option R) (calls : List (Op R Id SV × List Outcome))
    (call : Op R Id SV × List Outcome) :
    applyAll m (calls ++ [call]) = call.1.apply (applyAll m calls) :=
  List.foldl_concat ..

variable [MmapFieldValue Id] [MmapFieldValue SV] [DecidableEq IV] [Serde R] [Serde Id]

/-- The call itself. Its error is the durability error, or `none` when the store refused the call.
-/
def method : Op R Id SV → Method (GenericMmapStore R Id IV SV) (Option DurabilityError) Unit
  | .insert record =>
    Method.mapError (fun | .duplicate _ => none | .durability e => some e)
      (GenericMmapStore.insert record)
  | .replace record =>
    Method.mapError (fun | .notFound _ => none | .durability e => some e)
      (GenericMmapStore.replace record)
  | .update key value => Method.mapError (fun _ => none) (GenericMmapStore.update key value)
  | .delete key =>
    Method.mapError (fun | .notFound _ => none | .durability e => some e)
      (GenericMmapStore.delete key)
  | .compact => Method.mapError some do
      let _ ← GenericMmapStore.compact
      return ()

/-- The store and the files after a call that returned without a durability error. -/
def after (op : Op R Id SV) (plan : List Outcome) (st : GenericMmapStore R Id IV SV × Disk) :
    Option (GenericMmapStore R Id IV SV × Disk) :=
  match op.method ⟨st.1, st.2, plan⟩ with
  | .ok _ p => some (p.self, p.disk)
  | .error (.error none) p => some (p.self, p.disk)
  | .error _ _ => none

end Op

namespace GenericMmapStore

variable {R Id IV SV : Type} [StoredRecord R Id IV SV] [DecidableEq Id]
variable [MmapFieldValue Id] [MmapFieldValue SV] [DecidableEq IV] [Serde R] [Serde Id]

/-- A sequence of calls, each with its plan, that all return without a durability error. -/
def run (st : GenericMmapStore R Id IV SV × Disk) :
    List (Op R Id SV × List Outcome) → Option (GenericMmapStore R Id IV SV × Disk)
  | [] => some st
  | (op, plan) :: calls => (op.after plan st).bind (run · calls)

/-! ## What a call does -/

/-- What a call that returned did: it was refused, wrote its log entry, changed one scannable value
in place, or compacted the files. -/
inductive Advance (path : Path) (L : List (LogEntry R Id)) (slots : List (Slot Id SV))
    (s : GenericMmapStore R Id IV SV) (d : Disk) : Op R Id SV → List (LogEntry R Id) →
    List (Slot Id SV) → GenericMmapStore R Id IV SV → Disk → Prop where
  | refused {op} (hSession : Session path L slots s d) (hOp : op ≠ .compact)
    (hView : op.apply (view s) = view s) :
    Advance path L slots s d op L slots s d
  | wrote {op} (entry : LogEntry R Id) {slots' s' d'}
    (h : Wrote path entry L slots s d slots' s' d') (hOp : op ≠ .compact)
    (hView : op.apply (view s) = Function.update (view s) (written entry).1 (written entry).2) :
    Advance path L slots s d op (L ++ [entry]) slots' s' d'
  | touched {key value slots' s' d'} (h : Touched path L slots s d key value slots' s' d') :
    Advance path L slots s d (.update key value) L slots' s' d'
  | compacted {records s' d'} (h : Compacted path records s s' d') (hIds : DistinctIds records)
    (hView : contents records = view s) :
    Advance path L slots s d .compact [] (freshSlots records) s' d'

variable {path : Path} {L L' : List (LogEntry R Id)} {slots slots' : List (Slot Id SV)}
variable {s s' : GenericMmapStore R Id IV SV} {d d' : Disk} {op : Op R Id SV}

theorem wp_method (h : Session path L slots s d) (op : Op R Id SV) :
    Method.wp op.method s d
      (fun _ s' d' => ∃ L' slots', Advance path L slots s d op L' slots' s' d')
      (fun e s' d' => s' = s ∧ d' = d ∧
        (e = .error none → op ≠ .compact ∧ op.apply (view s) = view s))
      (fun e _ _ => e ≠ .error none) := by
  have hNone : ∀ {k}, view s k = none ↔ s.records.lookup k = none := h.rep.view_eq_none_iff
  cases op with
  | insert record =>
    refine Method.wp_mapError ((wp_insert h record).mono (fun _ s' d' ⟨hNew, hWrote⟩ => ?_) ?_ ?_)
    · exact ⟨_, _, .wrote (.item record) hWrote nofun (if_pos (by rw [hNone.mpr hNew]; rfl))⟩
    · rintro (e | _ | _) s' d' ⟨rfl, rfl, hRefused⟩
      · refine ⟨rfl, rfl, fun hEq => ⟨nofun, if_neg ?_⟩⟩
        cases e with
        | durability e => cases hEq
        | duplicate k =>
          rw [Option.isNone_iff_eq_none, hNone, AList.lookup_eq_none]
          exact fun hNot => hNot (hRefused k rfl)
      · exact ⟨rfl, rfl, fun hEq => nomatch hEq⟩
      · exact ⟨rfl, rfl, fun hEq => nomatch hEq⟩
    · rintro ((k | e) | _ | _) s' d' hStop hEq
      · exact hStop k rfl
      all_goals cases hEq
  | replace record =>
    refine Method.wp_mapError
      ((wp_replace h record).mono (fun _ s' d' ⟨hOld, slots', hWrote⟩ => ?_) ?_ ?_)
    · refine ⟨_, _, .wrote (.item record) hWrote nofun (if_pos ?_)⟩
      rw [Option.isSome_iff_ne_none, Ne, hNone]
      exact Option.isSome_iff_ne_none.mp hOld
    · rintro (e | _ | _) s' d' ⟨rfl, rfl, hRefused⟩
      · refine ⟨rfl, rfl, fun hEq => ⟨nofun, if_neg ?_⟩⟩
        cases e with
        | durability e => cases hEq
        | notFound k =>
          rw [hNone.mpr (hRefused k rfl)]
          exact Bool.false_ne_true
      · exact ⟨rfl, rfl, fun hEq => nomatch hEq⟩
      · exact ⟨rfl, rfl, fun hEq => nomatch hEq⟩
    · rintro ((k | e) | _ | _) s' d' hStop hEq
      · exact hStop k rfl
      all_goals cases hEq
  | update key value =>
    refine Method.wp_mapError
      ((wp_update h key value).mono (fun _ s' d' ⟨_, slots', hTouched⟩ => ?_) ?_ ?_)
    · exact ⟨_, _, .touched hTouched⟩
    · rintro e s' d' ⟨rfl, rfl, hUnknown⟩
      have hSame : (Op.update key value : Op R Id SV).apply (view s') = view s' := by
        rw [Op.apply, hNone.mpr hUnknown, Option.map_none, ← hNone.mpr hUnknown,
          Function.update_eq_self]
      cases e <;> exact ⟨rfl, rfl, fun _ => ⟨nofun, hSame⟩⟩
    · rintro e s' d' rfl
      exact fun hEq => nomatch hEq
  | delete key =>
    refine Method.wp_mapError ((wp_delete h key).mono (fun _ s' d' ⟨_, slots', hWrote⟩ => ?_) ?_ ?_)
    · exact ⟨_, _, .wrote (.tombstone key) hWrote nofun rfl⟩
    · rintro (e | _ | _) s' d' ⟨rfl, rfl, hRefused⟩
      · refine ⟨rfl, rfl, fun hEq => ⟨nofun, ?_⟩⟩
        cases e with
        | durability e => cases hEq
        | notFound k =>
          rw [Op.apply, ← hNone.mpr (hRefused k rfl), Function.update_eq_self]
      · exact ⟨rfl, rfl, fun hEq => nomatch hEq⟩
      · exact ⟨rfl, rfl, fun hEq => nomatch hEq⟩
    · rintro ((k | e) | _ | _) s' d' hStop hEq
      · exact hStop k rfl
      all_goals cases hEq
  | compact =>
    refine Method.wp_mapError (Method.wp_bind ((wp_compact h).mono
      (fun _ s' d' ⟨records, hDone, hIds, hView, _⟩ => Method.wp_pure ?_) ?_ ?_))
    · exact ⟨_, _, .compacted hDone hIds hView⟩
    · rintro e s' d' ⟨rfl, rfl⟩
      cases e <;> exact ⟨rfl, rfl, fun hEq => nomatch hEq⟩
    · rintro (e | _ | _) s' d' - <;> exact fun hEq => nomatch hEq

/-- **One call.** A call that returned advanced the store. -/
theorem after_advance (h : Session path L slots s d) {plan : List Outcome}
    (hAfter : op.after plan (s, d) = some (s', d')) :
    ∃ L' slots', Advance path L slots s d op L' slots' s' d' := by
  have hMethod := wp_method h op
  unfold Op.after at hAfter
  split at hAfter
  · next hRun =>
    cases hAfter
    exact hMethod.of_ok hRun
  · next p hRun =>
    cases hAfter
    rcases hMethod.of_error hRun with ⟨hSelf, hDisk, hView⟩ | hStop
    · rw [hSelf, hDisk]
      exact ⟨L, slots, .refused h (hView rfl).1 (hView rfl).2⟩
    · exact (hStop rfl).elim
  · cases hAfter

namespace Advance

theorem session (h : Advance path L slots s d op L' slots' s' d') :
    Session path L' slots' s' d' := by
  cases h with
  | refused hSession => exact hSession
  | wrote entry h => exact h.session
  | touched h => exact h.session
  | compacted h => exact h.session

/-- The answers change as the call says. -/
theorem view (h : Advance path L slots s d op L' slots' s' d') :
    view s' = op.apply (GenericMmapStore.view s) := by
  cases h with
  | refused _ _ hView => exact hView.symm
  | wrote entry h _ hView => rw [h.view, hView]
  | touched h => exact h.view
  | compacted h => exact h.view

/-- No call leaves a stray slot that was not there, and a compaction leaves none. -/
theorem strays (h : Advance path L slots s d op L' slots' s' d') {q : Nat}
    (hStray : Stray s' slots' q) : Stray s slots q ∧ op ≠ .compact := by
  cases h with
  | refused _ hOp => exact ⟨hStray, hOp⟩
  | wrote entry h hOp => exact ⟨h.strays q hStray, hOp⟩
  | touched h => exact ⟨h.strays q hStray, fun hEq => nomatch hEq⟩
  | compacted h => exact (h.strays q hStray).elim

end Advance

/-- **A run.** What holds at its start, of no calls, and is carried along by every call that
advances the store, holds at its end, of all of them. -/
theorem run_induction {P : List (Op R Id SV × List Outcome) → List (LogEntry R Id) →
      List (Slot Id SV) → GenericMmapStore R Id IV SV → Disk → Prop}
    (hStep : ∀ done op plan L slots s d L' slots' s' d', P done L slots s d →
      Advance path L slots s d op L' slots' s' d' → P (done ++ [(op, plan)]) L' slots' s' d')
    (done : List (Op R Id SV × List Outcome)) {calls : List (Op R Id SV × List Outcome)}
    (h : Session path L slots s d) (hStart : P done L slots s d)
    (hRun : run (s, d) calls = some (s', d')) :
    ∃ L' slots', Session path L' slots' s' d' ∧ P (done ++ calls) L' slots' s' d' := by
  induction calls generalizing done L slots s d with
  | nil =>
    cases hRun
    exact ⟨L, slots, h, by rwa [List.append_nil]⟩
  | cons call calls ih =>
    obtain ⟨op, plan⟩ := call
    obtain ⟨⟨s₁, d₁⟩, hAfter, hRest⟩ := Option.bind_eq_some_iff.mp hRun
    obtain ⟨L₁, slots₁, hAdvance⟩ := after_advance h hAfter
    obtain ⟨L', slots', hSession, hEnd⟩ := ih (done ++ [(op, plan)]) hAdvance.session
      (hStep done op plan _ _ _ _ _ _ _ _ hStart hAdvance) hRest
    exact ⟨L', slots', hSession, by rwa [List.append_assoc] at hEnd⟩

/-! ## The files behind a store -/

/-- The blob with the log over it is the record map, up to the scannable fields. -/
def Backed (path : Path) (L : List (LogEntry R Id)) (s : GenericMmapStore R Id IV SV) (d : Disk) :
    Prop :=
  ∃ records, Stored path records L d ∧
    live s = fun k => (contents (merged records L) k).map shape

theorem Compacted.backed {records : List R} (h : Compacted path records s s' d')
    (hIds : DistinctIds records)
    (hView : contents records = GenericMmapStore.view s) :
    Backed path ([] : List (LogEntry R Id)) s' d' := by
  refine ⟨records, ⟨hIds, h.blob, h.session.log⟩, ?_⟩
  funext k
  rw [← h.session.rep.view_shape, h.view, ← hView]
  rfl

theorem Advance.backed (h : Advance path L slots s d op L' slots' s' d')
    (hBacked : Backed path L s d) :
    Backed path L' s' d' := by
  obtain ⟨records, hStored, hLive⟩ := hBacked
  cases h with
  | refused => exact ⟨records, hStored, hLive⟩
  | wrote entry h =>
    refine ⟨records, ⟨hStored.ids, hStored.blob.of_same h.blob, h.session.log⟩, ?_⟩
    rw [h.live, hLive, hStored.shapes_snoc]
  | touched h =>
    refine ⟨records, ⟨hStored.ids, hStored.blob.of_same h.blob, h.session.log⟩, ?_⟩
    rw [← hLive]
    funext k
    rw [live, live, h.records]
  | compacted h hIds hView => exact h.backed hIds hView

/-! ## Reopening -/

/-- The store and the files after a portable open that returned. -/
def reopen (path : Path) (plan : List Outcome) (d : Disk) :
    Option (GenericMmapStore R Id IV SV × Disk) :=
  match openPortable path ⟨(), d, plan⟩ with
  | .ok s p => some (s, p.disk)
  | .error _ _ => none

theorem post_of_reopen {Q : GenericMmapStore R Id IV SV → Unit → Disk → Prop}
    {A C : Stop DurabilityError → Unit → Disk → Prop}
    (h : Method.wp (openPortable path) () d Q A C) {plan : List Outcome}
    {st : GenericMmapStore R Id IV SV × Disk} (hReopen : reopen path plan d = some st) :
    Q st.1 () st.2 := by
  unfold reopen at hReopen
  split at hReopen
  · next hRun =>
    cases hReopen
    exact h.of_ok hRun
  · cases hReopen

theorem reopen_of_wp {Q : GenericMmapStore R Id IV SV → Unit → Disk → Prop}
    {C : Stop DurabilityError → Unit → Disk → Prop}
    (h : Method.wp (openPortable path) () d Q (fun _ _ _ => False) C) :
    (∃ st : GenericMmapStore R Id IV SV × Disk, reopen path [] d = some st) ∧
      ∀ plan st, reopen path plan d = some st → Q st.1 () st.2 := by
  obtain ⟨s, p, hRun, -⟩ := Method.wp_total h
  exact ⟨⟨(s, p.disk), by rw [reopen, hRun]⟩, fun _ _ => post_of_reopen h⟩

/-- A store whose files back it is reopened with its answers. -/
theorem Backed.wp_openPortable (h : Backed path L s d) (hSession : Session path L slots s d)
    (hCount : (allIds s).length < 2 ^ 64) :
    Method.wp (openPortable path) () d
      (fun s' _ d' => view s' = view s ∧
        ∃ records slots', Stored path records L d ∧
          Opened path (merged records L) slots d slots' s' d')
      (fun _ _ _ => False) (fun _ _ _ => True) := by
  obtain ⟨records, hStored, hLive⟩ := h
  have hIds := distinctIds_merged hStored.ids L
  have hNone : ∀ k, k ∈ allIds s ↔ contents (merged records L) k ≠ none := by
    intro k
    have hk := congrFun hLive k
    rw [live] at hk
    rw [Ne, ← Option.map_eq_none_iff (f := shape), ← hk, Option.map_eq_none_iff,
      AList.lookup_eq_none, not_not]
    rfl
  refine (wp_openPortable_answers hStored hSession.file ?_ (fun k => ?_)
    (hSession.rep.carries _)).mono ?_ (fun _ _ _ => id) fun _ _ _ => id
  · rwa [length_eq_of_ids hIds s.records.keys_nodup hNone]
  · rw [hSession.rep.view_shape, hLive]
  · intro s' _ d' h
    obtain ⟨hView, slots', hOpened⟩ := h
    exact ⟨hView, records, slots', hStored, hOpened⟩

/-- A created store is backed by its files. -/
theorem created_backed {records : List R} (hIds : DistinctIds records) {d₀ : Disk}
    {plan : List Outcome} {p : Proc Unit} (hCreate : create records path ⟨(), d₀, plan⟩ = .ok s p) :
    Session path [] (freshSlots records) s p.disk ∧
      Backed path ([] : List (LogEntry R Id)) s p.disk ∧ view s = contents records := by
  obtain ⟨hSession, hMaps, hView, -, hBlob⟩ := (wp_create hIds).of_ok hCreate
  refine ⟨hSession, ⟨records, ⟨hIds, hBlob, hSession.log⟩, ?_⟩, hView⟩
  funext k
  rw [live, hMaps]
  rfl

/-- **Reopening refines memory.** A store was created from records with distinct ids, and calls on
it returned. Reopening its files alone returns when no I/O call fails, and whenever it returns the
store it returns gives the answers of the one in memory. The live ids are counted by a `usize`. -/
theorem reopen_same_answers {records : List R} (hIds : DistinctIds records) {d₀ : Disk}
    {plan : List Outcome} {s₀ : GenericMmapStore R Id IV SV} {p : Proc Unit}
    (hCreate : create records path ⟨(), d₀, plan⟩ = .ok s₀ p)
    {calls : List (Op R Id SV × List Outcome)} (hRun : run (s₀, p.disk) calls = some (s, d))
    (hCount : (allIds s).length < 2 ^ 64) :
    (∃ st : GenericMmapStore R Id IV SV × Disk, reopen path [] d = some st) ∧
      ∀ plan' (st : GenericMmapStore R Id IV SV × Disk), reopen path plan' d = some st →
        SameAnswers s st.1 := by
  obtain ⟨hSession, hStart, -⟩ := created_backed hIds hCreate
  obtain ⟨L, slots, hEnd, hBacked⟩ := run_induction
    (P := fun _ L _ s d => Backed path L s d)
    (fun _ _ _ _ _ _ _ _ _ _ _ h hAdvance => hAdvance.backed h) [] hSession hStart hRun
  obtain ⟨hTotal, hSame⟩ := reopen_of_wp (hBacked.wp_openPortable hEnd hCount)
  refine ⟨hTotal, fun plan' st hReopen => ?_⟩
  obtain ⟨hView, records', slots', hStored, hOpened⟩ := hSame plan' st hReopen
  exact sameAnswers_of_view hEnd.rep hOpened.session.rep hView

/-- A path for examples. -/
def samplePath : Path := "orders".toList

/-- Two orders, for examples. -/
def sampleRecords : List Order := [.sample 1 10, .sample 2 20]

/-- One order updated in place, one deleted and inserted again, a compaction and an insert, for
examples. -/
def sampleCalls : List (Op Order Uuid Int64 × List Outcome) :=
  [(.update (Uuid.ofNat 1) 11, []), (.delete (Uuid.ofNat 2), []), (.insert (.sample 2 25), []),
    (.compact, []), (.insert (.sample 3 30), [])]

theorem sample_distinctIds : DistinctIds sampleRecords := by
  unfold DistinctIds
  decide

/-- The two orders as they are created. -/
def sampleStore : Option (GenericMmapStore Order Uuid OrderStatus Int64 × Proc Unit) :=
  Method.finished (create sampleRecords samplePath ⟨(), fun _ => none, []⟩)

theorem sample_run : ∃ s₀ p st, create sampleRecords samplePath ⟨(), fun _ => none, []⟩ = .ok s₀ p ∧
    run (s₀, p.disk) sampleCalls = some st ∧ (allIds st.1).length = 3 := by
  have hLength : (sampleStore.bind fun r => (run (r.1, r.2.disk) sampleCalls).map fun st =>
      (allIds st.1).length) = some 3 := by decide +kernel
  obtain ⟨⟨s₀, p⟩, hStore, hLength⟩ := Option.bind_eq_some_iff.mp hLength
  obtain ⟨st, hRun, hCount⟩ := Option.map_eq_some_iff.mp hLength
  exact ⟨s₀, p, st, Method.finished_eq_some.mp hStore, hRun, hCount⟩

theorem reopen_same_answers_sample :
    ∃ s₀ p st, create sampleRecords samplePath ⟨(), fun _ => none, []⟩ = .ok s₀ p ∧
      run (s₀, p.disk) sampleCalls = some st ∧
      (∃ st' : GenericMmapStore Order Uuid OrderStatus Int64 × Disk,
        reopen samplePath [] st.2 = some st') ∧
      ∀ plan (st' : GenericMmapStore Order Uuid OrderStatus Int64 × Disk),
        reopen samplePath plan st.2 = some st' → SameAnswers st.1 st'.1 := by
  obtain ⟨s₀, p, st, hCreate, hRun, hCount⟩ := sample_run
  exact ⟨s₀, p, st, hCreate, hRun,
    reopen_same_answers sample_distinctIds hCreate hRun (by rw [hCount]; decide)⟩

/-! ## The representation invariant -/

/-- The representation invariant of a store whose file shows `slots` and whose records are
`current`. Only `stale` slots may be committed without being an id's position. -/
structure RepInvariant (path : Path) (s : GenericMmapStore R Id IV SV) (d : Disk)
    (slots : List (Slot Id SV)) (current : Id → Option R) (stale : Nat → Prop) : Prop where
  file : d path = some (image slots []) ∧ s.file = ⟨⟨image slots [], some path⟩, path⟩
  keys : ∀ k, k ∈ s.records ↔ k ∈ s.positionIndex
  live : ∀ k, k ∈ s.records ↔ current k ≠ none
  answers : ∀ k, get s k = .ok (current k)
  distinct : ∀ k k' p, s.positionIndex.lookup k = some p →
    s.positionIndex.lookup k' = some p → k = k'
  slot : ∀ k p, s.positionIndex.lookup k = some p →
    ∃ record, current k = some record ∧ slots[p]? = some ⟨k, scannableValue record, COMMITTED⟩
  others : ∀ q t, slots[q]? = some t → t.marker = COMMITTED →
    s.positionIndex.lookup t.id = some q ∨ stale q
  buckets : Buckets current s.index

theorem Session.repInvariant (h : Session path L slots s d) {stale : Nat → Prop}
    (hStale : ∀ q, Stray s slots q → stale q) : RepInvariant path s d slots (view s) stale := by
  have hAt : ∀ k p, s.positionIndex.lookup k = some p → ∃ record v, At s slots k record p v := by
    intro k p hp
    have hMem : k ∈ s.records := (h.rep.keys k).mpr (AList.lookup_isSome.mp (by rw [hp]; rfl))
    obtain ⟨record, hRecord⟩ := Option.isSome_iff_exists.mp (AList.lookup_isSome.mpr hMem)
    obtain ⟨v, hv⟩ := h.rep.last k p hp
    exact ⟨record, v, hRecord, hp, hv⟩
  refine ⟨⟨h.file, h.rep.file⟩, h.rep.keys, mem_allIds h.rep, h.rep.get_eq, fun k k' p hp hp' => ?_,
    fun k p hp => ?_, fun q t ht hMark => ?_, ?_⟩
  · obtain ⟨record, v, hk⟩ := hAt k p hp
    obtain ⟨record', v', hk'⟩ := hAt k' p hp'
    by_contra hNe
    exact hk.ne_position hk' hNe rfl
  · obtain ⟨record, v, hk⟩ := hAt k p hp
    refine ⟨_, h.rep.view_at hk, ?_⟩
    rw [scannableValue_shape]
    exact hk.2.2.1
  · by_cases hPos : s.positionIndex.lookup t.id = some q
    · exact Or.inl hPos
    · exact Or.inr (hStale q ⟨t, ht, hMark, hPos⟩)
  · exact ⟨h.rep.buckets.nonempty, h.rep.buckets.nodup, fun value k => mem_filterEq h.rep value k⟩

/-- A committed slot of the opened file that `open` made no id's position: its id is not live, or a
later slot carries it too. -/
def Unadopted (slots : List (Slot Id SV)) (s : GenericMmapStore R Id IV SV) (q : Nat) : Prop :=
  ∃ t, slots[q]? = some t ∧ t.marker = COMMITTED ∧
    ¬ (t.id ∈ s.records ∧ LastCommitted slots t.id q t.value)

/-- A store at the start of a run: just created, or just opened on a file without a partial tail,
from records with distinct ids. With it the records it has, and its stale slots. -/
inductive Begins (path : Path) : GenericMmapStore R Id IV SV → Disk → (Id → Option R) →
    (Nat → Prop) → Prop where
  | created {records d plan s p} (hIds : DistinctIds records)
    (hRun : create records path ⟨(), d, plan⟩ = .ok s p) :
    Begins path s p.disk (contents records) fun _ => False
  | opened {records slots d plan s p} (hIds : DistinctIds records)
    (hFile : d path = some (image slots []))
    (hRun : openStore records path ⟨(), d, plan⟩ = .ok s p) :
    Begins path s p.disk (view s) (Unadopted slots s)

theorem Begins.session {current : Id → Option R} {stale : Nat → Prop}
    (h : Begins path s d current stale) :
    ∃ slots, Session path [] slots s d ∧ view s = current ∧ ∀ q, Stray s slots q → stale q := by
  cases h with
  | created hIds hRun =>
    obtain ⟨hSession, -, hView, hStrays, -⟩ := (wp_create hIds).of_ok hRun
    exact ⟨_, hSession, hView, hStrays⟩
  | @opened records slots d₀ plan s p hIds hFile hRun =>
    obtain ⟨logged, slots', -, hOpened⟩ := opened_of_ok hFile hIds hRun
    refine ⟨slots', hOpened.session, rfl, fun q ⟨t, ht, hMark, hPos⟩ => ?_⟩
    obtain ⟨hOld, hNot⟩ := hOpened.reconciled.strays q t ht hMark hPos
    refine ⟨t, hOld, hMark, fun ⟨hLive, hLast⟩ => hNot ⟨?_, hLast⟩⟩
    rwa [← hOpened.reconciled.keys, ← hOpened.session.rep.keys]

/-- **The representation invariant** holds in every state of a run. Slots that `open` found
committed and did not adopt stay committed without a position, until a compaction. -/
theorem rep_invariant {s₀ : GenericMmapStore R Id IV SV} {d₀ : Disk} {start : Id → Option R}
    {stale : Nat → Prop} (hStart : Begins path s₀ d₀ start stale)
    {calls : List (Op R Id SV × List Outcome)} (hRun : run (s₀, d₀) calls = some (s, d)) :
    ∃ slots, RepInvariant path s d slots (Op.applyAll start calls)
      fun q => stale q ∧ ∀ call ∈ calls, call.1 ≠ .compact := by
  obtain ⟨slots₀, hSession, hView, hStale⟩ := hStart.session
  suffices hEnd : ∃ L slots, Session path L slots s d ∧ view s = Op.applyAll start ([] ++ calls) ∧
      ∀ q, Stray s slots q → stale q ∧ ∀ call ∈ [] ++ calls, call.1 ≠ .compact by
    obtain ⟨L, slots, hEnd, hCurrent, hStrays⟩ := hEnd
    rw [List.nil_append] at hCurrent hStrays
    exact ⟨slots, hCurrent ▸ hEnd.repInvariant hStrays⟩
  refine run_induction (P := fun done _ slots s _ => view s = Op.applyAll start done ∧
      ∀ q, Stray s slots q → stale q ∧ ∀ call ∈ done, call.1 ≠ .compact)
    (fun done op plan L slots s d L' slots' s' d' h hAdvance => ?_) [] hSession
    ⟨hView, fun q hStray => ⟨hStale q hStray, nofun⟩⟩ hRun
  obtain ⟨hCurrent, hStrays⟩ := h
  refine ⟨by rw [hAdvance.view, hCurrent, Op.applyAll_snoc], fun q hStray => ?_⟩
  obtain ⟨hOld, hOp⟩ := hAdvance.strays hStray
  obtain ⟨hFound, hDone⟩ := hStrays q hOld
  refine ⟨hFound, fun call hCall => ?_⟩
  rcases List.mem_append.mp hCall with hCall | hCall
  · exact hDone call hCall
  · rw [List.mem_singleton.mp hCall]
    exact hOp

theorem rep_invariant_sample :
    ∃ s₀ p st slots, create sampleRecords samplePath ⟨(), fun _ => none, []⟩ = .ok s₀ p ∧
      run (s₀, p.disk) sampleCalls = some st ∧
      RepInvariant samplePath st.1 st.2 slots (Op.applyAll (contents sampleRecords) sampleCalls)
        fun _ => False ∧ ∀ call ∈ sampleCalls, call.1 ≠ .compact := by
  obtain ⟨s₀, p, st, hCreate, hRun, -⟩ := sample_run
  obtain ⟨slots, hInvariant⟩ := rep_invariant (.created sample_distinctIds hCreate) hRun
  exact ⟨s₀, p, st, slots, hCreate, hRun, hInvariant⟩

/-- `open` on the file of the two orders, over the first of them. -/
def reopenedOverOne : Option (GenericMmapStore Order Uuid OrderStatus Int64 × Proc Unit) :=
  sampleStore.bind fun r =>
    Method.finished (openStore [Order.sample 1 10] samplePath ⟨(), r.2.disk, []⟩)

theorem reopenedOverOne_eq {s : GenericMmapStore Order Uuid OrderStatus Int64} {q : Proc Unit}
    (h : reopenedOverOne = some (s, q)) :
    ∃ d, openStore [Order.sample 1 10] samplePath ⟨(), d, []⟩ = .ok s q := by
  obtain ⟨r, -, hOpen⟩ := Option.bind_eq_some_iff.mp h
  exact ⟨_, Method.finished_eq_some.mp hOpen⟩

/-- `open` on a file that holds two orders, over the first of them: the second slot stays committed
and is no id's position. -/
theorem open_keeps_an_unindexed_slot :
    ¬ ∀ (d : Disk) (records : List Order) (path : Path)
      (s : GenericMmapStore Order Uuid OrderStatus Int64) p, DistinctIds records →
      openStore records path ⟨(), d, []⟩ = .ok s p →
      ∀ q, SlotFile.isCommitted Uuid Int64 s.file.mmap.bytes q →
        ∃ k, s.positionIndex.lookup k = some q := by
  intro hClaim
  have hOpen : reopenedOverOne.map (fun r => (SlotFile.isCommitted Uuid Int64 r.1.file.mmap.bytes 1,
      r.1.positionIndex.entries.map fun e => e.2)) = some (true, [0]) := by decide +kernel
  obtain ⟨⟨s, q⟩, hOpen, hSlots⟩ := Option.map_eq_some_iff.mp hOpen
  obtain ⟨d, hRun⟩ := reopenedOverOne_eq hOpen
  rw [Prod.mk.injEq] at hSlots
  obtain ⟨k, hk⟩ :=
    hClaim d [Order.sample 1 10] samplePath s q (by unfold DistinctIds; decide) hRun 1 hSlots.1
  have hMem : 1 ∈ s.positionIndex.entries.map fun e => e.2 :=
    List.mem_map.mpr ⟨⟨k, 1⟩, AList.mem_lookup_iff.mp hk, rfl⟩
  rw [hSlots.2] at hMem
  exact absurd hMem (by decide)

end GenericMmapStore

end MultimodalDb
