import MultimodalDb.Durability.LogStoreRules
import MultimodalDb.Lib.Machine
import Mathlib.Data.List.Induction

/-!
# Refused updates in the log

An update is logged before the state is asked whether it knows the id. A refused one stays in the
log, and the next opening replays it, with its error propagated. So a store opens, to exactly the
updates it accepted, as long as no update was refused since the last checkpoint (`refused_updates`):
a checkpoint of a write-ahead log empties the log, and one of the hybrid puts the entry before its
cutoff.

`Follows` is what all three keep: the state they would open from, the entries they would replay on
it, and the ledger of what the caller was told.
-/

namespace MultimodalDb

open CanonicalCachedState Wal

/-- What a caller of a store can do, the dogs and the edges given. -/
inductive LogCall where
  | updateAge (id : Uuid) (age : UInt32)
  | checkpoint
  | reopen

def LogCall.event (records : List DogRecord) (edges : List (Uuid × Uuid)) : LogCall → StoreEvent
  | .updateAge id age => .updateAge id age []
  | .checkpoint => .checkpoint []
  | .reopen => .reopen records edges

/-- A process, with the updates that were answered `Ok` and whether one was answered `NotFound`
since the last checkpoint. -/
structure Ledger (S : Type) where
  process : LogVariant.Process S
  accepted : List (Uuid × UInt32)
  refused : Bool

namespace Ledger

variable {S : Type}

def accept (accepted : List (Uuid × UInt32)) : LogCall → StoreReply → List (Uuid × UInt32)
  | .updateAge id age, .done => accepted ++ [(id, age)]
  | _, _ => accepted

def refuse (refused : Bool) : LogCall → StoreReply → Bool
  | .updateAge .., .refused (.notFound _) => true
  | .checkpoint, .done => false
  | _, _ => refused

/-- A store just created in an empty directory. -/
def created (L : LogVariant S) (records : List DogRecord) (edges : List (Uuid × Uuid))
    (dir : Path) : Ledger S :=
  ⟨(LogVariant.built (L.create records edges dir) fun _ => none).2, [], false⟩

def step (L : LogVariant S) (records : List DogRecord) (edges : List (Uuid × Uuid)) (dir : Path)
    (st : Ledger S) (call : LogCall) : Option (Ledger S) :=
  let r := L.step dir st.process (call.event records edges)
  some ⟨r.2, accept st.accepted call r.1, refuse st.refused call r.1⟩

/-- No opening finds a refused update in what it replays, and no counter that is never reset wraps.
-/
def Allowed (full : S → Prop) (st : Ledger S) : LogCall → Prop
  | .reopen => st.refused = false
  | .updateAge .. => ∀ s, st.process.1 = some s → ¬ full s
  | .checkpoint => True

/-- The store is open, at exactly the updates it accepted, in order. -/
def Current (state : S → CanonicalCachedState) (records : List DogRecord)
    (edges : List (Uuid × Uuid)) (st : Ledger S) : Prop :=
  ∃ s, st.process.1 = some s ∧ state s = (new records edges).withAges st.accepted

/-- In every run that meets the condition the store is current, and opening it now keeps it so just
when nothing was refused since the last checkpoint. -/
def Replayable (L : LogVariant S) (state : S → CanonicalCachedState) (full : S → Prop)
    (records : List DogRecord) (edges : List (Uuid × Uuid)) (dir : Path) : Prop :=
  ∀ st : Ledger S, Machine.Runs (step L records edges dir) (Allowed full)
    (created L records edges dir) st → Current state records edges st ∧
      ((∃ st', step L records edges dir st .reopen = some st' ∧ Current state records edges st') ↔
        st.refused = false)

/-- What the three keep between a store, its files and its ledger, and why it lasts. -/
structure Kept (L : LogVariant S) (state : S → CanonicalCachedState) (full : S → Prop)
    (records : List DogRecord)
    (edges : List (Uuid × Uuid)) (dir : Path)
    (I : S → Disk → List (Uuid × UInt32) → Bool → Prop) : Prop where
  created : ∀ d, Method.wp (L.create records edges dir) () d (fun s _ d' => (∀ p, d p = none) →
    I s d' [] false) (LogVariant.refusing fun _ _ _ => False) fun _ _ _ => True
  updateAge : ∀ {s d accepted refused} id age, I s d accepted refused → ¬ full s →
    Method.wp (L.updateAge id age) s d (fun _ s' d' => I s' d' (accepted ++ [(id, age)]) refused)
      (LogVariant.refusing fun e s' d' => e = .notFound id ∧ I s' d' accepted true) fun _ _ _ =>
        True
  checkpoint : ∀ {s d accepted refused}, I s d accepted refused →
    Method.wp L.checkpoint s d (fun _ s' d' => I s' d' accepted false)
      (LogVariant.refusing fun _ s' d' => I s' d' accepted refused) fun _ _ _ => True
  openStore : ∀ {s d accepted}, I s d accepted false →
    Method.wp (L.openStore records edges dir) () d (fun s' _ d' => I s' d' accepted false)
      (LogVariant.refusing fun _ _ _ => False) fun _ _ _ => True
  refused : ∀ {s d accepted}, I s d accepted true →
    Method.wp (L.openStore records edges dir) () d (fun _ _ _ => False)
      (LogVariant.refusing fun _ _ _ => True) fun _ _ _ => True
  state : ∀ {s d accepted refused}, I s d accepted refused →
    state s = (new records edges).withAges accepted

namespace Kept

variable {L : LogVariant S} {state : S → CanonicalCachedState} {full : S → Prop}
  {records : List DogRecord}
variable {edges : List (Uuid × Uuid)} {dir : Path}
  {I : S → Disk → List (Uuid × UInt32) → Bool → Prop}

/-- The store is open and the ledger is its own. -/
def Open (I : S → Disk → List (Uuid × UInt32) → Bool → Prop) (st : Ledger S) : Prop :=
  ∃ s, st.process.1 = some s ∧ I s st.process.2 st.accepted st.refused

theorem open_created (h : Kept L state full records edges dir I) :
    Open I (Ledger.created L records edges dir) := by
  rcases LogVariant.built_cases (h.created fun _ => none) with ⟨s, d, hBuilt, hI⟩ |
    ⟨_, _, _, hFalse⟩
  · refine ⟨s, ?_, ?_⟩
    · rw [Ledger.created, hBuilt]
    · rw [Ledger.created, hBuilt]
      exact hI fun _ => rfl
  · exact hFalse.elim

theorem open_step (h : Kept L state full records edges dir I) {st st' : Ledger S} (call : LogCall)
    (hOpen : Open I st)
    (hAllowed : Allowed full st call) (hStep : step L records edges dir st call = some st') :
    Open I st' := by
  obtain ⟨⟨o, d⟩, accepted, refused⟩ := st
  obtain ⟨s, rfl, hI⟩ := hOpen
  cases hStep
  cases call with
  | updateAge id age =>
    rcases LogVariant.answer_nil (fun _ => .done) .refused (h.updateAge id age hI (hAllowed s rfl))
      with ⟨_, s', d', hAnswer, hDone⟩ | ⟨_, s', d', hAnswer, rfl, hRefused⟩
    · refine ⟨s', ?_, ?_⟩ <;> simp only [LogCall.event, LogVariant.step, hAnswer]
      exact hDone
    · refine ⟨s', ?_, ?_⟩ <;> simp only [LogCall.event, LogVariant.step, hAnswer]
      exact hRefused
  | checkpoint =>
    rcases LogVariant.answer_nil (fun _ => .done) .failed (h.checkpoint hI)
      with ⟨_, s', d', hAnswer, hDone⟩ | ⟨_, s', d', hAnswer, hFailed⟩
    · refine ⟨s', ?_, ?_⟩ <;> simp only [LogCall.event, LogVariant.step, hAnswer]
      exact hDone
    · refine ⟨s', ?_, ?_⟩ <;> simp only [LogCall.event, LogVariant.step, hAnswer]
      exact hFailed
  | reopen =>
    obtain rfl : refused = false := hAllowed
    rcases LogVariant.built_cases (h.openStore hI) with ⟨s', d', hBuilt, hDone⟩ | ⟨_, _, _, hFalse⟩
    · refine ⟨s', ?_, ?_⟩ <;> simp only [LogCall.event, LogVariant.step, hBuilt]
      exact hDone
    · exact hFalse.elim

theorem Open.current (h : Kept L state full records edges dir I) {st : Ledger S}
    (hOpen : Open I st) :
    Current state records edges st := by
  obtain ⟨s, hSome, hI⟩ := hOpen
  exact ⟨s, hSome, h.state hI⟩

/-- A refused update is in what the next opening replays. -/
theorem not_current_of_refused (h : Kept L state full records edges dir I) {st st' : Ledger S}
    (hOpen : Open I st)
    (hRefused : st.refused = true) (hStep : step L records edges dir st .reopen = some st') :
    ¬ Current state records edges st' := by
  obtain ⟨⟨o, d⟩, accepted, refused⟩ := st
  obtain ⟨s, rfl, hI⟩ := hOpen
  obtain rfl : refused = true := hRefused
  cases hStep
  rintro ⟨s', hSome, -⟩
  rcases LogVariant.built_cases (h.refused hI) with ⟨_, _, _, hFalse⟩ | ⟨_, d', hBuilt, -⟩
  · exact hFalse
  · simp only [LogCall.event, LogVariant.step, hBuilt, reduceCtorEq] at hSome

end Kept

/-- What keeps its ledger is replayable. -/
theorem Kept.replayable {L : LogVariant S} {state : S → CanonicalCachedState} {full : S → Prop}
    {records : List DogRecord} {edges : List (Uuid × Uuid)} {dir : Path}
    {I : S → Disk → List (Uuid × UInt32) → Bool → Prop}
    (hKept : Kept L state full records edges dir I) :
    Replayable L state full records edges dir := by
  intro st hRuns
  have hOpen : Kept.Open I st := hRuns.invariant hKept.open_created
    fun _ _ _ _ hOpen hAllowed hStep => hKept.open_step _ hOpen hAllowed hStep
  refine ⟨hOpen.current hKept, ?_, fun hClear => ?_⟩
  · rintro ⟨st', hStep, hCurrent⟩
    rw [← Bool.not_eq_true]
    exact fun hRefused => hKept.not_current_of_refused hOpen hRefused hStep hCurrent
  · exact ⟨_, rfl, (hKept.open_step .reopen hOpen hClear rfl).current hKept⟩

end Ledger

/-! ## What all three keep -/

/-- Opening would start from `start` and replay `replayed` on it. -/
structure Follows (records : List DogRecord) (edges : List (Uuid × Uuid))
    (start : CanonicalCachedState)
    (replayed : List WalEntry) (accepted : List (Uuid × UInt32)) (refused : Bool) : Prop where
  placed : Placed start
  ages : start.withAges (ages replayed) = (new records edges).withAges accepted
  refused : refused = false ↔ ∀ e ∈ replayed, e.id ∈ start.records

namespace Follows

variable {records : List DogRecord} {edges : List (Uuid × Uuid)} {start : CanonicalCachedState}
variable {replayed : List WalEntry} {accepted : List (Uuid × UInt32)} {refused : Bool}

theorem new : Follows records edges (.new records edges) [] [] false :=
  ⟨placed_new records edges, rfl, by simp⟩

theorem placed_current (h : Follows records edges start replayed accepted refused) :
    Placed ((CanonicalCachedState.new records edges).withAges accepted) :=
  h.ages ▸ h.placed.withAges _

theorem accept (h : Follows records edges start replayed accepted refused) (entry : WalEntry)
    (hMem : entry.id ∈ ((CanonicalCachedState.new records edges).withAges accepted).records) :
    Follows records edges start (replayed ++ [entry]) (accepted ++ [(entry.id, entry.age)])
      refused := by
  rw [← h.ages, mem_records_withAges] at hMem
  refine ⟨h.placed, ?_, ?_⟩
  · rw [Wal.ages, List.map_append, withAges_append, withAges_append, ← Wal.ages, h.ages]
    rfl
  · simp [h.refused, or_imp, forall_and, hMem]

theorem refuse (h : Follows records edges start replayed accepted refused) (entry : WalEntry)
    (hNot : entry.id ∉ ((CanonicalCachedState.new records edges).withAges accepted).records) :
    Follows records edges start (replayed ++ [entry]) accepted true := by
  have hStart := hNot
  rw [← h.ages, mem_records_withAges] at hStart
  refine ⟨h.placed, ?_, ?_⟩
  · rw [Wal.ages, List.map_append, withAges_append, ← Wal.ages, h.ages]
    exact withAge_of_notMem hNot entry.age
  · simp only [Bool.true_eq_false, false_iff]
    exact fun hAll => hStart (hAll entry (by simp))

theorem checkpoint (h : Follows records edges start replayed accepted refused) :
    Follows records edges ((CanonicalCachedState.new records edges).withAges accepted) []
      accepted false :=
  ⟨h.placed_current, rfl, by simp⟩

end Follows

/-! ## The write-ahead logs -/

namespace WalStore

/-- The store in memory and its two files. -/
structure Logged (records : List DogRecord) (edges : List (Uuid × Uuid)) (dir : Path)
    (s : WalStore) (d : Disk) (accepted : List (Uuid × UInt32)) (refused : Bool) : Prop where
  state : s.state = (CanonicalCachedState.new records edges).withAges accepted
  basePath : s.basePath = basePathIn dir
  walPath : s.walPath = MultimodalDb.walPath dir
  files : ∃ start entries, RestoresTo records edges dir start d ∧
    Holds entries [] (d (MultimodalDb.walPath dir)) ∧
    Follows records edges start entries accepted refused

variable {records : List DogRecord} {edges : List (Uuid × Uuid)} {dir : Path}
  {s : WalStore} {d : Disk}
variable {accepted : List (Uuid × UInt32)} {refused : Bool}

/-- The log has one more entry. -/
theorem Logged.extend (h : Logged records edges dir s d accepted refused) (entry : WalEntry)
    {accepted' : List (Uuid × UInt32)} {refused' : Bool} {s' : WalStore}
    (hState : s'.state = (CanonicalCachedState.new records edges).withAges accepted')
    (hPaths : s'.basePath = s.basePath ∧ s'.walPath = s.walPath)
    (hFollows : ∀ start entries, Follows records edges start entries accepted refused →
      Follows records edges start (entries ++ [entry]) accepted' refused') :
    Logged records edges dir s' (d.extend s.walPath (appended entry)) accepted' refused' := by
  obtain ⟨start, entries, hBase, hHolds, hOld⟩ := h.files
  refine ⟨hState, hPaths.1.trans h.basePath, hPaths.2.trans h.walPath, start,
    entries ++ [entry], ?_, ?_, hFollows _ _ hOld⟩
  · unfold RestoresTo
    rw [h.walPath, Disk.extend_of_ne (basePathIn_ne_walPath dir)]
    exact hBase
  · rw [h.walPath, Disk.extend_self]
    exact hHolds.snoc entry

theorem kept (fsync : Bool) (records : List DogRecord) (edges : List (Uuid × Uuid)) (dir : Path) :
    Ledger.Kept (variant fsync) (·.state) (fun _ => False) records edges dir
      (Logged records edges dir) where
  created d := by
    refine wp_create (fun hEmpty => ⟨rfl, rfl, rfl, .new records edges, [], Or.inl ⟨?_, rfl⟩, ?_,
      Follows.new⟩) fun _ => trivial
    · rw [Function.update_of_ne (basePathIn_ne_walPath dir), hEmpty]
    · rw [Function.update_self]
      exact Holds.empty
  updateAge {s d accepted refused} id age h _ := by
    obtain ⟨start, entries, -, -, hFollows⟩ := h.files
    have hPlaced : Placed s.state := h.state ▸ hFollows.placed_current
    refine wp_updateAge hPlaced (fun hMem => ?_) (fun hNot => ⟨rfl, ?_⟩) fun _ _ => trivial
    · refine h.extend ⟨s.nextSeq, id, age⟩ (by rw [withAges_append, ← h.state]; rfl) ⟨rfl, rfl⟩
        fun _ _ hOld => ?_
      exact hOld.accept ⟨s.nextSeq, id, age⟩ (h.state ▸ hMem)
    · refine h.extend ⟨s.nextSeq, id, age⟩ h.state ⟨rfl, rfl⟩ fun _ _ hOld => ?_
      exact hOld.refuse ⟨s.nextSeq, id, age⟩ (h.state ▸ hNot)
  checkpoint {s d accepted refused} h := by
    obtain ⟨start, entries, -, -, hFollows⟩ := h.files
    refine wp_checkpoint (fun bytes hBytes => ?_) (fun _ => h) fun _ _ _ => trivial
    refine ⟨h.state, h.basePath, h.walPath, s.state, [],
      Or.inr ⟨bytes, ?_, decodeState_encodeState hBytes⟩, ?_, ?_⟩
    · rw [h.walPath, Function.update_of_ne (basePathIn_ne_walPath dir), h.basePath,
        Function.update_self]
    · rw [h.walPath, Function.update_self]
      exact Holds.empty
    · rw [h.state]
      exact hFollows.checkpoint
  openStore {s d accepted} h := by
    obtain ⟨start, entries, hBase, hHolds, hFollows⟩ := h.files
    refine wp_openStore hBase hFollows.placed hHolds (fun _ => ?_) (fun ⟨e, he, hNot⟩ => ?_)
      fun _ => trivial
    · exact ⟨hFollows.ages, rfl, rfl, start, entries, hBase, hHolds, hFollows⟩
    · exact absurd (hFollows.refused.mp rfl e he) hNot
  refused {s d accepted} h := by
    obtain ⟨start, entries, hBase, hHolds, hFollows⟩ := h.files
    refine wp_openStore hBase hFollows.placed hHolds (fun hAll => ?_) (fun _ _ => trivial) fun _ =>
      trivial
    exact Bool.noConfusion (hFollows.refused.mpr hAll)
  state h := h.state

end WalStore

/-! ## The hybrid -/

namespace HybridStore

/-- Sequence numbers count the entries of a log that is never emptied. -/
def Numbered (entries : List WalEntry) : Prop :=
  entries.length < 2 ^ 64 ∧ ∀ i (h : i < entries.length), entries[i].seq = UInt64.ofNat i

theorem Numbered.snoc {entries : List WalEntry} (h : Numbered entries) {entry : WalEntry}
    (hSeq : entry.seq = UInt64.ofNat entries.length) (hFull : entry.seq + 1 ≠ 0) :
    Numbered (entries ++ [entry]) := by
  obtain ⟨hLen, hAt⟩ := h
  refine ⟨?_, fun i hi => ?_⟩
  · rw [List.length_append, List.length_singleton]
    by_contra hLong
    have hLast : entries.length = 2 ^ 64 - 1 := by omega
    rw [hSeq, hLast] at hFull
    exact hFull (by decide)
  · rw [List.getElem_append]
    split
    · next hOld => exact hAt i hOld
    · next hNew =>
      rw [List.length_append, List.length_singleton] at hi
      have hEq : i = entries.length := by omega
      simp [hEq, hSeq]

theorem Numbered.seq_lt {entries : List WalEntry} (h : Numbered entries) {e : WalEntry}
    (he : e ∈ entries) :
    e.seq < UInt64.ofNat entries.length := by
  obtain ⟨i, hi, rfl⟩ := List.getElem_of_mem he
  obtain ⟨hLen, hAt⟩ := h
  rw [hAt i hi, UInt64.lt_iff_toNat_lt, UInt64.toNat_ofNat', UInt64.toNat_ofNat']
  omega

theorem nextAfter_append (next : UInt64) (entries : List WalEntry) (entry : WalEntry) :
    nextAfter next (entries ++ [entry]) = max (nextAfter next entries) (entry.seq + 1) := by
  simp [nextAfter]

theorem Numbered.nextAfter {entries : List WalEntry} (h : Numbered entries) :
    nextAfter 0 entries = UInt64.ofNat entries.length := by
  induction entries using List.reverseRecOn with
  | nil => rfl
  | append_singleton entries entry ih =>
    obtain ⟨hLen, hAt⟩ := h
    rw [List.length_append, List.length_singleton] at hLen
    have hOld : Numbered entries := ⟨by omega, fun i hi => by
      have hSame := hAt i (by rw [List.length_append]; omega)
      rwa [List.getElem_append_left hi] at hSame⟩
    have hSeq : entry.seq = UInt64.ofNat entries.length := by
      have hSame := hAt entries.length (by simp)
      simpa using hSame
    rw [nextAfter_append, ih hOld, hSeq, List.length_append, List.length_singleton]
    have hSucc : UInt64.ofNat entries.length + 1 = UInt64.ofNat (entries.length + 1) := by
      rw [UInt64.ofNat_add]
      rfl
    have hLe : UInt64.ofNat entries.length ≤ UInt64.ofNat (entries.length + 1) := by
      rw [UInt64.le_iff_toNat_le, UInt64.toNat_ofNat', UInt64.toNat_ofNat']
      omega
    rw [hSucc]
    exact if_pos hLe

/-- The store in memory and its two files. Nothing is behind the cutoff that is not counted. -/
structure Logged (records : List DogRecord) (edges : List (Uuid × Uuid)) (dir : Path)
    (s : HybridStore) (d : Disk) (accepted : List (Uuid × UInt32)) (refused : Bool) : Prop where
  state : s.state = (CanonicalCachedState.new records edges).withAges accepted
  snapshotPath : s.snapshotPath = snapshotPathIn dir
  walFile : s.walFile = walPath dir
  files : ∃ snapshot entries, RestoresTo records edges dir snapshot d ∧
    Holds entries [] (d (walPath dir)) ∧
    Numbered entries ∧ s.nextSeq = UInt64.ofNat entries.length ∧
    (∀ cutoff, snapshot.1 = some cutoff → cutoff < UInt64.ofNat entries.length) ∧
    Follows records edges snapshot.2 (live snapshot.1 entries) accepted refused

variable {records : List DogRecord} {edges : List (Uuid × Uuid)} {dir : Path}
  {s : HybridStore} {d : Disk}
variable {accepted : List (Uuid × UInt32)} {refused : Bool}

/-- The log has one more entry, behind every cutoff there is. -/
theorem Logged.extend (h : Logged records edges dir s d accepted refused)
    (hFull : s.nextSeq + 1 ≠ 0) (id : Uuid)
    (age : UInt32) {accepted' : List (Uuid × UInt32)} {refused' : Bool}
    {state' : CanonicalCachedState}
    (hState : state' = (CanonicalCachedState.new records edges).withAges accepted')
    (hFollows : ∀ start replayed, Follows records edges start replayed accepted refused →
      Follows records edges start (replayed ++ [⟨s.nextSeq, id, age⟩]) accepted' refused') :
    Logged records edges dir { s with state := state', nextSeq := s.nextSeq + 1 }
      (d.extend s.walFile (appended ⟨s.nextSeq, id, age⟩)) accepted' refused' := by
  obtain ⟨snapshot, entries, hBase, hHolds, hNumbered, hNext, hCutoff, hOld⟩ := h.files
  have hNew : Numbered (entries ++ [⟨s.nextSeq, id, age⟩]) := hNumbered.snoc hNext hFull
  have hCount : s.nextSeq + 1 =
      UInt64.ofNat (entries ++ [⟨s.nextSeq, id, age⟩] : List WalEntry).length := by
    rw [hNext, List.length_append, List.length_singleton, UInt64.ofNat_add]
    rfl
  have hBehind : afterCutoff snapshot.1 ⟨s.nextSeq, id, age⟩ = true := by
    unfold afterCutoff
    cases hAt : snapshot.1 with
    | none => rfl
    | some cutoff =>
      rw [Option.elim_some, decide_eq_true_eq, hNext]
      exact hCutoff cutoff hAt
  refine ⟨hState, h.snapshotPath, h.walFile, snapshot, entries ++ [⟨s.nextSeq, id, age⟩], ?_, ?_,
    hNew, hCount, fun cutoff hAt => ?_, ?_⟩
  · unfold RestoresTo
    rw [h.walFile, Disk.extend_of_ne (snapshotPathIn_ne_walPath dir)]
    exact hBase
  · rw [h.walFile, Disk.extend_self]
    exact hHolds.snoc _
  · have hLast := hNew.seq_lt (e := ⟨s.nextSeq, id, age⟩) (by simp)
    have hOlder := hCutoff cutoff hAt
    rw [← hNext] at hOlder
    rw [UInt64.lt_iff_toNat_lt] at hLast hOlder ⊢
    exact hOlder.trans hLast
  · rw [live, List.filter_append, List.filter_cons_of_pos hBehind, List.filter_nil]
    exact hFollows _ _ hOld

/-- A snapshot puts everything in the log before its cutoff. -/
theorem live_cutoffAt {entries : List WalEntry} (h : Numbered entries) :
    live (cutoffAt (UInt64.ofNat entries.length)) entries = [] := by
  rw [live, List.filter_eq_nil_iff]
  intro e he
  have hSeq := h.seq_lt he
  obtain ⟨hLen, -⟩ := h
  have hPos : entries.length ≠ 0 := (List.length_pos_of_mem he).ne'
  have hNe : UInt64.ofNat entries.length ≠ 0 := by
    intro hZero
    have hNat := congrArg UInt64.toNat hZero
    rw [UInt64.toNat_ofNat', UInt64.toNat_zero] at hNat
    omega
  rw [cutoffAt, if_neg hNe, afterCutoff, Option.elim_some, decide_eq_true_eq,
    UInt64.lt_iff_toNat_lt]
  rw [UInt64.lt_iff_toNat_lt] at hSeq
  have hOne : (1 : UInt64).toNat = 1 := rfl
  rw [UInt64.toNat_sub_of_le _ _ (by
    rw [UInt64.le_iff_toNat_le, UInt64.toNat_ofNat']
    omega), hOne]
  omega

theorem cutoffAt_lt {n : Nat} (h : n < 2 ^ 64) (cutoff : UInt64)
    (hCutoff : cutoffAt (UInt64.ofNat n) = some cutoff) :
    cutoff < UInt64.ofNat n := by
  unfold cutoffAt at hCutoff
  split at hCutoff
  · cases hCutoff
  · next hNe =>
    cases hCutoff
    have hPos : n ≠ 0 := by
      rintro rfl
      exact hNe rfl
    have hOne : (1 : UInt64).toNat = 1 := rfl
    rw [UInt64.lt_iff_toNat_lt, UInt64.toNat_sub_of_le _ _ (by
      rw [UInt64.le_iff_toNat_le, UInt64.toNat_ofNat']
      omega), UInt64.toNat_ofNat', hOne]
    omega

theorem kept (records : List DogRecord) (edges : List (Uuid × Uuid)) (dir : Path) :
    Ledger.Kept variant (·.state) (fun s => s.nextSeq + 1 = 0) records edges dir
      (Logged records edges dir) where
  created d := by
    refine wp_create (fun hEmpty => ⟨rfl, rfl, rfl, (none, .new records edges), [],
      Or.inl ⟨?_, rfl⟩, ?_, ?_, rfl, ?_, Follows.new⟩) fun _ => trivial
    · rw [Function.update_of_ne (snapshotPathIn_ne_walPath dir), hEmpty]
    · rw [Function.update_self]
      exact Holds.empty
    · exact ⟨by decide, fun i hi => absurd hi (Nat.not_lt_zero i)⟩
    · exact fun _ hAt => absurd hAt (by simp)
  updateAge {s d accepted refused} id age h hFull := by
    obtain ⟨_, _, -, -, -, -, -, hFollows⟩ := h.files
    have hPlaced : Placed s.state := h.state ▸ hFollows.placed_current
    refine wp_updateAge hPlaced (fun hMem => ?_) (fun hNot => ⟨rfl, ?_⟩) fun _ _ => trivial
    · refine h.extend hFull id age (by rw [withAges_append, ← h.state]; rfl) fun _ _ hOld => ?_
      exact hOld.accept ⟨s.nextSeq, id, age⟩ (h.state ▸ hMem)
    · refine h.extend hFull id age h.state fun _ _ hOld => ?_
      exact hOld.refuse ⟨s.nextSeq, id, age⟩ (h.state ▸ hNot)
  checkpoint {s d accepted refused} h := by
    obtain ⟨_, entries, -, hHolds, hNumbered, hNext, -, hFollows⟩ := h.files
    refine wp_checkpoint (fun bytes hBytes => ?_) h fun _ _ _ => trivial
    refine ⟨h.state, h.snapshotPath, h.walFile, (cutoffAt s.nextSeq, s.state), entries,
      Or.inr ⟨bytes, ?_, decodeSnapshot_encodeSnapshot hBytes⟩, ?_, hNumbered, hNext, ?_, ?_⟩
    · rw [h.snapshotPath, Function.update_self]
    · rw [h.snapshotPath, Function.update_of_ne (snapshotPathIn_ne_walPath dir).symm]
      exact hHolds
    · rw [hNext]
      exact cutoffAt_lt hNumbered.1
    · rw [hNext, live_cutoffAt hNumbered, h.state]
      exact hFollows.checkpoint
  openStore {s d accepted} h := by
    obtain ⟨snapshot, entries, hBase, hHolds, hNumbered, hNext, hCutoff, hFollows⟩ := h.files
    refine wp_openStore hBase hFollows.placed hHolds (fun _ => ?_) (fun ⟨e, he, hNot⟩ => ?_)
      fun _ => trivial
    · exact ⟨hFollows.ages, rfl, rfl, snapshot, entries, hBase, hHolds, hNumbered,
        hNumbered.nextAfter, hCutoff, hFollows⟩
    · exact absurd (hFollows.refused.mp rfl e he) hNot
  refused {s d accepted} h := by
    obtain ⟨snapshot, entries, hBase, hHolds, -, -, -, hFollows⟩ := h.files
    refine wp_openStore hBase hFollows.placed hHolds (fun hAll => ?_) (fun _ _ => trivial) fun _ =>
      trivial
    exact Bool.noConfusion (hFollows.refused.mpr hAll)
  state h := h.state

end HybridStore

/-! ## All three -/

/-- **Updates refused and accepted.** In every run in which no opening comes between a refused
update and a checkpoint, and in which the hybrid's counter does not wrap around, each of the three
is always open at exactly the updates it accepted; and opening it succeeds and leaves it so just
when nothing was refused since its last checkpoint. -/
theorem refused_updates (records : List DogRecord) (edges : List (Uuid × Uuid)) (dir : Path) :
    Ledger.Replayable WalFsyncStore (·.state) (fun _ => False) records edges dir ∧
      Ledger.Replayable WalBufferedStore (·.state) (fun _ => False) records edges dir ∧
      Ledger.Replayable HybridStore.variant (·.state) (fun s => s.nextSeq + 1 = 0) records
        edges dir :=
  ⟨(WalStore.kept true records edges dir).replayable,
    (WalStore.kept false records edges dir).replayable,
    (HybridStore.kept records edges dir).replayable⟩

/-- An update that is made, one that is refused and a checkpoint: the store opens again as it is. -/
theorem refused_updates_sample :
    let dog : DogRecord := ⟨Uuid.ofNat 1, "poodle", 3⟩
    ∃ st, Machine.run (Ledger.step WalFsyncStore [dog] [] "dogs".toList)
        (Ledger.created WalFsyncStore [dog] [] "dogs".toList)
        [.updateAge dog.id 7, .updateAge (Uuid.ofNat 2) 5, .checkpoint] = some st ∧
      st.accepted = [(dog.id, 7)] ∧ Ledger.Current (·.state) [dog] [] st ∧
      ∃ st', Ledger.step WalFsyncStore [dog] [] "dogs".toList st .reopen = some st' ∧
        Ledger.Current (·.state) [dog] [] st' := by
  intro dog
  refine ⟨_, rfl, by decide +kernel, ?_⟩
  have hUpdate : ∀ st id age, Ledger.Allowed (fun _ : WalStore => False) st (.updateAge id age) :=
    fun _ _ _ _ _ => not_false
  have hRuns := (refused_updates [dog] [] "dogs".toList).1 _
    (.tail (.tail (.tail .refl (hUpdate _ dog.id 7) rfl) (hUpdate _ (Uuid.ofNat 2) 5) rfl)
      (show Ledger.Allowed _ _ .checkpoint from trivial) rfl)
  exact ⟨hRuns.1, hRuns.2.mpr (by decide +kernel)⟩

/-- One dog, an update of another and a new opening: the store does not open again. -/
theorem refused_update_blocks_opening :
    let dog : DogRecord := ⟨Uuid.ofNat 1, "poodle", 3⟩
    LogVariant.replies WalFsyncStore "dogs".toList
        (LogVariant.built (WalFsyncStore.create [dog] [] "dogs".toList)
        fun _ => none).2 [.updateAge (Uuid.ofNat 2) 7 [], .reopen [dog] [], .get dog.id] =
      [.refused (.notFound (Uuid.ofNat 2)), .failed (.store (.notFound (Uuid.ofNat 2))),
        .silence] := by
  decide +kernel

end MultimodalDb
