import MultimodalDb.Server.CommitGroupSteps
import Mathlib.Data.List.Infix
import Mathlib.Order.Lattice

/-!
# The history of a commit group

What the counters of a group and the places of its threads say about what has happened.

* `Syncs`: the two watermarks are the furthest that syncs which returned, and which failed, had
  read, and an entry below `durable` was synced after it was appended.
* `Verdicts`: a batch that passed had its first covering sync succeed, and one that was refused for
  its sync was covered by one that failed.
* `Applies`: batches are applied in the order of their numbers, each once.
-/

namespace MultimodalDb

namespace CommitGroup

variable {σ ι ω ε : Type}

abbrev History (σ ι ω ε : Type) := List (Mark σ ι ω ε)

namespace Mark

/-- The beginning or the end of a sync that the thread leads. -/
def IsSyncOf (i : Thread) : Mark σ ι ω ε → Prop
  | .syncBegan j | .synced j _ _ => j = i
  | _ => False

/-- Nothing about entries or syncs. -/
def Quiet : Mark σ ι ω ε → Prop
  | .appended _ _ _ | .syncBegan _ | .synced _ _ _ => False
  | _ => True

def appliedSeq? : Mark σ ι ω ε → Option Nat
  | .applied _ _ seq _ _ => some seq
  | _ => none

/-- What a sync that covered the entry came to. -/
def covering? (seq : Nat) : Mark σ ι ω ε → Option Bool
  | .synced _ upto ok => if seq ≤ upto then some ok else none
  | _ => none

end Mark

/-- The numbers of the applied batches, the latest first. -/
def appliedSeqs (history : History σ ι ω ε) : List Nat := history.filterMap Mark.appliedSeq?

def IsAppended (seq : Nat) (history : History σ ι ω ε) : Prop := ∃ i c, .appended i c seq ∈ history

def IsAnswered (seq : Nat) (history : History σ ι ω ε) : Prop :=
  ∃ i c answer, .answered i c (some seq) answer ∈ history

/-- A sync that had read at least this far came back. -/
def IsCovered (seq : Nat) (ok : Bool) (history : History σ ι ω ε) : Prop :=
  ∃ i upto, .synced i upto ok ∈ history ∧ seq ≤ upto

/-- What the first sync that covered the entry came to, if one has returned. -/
def firstCovering (seq : Nat) (history : History σ ι ω ε) : Option Bool :=
  history.reverse.findSome? (Mark.covering? seq)

/-- The thread is in a sync that began after the entries up to `upto` were appended. -/
def Began (i : Thread) (upto : Nat) (history : History σ ι ω ε) : Prop :=
  ∃ mid before, history = mid ++ .syncBegan i :: before ∧ (∀ m ∈ mid, ¬ m.IsSyncOf i) ∧
    ∀ s, 1 ≤ s → s ≤ upto → IsAppended s before

/-- The entry was appended, then a sync began, and then the same sync succeeded. -/
def SyncedAfterAppend (seq : Nat) (history : History σ ι ω ε) : Prop :=
  ∃ later i upto mid before,
    history = later ++ .synced i upto true :: (mid ++ .syncBegan i :: before) ∧
      (∀ m ∈ mid, ¬ m.IsSyncOf i) ∧ IsAppended seq before

/-! ## Histories grow -/

theorem IsAppended.mono {seq : Nat} {history : History σ ι ω ε} (h : IsAppended seq history)
    (new : History σ ι ω ε) : IsAppended seq (new ++ history) := by
  obtain ⟨i, c, h⟩ := h
  exact ⟨i, c, List.mem_append_right _ h⟩

theorem IsCovered.mono {seq : Nat} {ok : Bool} {history : History σ ι ω ε}
    (h : IsCovered seq ok history) (new : History σ ι ω ε) : IsCovered seq ok (new ++ history) := by
  obtain ⟨i, upto, h, hLe⟩ := h
  exact ⟨i, upto, List.mem_append_right _ h, hLe⟩

theorem isCovered_cons_synced {seq i upto : Nat} {ok ok' : Bool} {history : History σ ι ω ε} :
    IsCovered seq ok (.synced i upto ok' :: history) ↔
      (ok' = ok ∧ seq ≤ upto) ∨ IsCovered seq ok history := by
  constructor
  · rintro ⟨j, u, hMem, hLe⟩
    rcases List.mem_cons.mp hMem with hHere | hOld
    · cases hHere
      exact Or.inl ⟨rfl, hLe⟩
    · exact Or.inr ⟨j, u, hOld, hLe⟩
  · rintro (⟨rfl, hLe⟩ | hOld)
    · exact ⟨i, upto, List.mem_cons_self, hLe⟩
    · exact hOld.mono [_]

theorem IsAnswered.mono {seq : Nat} {history : History σ ι ω ε} (h : IsAnswered seq history)
    (new : History σ ι ω ε) : IsAnswered seq (new ++ history) := by
  obtain ⟨i, c, answer, h⟩ := h
  exact ⟨i, c, answer, List.mem_append_right _ h⟩

theorem SyncedAfterAppend.mono {seq : Nat} {history : History σ ι ω ε}
    (h : SyncedAfterAppend seq history) (new : History σ ι ω ε) :
    SyncedAfterAppend seq (new ++ history) := by
  obtain ⟨later, i, upto, mid, before, rfl, h⟩ := h
  exact ⟨new ++ later, i, upto, mid, before, by rw [List.append_assoc], h⟩

theorem Began.mono {i : Thread} {upto : Nat} {history : History σ ι ω ε} (h : Began i upto history)
    {l : History σ ι ω ε} (hNew : ∀ m ∈ l, ¬ m.IsSyncOf i) : Began i upto (l ++ history) := by
  obtain ⟨mid, before, rfl, hMid, h⟩ := h
  refine ⟨l ++ mid, before, by rw [List.append_assoc], fun m hm => ?_, h⟩
  rcases List.mem_append.mp hm with hm | hm
  · exact hNew m hm
  · exact hMid m hm

theorem firstCovering_mono {seq : Nat} {ok : Bool} {history : History σ ι ω ε}
    (h : firstCovering seq history = some ok) (new : History σ ι ω ε) :
    firstCovering seq (new ++ history) = some ok := by
  rw [firstCovering, List.reverse_append, List.findSome?_append]
  change (firstCovering seq history).or _ = _
  rw [h, Option.some_or]

theorem isCovered_of_firstCovering {seq : Nat} {ok : Bool} {history : History σ ι ω ε}
    (h : firstCovering seq history = some ok) : IsCovered seq ok history := by
  obtain ⟨m, hm, hCovering⟩ := List.exists_of_findSome?_eq_some h
  rw [List.mem_reverse] at hm
  unfold Mark.covering? at hCovering
  split at hCovering
  · split at hCovering
    · next hLe =>
      cases hCovering
      exact ⟨_, _, hm, hLe⟩
    · cases hCovering
  · cases hCovering

/-- The first covering sync succeeded when one succeeded and none failed. -/
theorem firstCovering_eq_true {seq : Nat} {history : History σ ι ω ε}
    (hCovered : IsCovered seq true history) (hNone : ¬ IsCovered seq false history) :
    firstCovering seq history = some true := by
  cases hFirst : firstCovering seq history with
  | none =>
    obtain ⟨i, upto, hm, hLe⟩ := hCovered
    have hNot := List.findSome?_eq_none_iff.mp hFirst _ (List.mem_reverse.mpr hm)
    rw [Mark.covering?, if_pos hLe] at hNot
    cases hNot
  | some ok =>
    cases ok with
    | true => rfl
    | false => exact (hNone (isCovered_of_firstCovering hFirst)).elim

/-! ## Syncs -/

/-- How far the sync reaches that the thread is in. -/
def Phase.syncing? : Phase ι ε → Option Nat
  | .syncing _ _ u => some u
  | _ => none

@[simp] theorem Phase.syncing?_wake (phase : Phase ι ε) : phase.wake.syncing? = phase.syncing? := by
  cases phase <;> rfl

@[simp] theorem Phase.syncing?_unpark (phase : Phase ι ε) :
    phase.unpark.syncing? = phase.syncing? := by
  cases phase <;> rfl

/-- The watermarks and the syncs that led to them. -/
structure Syncs (g : GroupState) (phase : Thread → Phase ι ε)
    (history : History σ ι ω ε) : Prop where
  appended : ∀ s, 1 ≤ s → s ≤ g.appended → IsAppended s history
  began : ∀ i u, (phase i).syncing? = some u → Began i u history
  synced : ∀ s, 1 ≤ s → s ≤ g.durable → SyncedAfterAppend s history
  durable : ∀ s, 1 ≤ s → (s ≤ g.durable ↔ IsCovered s true history)
  failed : ∀ s, 1 ≤ s → (s ≤ g.failedUpto ↔ IsCovered s false history)

namespace Syncs

variable {g g' : GroupState} {phase phase' : Thread → Phase ι ε} {history : History σ ι ω ε}

theorem start (journal : BatchJournal) :
    Syncs (opened journal) (fun _ => (.outside : Phase ι ε)) ([] : History σ ι ω ε) := by
  have hNone : ∀ s ok, ¬ IsCovered s ok ([] : History σ ι ω ε) := by
    rintro s ok ⟨i, upto, h, -⟩
    cases h
  refine ⟨?_, nofun, ?_, ?_, ?_⟩
  · intro s hPos hLe
    exact (Nat.not_succ_le_zero 0 (Nat.le_trans hPos hLe)).elim
  · intro s hPos hLe
    exact (Nat.not_succ_le_zero 0 (Nat.le_trans hPos hLe)).elim
  · intro s hPos
    exact iff_of_false (fun hLe => Nat.not_succ_le_zero 0 (Nat.le_trans hPos hLe)) (hNone s true)
  · intro s hPos
    exact iff_of_false (fun hLe => Nat.not_succ_le_zero 0 (Nat.le_trans hPos hLe)) (hNone s false)

/-- A step that has to do with neither entries nor syncs. -/
theorem quiet (h : Syncs g phase history) (hAppended : g'.appended = g.appended)
    (hDurable : g'.durable = g.durable) (hFailed : g'.failedUpto = g.failedUpto)
    (hPhase : ∀ i u, (phase' i).syncing? = some u → (phase i).syncing? = some u) :
    Syncs g' phase' history := by
  constructor
  · rw [hAppended]
    exact h.appended
  · intro i u hu
    exact h.began i u (hPhase i u hu)
  · rw [hDurable]
    exact h.synced
  · rw [hDurable]
    exact h.durable
  · rw [hFailed]
    exact h.failed

theorem mark (h : Syncs g phase history) {m : Mark σ ι ω ε} (hm : m.Quiet) :
    Syncs g phase (m :: history) := by
  have hNot : ∀ i, ∀ m' ∈ [m], ¬ m'.IsSyncOf i := by
    intro i m' hMem hSync
    rw [List.mem_singleton] at hMem
    subst hMem
    cases m' <;> first | exact hm | exact hSync
  have hCovered : ∀ s ok, IsCovered s ok (m :: history) ↔ IsCovered s ok history := by
    intro s ok
    refine ⟨?_, fun hCov => hCov.mono [m]⟩
    rintro ⟨i, upto, hMem, hLe⟩
    rcases List.mem_cons.mp hMem with rfl | hOld
    · exact hm.elim
    · exact ⟨i, upto, hOld, hLe⟩
  constructor
  · exact fun s hPos hLe => (h.appended s hPos hLe).mono [m]
  · exact fun i u hu => (h.began i u hu).mono (hNot i)
  · exact fun s hPos hLe => (h.synced s hPos hLe).mono [m]
  · exact fun s hPos => (h.durable s hPos).trans (hCovered s true).symm
  · exact fun s hPos => (h.failed s hPos).trans (hCovered s false).symm

/-- An entry is appended. -/
theorem entered (h : Syncs g phase history) (i : Thread) (c : ι) {p : Phase ι ε}
    (hp : p.syncing? = none) :
    Syncs { g with appended := g.appended + 1 } (Function.update phase i p)
      (.appended i c (g.appended + 1) :: history) := by
  have hNot : ∀ j, ∀ m ∈ [Mark.appended (σ := σ) (ω := ω) (ε := ε) i c (g.appended + 1)],
      ¬ m.IsSyncOf j := by
    intro j m hm
    rw [List.mem_singleton] at hm
    rw [hm]
    exact id
  have hCovered : ∀ s ok, IsCovered s ok (.appended i c (g.appended + 1) :: history) ↔
      IsCovered s ok history := by
    intro s ok
    refine ⟨?_, fun hCov => hCov.mono [_]⟩
    rintro ⟨j, upto, hMem, hLe⟩
    rcases List.mem_cons.mp hMem with hHere | hOld
    · cases hHere
    · exact ⟨j, upto, hOld, hLe⟩
  constructor
  · intro s hPos hLe
    by_cases hLast : s = g.appended + 1
    · exact ⟨i, c, by rw [hLast]; exact List.mem_cons_self⟩
    · exact (h.appended s hPos (Nat.le_of_lt_succ (Nat.lt_of_le_of_ne hLe hLast))).mono [_]
  · exact (Function.forall_update_iff phase fun j q => ∀ u, q.syncing? = some u → Began j u _).mpr
      ⟨fun u hu => (nomatch hp.symm.trans hu),
        fun j _ u hu => (h.began j u hu).mono (hNot j)⟩
  · exact fun s hPos hLe => (h.synced s hPos hLe).mono [_]
  · exact fun s hPos => (h.durable s hPos).trans (hCovered s true).symm
  · exact fun s hPos => (h.failed s hPos).trans (hCovered s false).symm

/-- A sync begins that reaches no further than the entries. -/
theorem startSync (h : Syncs g phase history) (i : Thread) (c : ι) (seq : Nat) {upto : Nat}
    (hUpto : upto ≤ g.appended) :
    Syncs g (Function.update phase i (.syncing c seq upto)) (.syncBegan i :: history) := by
  have hCovered : ∀ s ok, IsCovered s ok (.syncBegan i :: history) ↔ IsCovered s ok history := by
    intro s ok
    refine ⟨?_, fun hCov => hCov.mono [_]⟩
    rintro ⟨j, u, hMem, hLe⟩
    rcases List.mem_cons.mp hMem with hHere | hOld
    · cases hHere
    · exact ⟨j, u, hOld, hLe⟩
  constructor
  · exact fun s hPos hLe => (h.appended s hPos hLe).mono [_]
  · refine (Function.forall_update_iff phase fun j q => ∀ u, q.syncing? = some u → Began j u _).mpr
      ⟨?_, fun j hj u hu => (h.began j u hu).mono (l := [_]) ?_⟩
    · rintro u ⟨⟩
      exact ⟨[], history, rfl, nofun, fun s hPos hLe => h.appended s hPos (Nat.le_trans hLe hUpto)⟩
    · intro m hm
      rw [List.mem_singleton] at hm
      rw [hm]
      exact Ne.symm hj
  · exact fun s hPos hLe => (h.synced s hPos hLe).mono [_]
  · exact fun s hPos => (h.durable s hPos).trans (hCovered s true).symm
  · exact fun s hPos => (h.failed s hPos).trans (hCovered s false).symm

/-- A sync returns, and its thread leaves it. -/
theorem finishSync (h : Syncs g phase history) {i : Thread} {upto : Nat} (ok : Bool)
    (hi : (phase i).syncing? = some upto) {p : Phase ι ε} (hp : p.syncing? = none) :
    Syncs (g.finishSync upto ok) (Function.update (fun j => (phase j).wake) i p)
      (.synced i upto ok :: history) := by
  have hFields : (g.finishSync upto ok).appended = g.appended ∧
      (g.finishSync upto ok).durable = (if ok then max g.durable upto else g.durable) ∧
      (g.finishSync upto ok).failedUpto = (if ok then g.failedUpto else max g.failedUpto upto) := by
    cases ok <;> exact ⟨rfl, rfl, rfl⟩
  obtain ⟨hAppended, hDurable, hFailed⟩ := hFields
  constructor
  · rw [hAppended]
    exact fun s hPos hLe => (h.appended s hPos hLe).mono [_]
  · refine (Function.forall_update_iff (fun j => (phase j).wake) fun j q =>
      ∀ u, q.syncing? = some u → Began j u _).mpr
        ⟨fun u hu => (nomatch hp.symm.trans hu), fun j hj u hu => ?_⟩
    rw [Phase.syncing?_wake] at hu
    refine (h.began j u hu).mono (l := [_]) fun m hm => ?_
    rw [List.mem_singleton] at hm
    rw [hm]
    exact Ne.symm hj
  · intro s hPos hLe
    by_cases hOld : s ≤ g.durable
    · exact (h.synced s hPos hOld).mono [_]
    · obtain ⟨rfl, hUpto⟩ : ok = true ∧ s ≤ upto := by
        rw [hDurable] at hLe
        cases ok with
        | false => exact (hOld hLe).elim
        | true => exact ⟨rfl, (le_max_iff.mp hLe).resolve_left hOld⟩
      obtain ⟨mid, before, rfl, hMid, hBefore⟩ := h.began i upto hi
      exact ⟨[], i, upto, mid, before, rfl, hMid, hBefore s hPos hUpto⟩
  · intro s hPos
    rw [hDurable, isCovered_cons_synced, ← h.durable s hPos]
    cases ok <;> simp [or_comm]
  · intro s hPos
    rw [hFailed, isCovered_cons_synced, ← h.failed s hPos]
    cases ok <;> simp [or_comm]

end Syncs

/-- The turn gate leaves the watermarks, and nobody in a sync. -/
theorem gate_quiet (g : GroupState) (i : Thread) (c : ι) (seq : Nat) (durable : Bool)
    {r : GroupState × Phase ι ε} (hr : gate g i c seq durable = r) : r.1.appended = g.appended ∧
      r.1.durable = g.durable ∧ r.1.failedUpto = g.failedUpto ∧ r.2.syncing? = none := by
  subst hr
  unfold gate
  split
  · exact ⟨rfl, rfl, rfl, rfl⟩
  · split <;> exact ⟨rfl, rfl, rfl, rfl⟩

theorem look_quiet (g : GroupState) (i : Thread) (c : ι) (seq : Nat) {r : GroupState × Phase ι ε}
    (hr : look g i c seq = r) : r.1.appended = g.appended ∧ r.1.durable = g.durable ∧
      r.1.failedUpto = g.failedUpto ∧ r.2.syncing? = none := by
  have hSettled := settled_look (ε := ε) g i c seq
  rw [hr] at hSettled
  cases hSettled with
  | asleep => exact ⟨rfl, rfl, rfl, rfl⟩
  | leading => exact ⟨rfl, rfl, rfl, rfl⟩
  | gated durable => exact gate_quiet g i c seq durable rfl

theorem syncing?_update {phase : Thread → Phase ι ε} {i : Thread} {p : Phase ι ε}
    (hp : p.syncing? = none) :
    ∀ j u, (Function.update phase i p j).syncing? = some u → (phase j).syncing? = some u :=
  (Function.forall_update_iff phase fun j q =>
    ∀ u, q.syncing? = some u → (phase j).syncing? = some u).mpr
      ⟨fun _ hu => (nomatch hp.symm.trans hu), fun _ _ _ => id⟩

theorem syncing?_unparkWaiter (waiter : Option Thread) (phase : Thread → Phase ι ε) (i : Thread) :
    (unparkWaiter waiter phase i).syncing? = (phase i).syncing? := by
  cases waiter with
  | none => rfl
  | some j =>
    rw [unparkWaiter_some]
    by_cases hi : i = j
    · rw [hi, Function.update_self, Phase.syncing?_unpark]
    · rw [Function.update_of_ne hi]

theorem afterApply_cases {c : ι} {seq : Nat} {result : Except (Stop ε) Bool} {p : Phase ι ε}
    (h : afterApply c seq result = some p) :
    p = .flushed c seq ∨ ∃ answer, p = .leaving c seq answer ∧
      ∀ e, answer ≠ .returned (.error (.journal e)) := by
  unfold afterApply at h
  split at h <;> cases h
  · exact Or.inl rfl
  · exact Or.inr ⟨_, rfl, nofun⟩
  · exact Or.inr ⟨_, rfl, nofun⟩
  · exact Or.inr ⟨_, rfl, nofun⟩

theorem Syncs.steps {S : Service σ ι ω ε} {w w' : World σ ι ω ε} {e : Event ι ω}
    (hTurns : Turns w.group w.phase) (h : Syncs w.group w.phase w.history)
    (hStep : Steps S w e w') : Syncs w'.group w'.phase w'.history := by
  have hSame : ∀ {i : Thread} {p : Phase ι ε}, p.syncing? = none →
      Syncs w.group (Function.update w.phase i p) w.history :=
    fun hp => h.quiet rfl rfl rfl (syncing?_update hp)
  cases hStep with
  | call | check | checked | wake | readUpto | unpark | kept => exact hSame rfl
  | refused =>
    apply Syncs.mark
    · apply hSame
      rfl
    · trivial
  | truncated =>
    apply Syncs.mark
    · exact h.quiet rfl rfl rfl (syncing?_update rfl)
    · trivial
  | @entered i c plan p hi hRun =>
    obtain ⟨hAppended, hDurable, hFailed, hPhase⟩ := look_quiet (ε := ε)
      { w.group with journal := p.self, appended := w.group.appended + 1 } i c
      (w.group.appended + 1) rfl
    exact (h.entered i c hPhase).quiet hAppended hDurable hFailed (fun _ _ => id)
  | torn =>
    apply Syncs.mark
    · apply Syncs.mark
      · exact h.quiet rfl rfl rfl (syncing?_update rfl)
      · trivial
    · trivial
  | enterCrashed | applyCrashed | truncateCrashed | wrote => exact h.mark trivial
  | @look i c seq hi =>
    obtain ⟨hAppended, hDurable, hFailed, hPhase⟩ := look_quiet (ε := ε) w.group i c seq rfl
    exact h.quiet hAppended hDurable hFailed (syncing?_update hPhase)
  | @startSync i c seq upto hi =>
    exact h.startSync i c seq (hTurns.upto i upto (by rw [hi]; rfl))
  | @finishSync i c seq upto ok hi =>
    obtain ⟨hAppended, hDurable, hFailed, hPhase⟩ :=
      look_quiet (ε := ε) (w.group.finishSync upto ok) i c seq rfl
    exact (h.finishSync ok (by rw [hi]; rfl) hPhase).quiet hAppended hDurable hFailed
      (fun _ _ => id)
  | @gate i c seq durable hi =>
    obtain ⟨hAppended, hDurable, hFailed, hPhase⟩ := gate_quiet (ε := ε) w.group i c seq durable rfl
    exact h.quiet hAppended hDurable hFailed (syncing?_update hPhase)
  | applied plan hi hNext =>
    apply Syncs.mark
    · rcases afterApply_cases hNext with rfl | ⟨answer, rfl, -⟩ <;> exact hSame rfl
    · trivial
  | release =>
    apply Syncs.mark
    · refine h.quiet rfl rfl rfl fun j u hu => ?_
      rw [← syncing?_unparkWaiter]
      exact syncing?_update rfl j u hu
    · trivial

end CommitGroup

end MultimodalDb
