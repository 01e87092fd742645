import MultimodalDb.Server.CommitGroupHistory
import MultimodalDb.Server.JournalTears

/-!
# What group commit guarantees

* `commit_order`: batches are applied in the order of their numbers and each once, each behind a
  sync that began after its append and succeeded; the journal is truncated only when no entry waits
  to be applied; and somebody inside can always go on.
* `verdicts`: a batch is applied exactly when its first covering sync succeeded; a batch refused for
  its sync was covered by one that failed. A later sync does not rescue it
  (`refused_although_covered`).
-/

namespace MultimodalDb

namespace CommitGroup

variable {σ ι ω ε : Type}

/-! ## Verdicts -/

/-- Not refused for the journal. -/
def Answer.passed : Answer ε → Bool
  | .returned (.error (.journal _)) => false
  | _ => true

/-- The number a thread holds, and whether its batch got past the durability loop, once that is
known. -/
def Phase.verdict? : Phase ι ε → Option (Nat × Bool)
  | .parked _ s durable | .unparked _ s durable => some (s, durable)
  | .applying _ s _ | .flushed _ s => some (s, true)
  | .leaving _ s answer => some (s, answer.passed)
  | _ => none

@[simp] theorem Phase.verdict?_wake (phase : Phase ι ε) : phase.wake.verdict? = phase.verdict? := by
  cases phase <;> rfl

@[simp] theorem Phase.verdict?_unpark (phase : Phase ι ε) :
    phase.unpark.verdict? = phase.verdict? := by
  cases phase <;> rfl

/-- What the syncs so far say about a verdict. -/
def Justified (history : History σ ι ω ε) (v : Nat × Bool) : Prop :=
  if v.2 then firstCovering v.1 history = some true else IsCovered v.1 false history

theorem Justified.mono {history : History σ ι ω ε} {v : Nat × Bool} (h : Justified history v)
    (new : History σ ι ω ε) : Justified (new ++ history) v := by
  unfold Justified at h ⊢
  split
  · next hTrue =>
    rw [if_pos hTrue] at h
    exact firstCovering_mono h new
  · next hFalse =>
    rw [if_neg hFalse] at h
    exact h.mono new

/-- A mark that answers no appended batch. -/
def Mark.Unanswered : Mark σ ι ω ε → Prop
  | .answered _ _ (some _) _ => False
  | _ => True

structure Verdicts (phase : Thread → Phase ι ε) (history : History σ ι ω ε) : Prop where
  verdict : ∀ i v, (phase i).verdict? = some v → Justified history v
  answered : ∀ i c seq answer before, (.answered i c (some seq) answer :: before) <:+ history →
    Justified before (seq, answer.passed)

namespace Verdicts

variable {phase phase' : Thread → Phase ι ε} {history : History σ ι ω ε}

theorem mark (h : Verdicts phase history) {m : Mark σ ι ω ε} (hm : m.Unanswered) :
    Verdicts phase (m :: history) := by
  refine ⟨fun i v hv => (h.verdict i v hv).mono [m], fun i c seq answer before hSuffix => ?_⟩
  rcases List.suffix_cons_iff.mp hSuffix with hHere | hOld
  · cases hHere
    exact hm.elim
  · exact h.answered i c seq answer before hOld

theorem replace (h : Verdicts phase history) {i : Thread} {p : Phase ι ε}
    (hp : ∀ v, p.verdict? = some v → Justified history v) :
    Verdicts (Function.update phase i p) history :=
  ⟨(Function.forall_update_iff phase fun _ q => ∀ v, q.verdict? = some v → Justified history v).mpr
    ⟨hp, fun j _ => h.verdict j⟩, h.answered⟩

theorem wakeAll (h : Verdicts phase history) : Verdicts (fun j => (phase j).wake) history :=
  ⟨by simpa only [Phase.verdict?_wake] using h.verdict, h.answered⟩

theorem unparkWaiter (h : Verdicts phase history) (waiter : Option Thread) :
    Verdicts (CommitGroup.unparkWaiter waiter phase) history := by
  cases waiter with
  | none => exact h
  | some j =>
    refine h.replace ?_
    rw [Phase.verdict?_unpark]
    exact h.verdict j

end Verdicts

theorem verdict?_gate (g : GroupState) (i : Thread) (c : ι) (seq : Nat) (durable : Bool) :
    (gate g i c seq durable : GroupState × Phase ι ε).2.verdict? = some (seq, durable) := by
  unfold gate
  split
  · rfl
  · split
    · next hDurable =>
      rw [hDurable]
      rfl
    · next hRefused =>
      rw [Bool.not_eq_true] at hRefused
      rw [hRefused]
      rfl

/-- What the durability loop decides is justified. -/
theorem justified_look {g : GroupState} {phase : Thread → Phase ι ε} {history : History σ ι ω ε}
    (h : Syncs g phase history) {i : Thread} {c : ι} {seq : Nat} (hPos : 1 ≤ seq)
    {r : GroupState × Phase ι ε} (hr : look g i c seq = r) {v : Nat × Bool}
    (hv : r.2.verdict? = some v) : Justified history v := by
  have hSettled := settled_look (ε := ε) g i c seq
  rw [hr] at hSettled
  cases hSettled with
  | asleep | leading => cases hv
  | gated durable hRefused hPassed =>
    rw [verdict?_gate, Option.some.injEq] at hv
    subst hv
    cases durable with
    | false => exact (h.failed seq hPos).mp (hRefused rfl)
    | true =>
      obtain ⟨hFailed, hDurable⟩ := hPassed rfl
      apply firstCovering_eq_true
      · exact (h.durable seq hPos).mp hDurable
      · intro hCovered
        have := (h.failed seq hPos).mpr hCovered
        omega

theorem Verdicts.steps {S : Service σ ι ω ε} {w w' : World σ ι ω ε} {e : Event ι ω}
    (hTurns : Turns w.group w.phase) (hSyncs : Syncs w.group w.phase w.history)
    (h : Verdicts w.phase w.history) (hStep : Steps S w e w') : Verdicts w'.phase w'.history := by
  cases hStep with
  | call | check | checked | wake | readUpto => exact h.replace nofun
  | refused =>
    apply Verdicts.mark
    · exact h.replace nofun
    · trivial
  | torn =>
    apply Verdicts.mark
    · apply Verdicts.mark
      · exact h.replace nofun
      · trivial
    · trivial
  | @entered i c plan p hi hRun =>
    have hMarked : Verdicts w.phase (.appended i c (w.group.appended + 1) :: w.history) :=
      h.mark trivial
    have hRise : ({ w.group with journal := p.self, appended := w.group.appended + 1 } :
        GroupState).appended =
        ({ w.group with appended := w.group.appended + 1 } : GroupState).appended := rfl
    have hNext := (hSyncs.entered i c (p := .outside) rfl).quiet hRise rfl rfl fun _ _ => id
    exact hMarked.replace fun v hv => justified_look hNext (Nat.le_add_left 1 _) rfl hv
  | enterCrashed | applyCrashed | truncateCrashed | wrote => exact h.mark trivial
  | @look i c seq hi =>
    have hRange := hTurns.range i seq (by rw [hi]; rfl)
    have hPos := hTurns.next_pos
    exact h.replace fun v hv => justified_look hSyncs (by omega) rfl hv
  | startSync =>
    apply Verdicts.mark
    · exact h.replace nofun
    · trivial
  | @finishSync i c seq upto ok hi =>
    have hMarked : Verdicts (fun j => (w.phase j).wake) (.synced i upto ok :: w.history) :=
      h.wakeAll.mark trivial
    have hNext := hSyncs.finishSync ok (by rw [hi]; rfl) (p := .outside) rfl
    have hRange := hTurns.range i seq (by rw [hi]; rfl)
    have hPos := hTurns.next_pos
    exact hMarked.replace fun v hv => justified_look hNext (by omega) rfl hv
  | unpark hi =>
    apply h.replace
    rintro v ⟨⟩
    exact h.verdict _ _ (by rw [hi]; rfl)
  | gate hi =>
    apply h.replace
    intro v hv
    rw [verdict?_gate, Option.some.injEq] at hv
    subst hv
    exact h.verdict _ _ (by rw [hi]; rfl)
  | @applied i c seq turn phase plan hi hNext =>
    have hHere : Justified w.history (seq, true) := h.verdict i _ (by rw [hi]; rfl)
    apply Verdicts.mark
    · apply h.replace
      intro v hv
      obtain rfl : v = (seq, true) := by
        rcases afterApply_cases hNext with rfl | ⟨answer, rfl, hAnswer⟩
        · cases hv
          rfl
        · cases hv
          refine Prod.ext rfl ?_
          match answer, hAnswer with
          | .returned (.error (.journal e)), hAnswer => exact (hAnswer e rfl).elim
          | .returned (.error (.apply _)), _ | .returned (.ok _), _ | .refused _, _
          | .panicked, _ => rfl
      exact hHere
    · trivial
  | kept plan hi hLast =>
    apply h.replace
    rintro v ⟨⟩
    exact h.verdict _ _ (by rw [hi]; rfl)
  | truncated hi hLast hRun =>
    apply Verdicts.mark
    · apply h.replace
      rintro v ⟨⟩
      exact h.verdict _ _ (by rw [hi]; rfl)
    · trivial
  | @release i c seq answer hi =>
    have hHere : Justified w.history (seq, answer.passed) := h.verdict i _ (by rw [hi]; rfl)
    have hPhase := (h.unparkWaiter (w.group.turnWaiters (w.group.nextApply + 1))).replace
      (i := i) (p := .outside) nofun
    refine ⟨fun j v hv => (hPhase.verdict j v hv).mono [_], fun j d s ans before hSuffix => ?_⟩
    rcases List.suffix_cons_iff.mp hSuffix with hHead | hOld
    · cases hHead
      exact hHere
    · exact h.answered j d s ans before hOld

/-! ## Applies -/

def Phase.isDone : Phase ι ε → Bool
  | .flushed _ _ | .leaving _ _ _ => true
  | _ => false

@[simp] theorem Phase.isDone_wake (phase : Phase ι ε) : phase.wake.isDone = phase.isDone := by
  cases phase <;> rfl

@[simp] theorem Phase.isDone_unpark (phase : Phase ι ε) : phase.unpark.isDone = phase.isDone := by
  cases phase <;> rfl

/-- What has been applied and answered, for the turn the group has come to. -/
structure Applies (g : GroupState) (phase : Thread → Phase ι ε) (crashed : Bool)
    (history : History σ ι ω ε) : Prop where
  order : (appliedSeqs history).Pairwise (· > ·)
  le_next : ∀ s ∈ appliedSeqs history, s ≤ g.nextApply ∧ s ≤ g.appended
  holder : crashed = false → ∀ i s, (phase i).seq? = some s → s ∈ appliedSeqs history →
    (phase i).isDone = true
  flushed : ∀ i c s, phase i = .flushed c s → s ∈ appliedSeqs history
  synced : ∀ i c s before after earlier, (.applied i c s before after :: earlier) <:+ history →
    SyncedAfterAppend s earlier ∧ firstCovering s earlier = some true
  answered : ∀ s, 1 ≤ s → s < g.nextApply → IsAnswered s history

@[simp] theorem appliedSeqs_applied (i : Thread) (c : ι) (seq : Nat) (before after : σ)
    (history : History σ ι ω ε) :
    appliedSeqs (.applied i c seq before after :: history) = seq :: appliedSeqs history := rfl

namespace Applies

variable {g g' : GroupState} {phase : Thread → Phase ι ε} {crashed : Bool}
variable {history : History σ ι ω ε}

theorem start (journal : BatchJournal) :
    Applies (opened journal) (fun _ => (.outside : Phase ι ε)) false ([] : History σ ι ω ε) where
  order := .nil
  le_next := nofun
  holder _ := nofun
  flushed := nofun
  synced _ _ _ _ _ _ h := nomatch List.suffix_nil.mp h
  answered _ hPos hLt := absurd (Nat.lt_of_le_of_lt hPos hLt) (Nat.lt_irrefl 1)

theorem mark (h : Applies g phase crashed history) {m : Mark σ ι ω ε} (hm : m.appliedSeq? = none) :
    Applies g phase crashed (m :: history) := by
  have hSeqs : appliedSeqs (m :: history) = appliedSeqs history := List.filterMap_cons_none hm
  constructor
  · rw [hSeqs]
    exact h.order
  · rw [hSeqs]
    exact h.le_next
  · rw [hSeqs]
    exact h.holder
  · rw [hSeqs]
    exact h.flushed
  · intro i c s before after earlier hSuffix
    rcases List.suffix_cons_iff.mp hSuffix with hHere | hOld
    · cases hHere
      cases hm
    · exact h.synced i c s before after earlier hOld
  · exact fun s hPos hLt => (h.answered s hPos hLt).mono [m]

theorem group (h : Applies g phase crashed history) (hNext : g'.nextApply = g.nextApply)
    (hAppended : g.appended ≤ g'.appended) : Applies g' phase crashed history := by
  refine ⟨h.order, fun s hs => ?_, h.holder, h.flushed, h.synced, ?_⟩
  · rw [hNext]
    exact ⟨(h.le_next s hs).1, Nat.le_trans (h.le_next s hs).2 hAppended⟩
  · rw [hNext]
    exact h.answered

theorem crash (h : Applies g phase crashed history) : Applies g phase true history :=
  ⟨h.order, h.le_next, nofun, h.flushed, h.synced, h.answered⟩

/-- A thread goes to a place where its number is not applied, or is done with. -/
theorem replace (h : Applies g phase crashed history) {i : Thread} {p : Phase ι ε}
    (hp : ∀ s, p.seq? = some s → crashed = false → s ∈ appliedSeqs history → p.isDone = true)
    (hFlushed : ∀ c s, p = .flushed c s → s ∈ appliedSeqs history) :
    Applies g (Function.update phase i p) crashed history := by
  refine ⟨h.order, h.le_next, fun hLive => ?_, ?_, h.synced, h.answered⟩
  · exact (Function.forall_update_iff phase fun _ q =>
      ∀ s, q.seq? = some s → s ∈ appliedSeqs history → q.isDone = true).mpr
        ⟨fun s hs => hp s hs hLive, fun j _ => h.holder hLive j⟩
  · exact (Function.forall_update_iff phase fun _ q =>
      ∀ c s, q = .flushed c s → s ∈ appliedSeqs history).mpr ⟨hFlushed, fun j _ => h.flushed j⟩

/-- A thread that is not done moves on with the number it holds. -/
theorem move (h : Applies g phase crashed history) {i : Thread} {p : Phase ι ε}
    (hSeq : ∀ s, p.seq? = some s → (phase i).seq? = some s) (hDone : (phase i).isDone = false)
    (hFlushed : ∀ c s, p ≠ .flushed c s) :
    Applies g (Function.update phase i p) crashed history := by
  refine h.replace (fun s hs hLive hApplied => ?_) fun c s hEq => (hFlushed c s hEq).elim
  rw [h.holder hLive i s (hSeq s hs) hApplied] at hDone
  cases hDone

theorem wakeAll (h : Applies g phase crashed history) :
    Applies g (fun j => (phase j).wake) crashed history := by
  refine ⟨h.order, h.le_next, ?_, fun i c s hEq => h.flushed i c s ?_, h.synced, h.answered⟩
  · simpa only [Phase.seq?_wake, Phase.isDone_wake] using h.holder
  · cases hPhase : phase i <;> rw [hPhase] at hEq <;> first | cases hEq; rfl | cases hEq

theorem unparkWaiter (h : Applies g phase crashed history) (waiter : Option Thread) :
    Applies g (CommitGroup.unparkWaiter waiter phase) crashed history := by
  cases waiter with
  | none => exact h
  | some j =>
    refine h.replace (fun s hs hLive hApplied => ?_) fun c s hEq => h.flushed j c s ?_
    · rw [Phase.seq?_unpark] at hs
      rw [Phase.isDone_unpark]
      exact h.holder hLive j s hs hApplied
    · cases hPhase : phase j <;> rw [hPhase] at hEq <;> first | cases hEq; rfl | cases hEq

/-- The batch whose turn it is is applied. -/
theorem applied (h : Applies g phase false history) (hTurns : Turns g phase)
    (hSyncs : Syncs g phase history) (hVerdicts : Verdicts phase history) {i : Thread} {c : ι}
    {seq : Nat} {turn : Turn} (hi : phase i = .applying c seq turn) (before after : σ) :
    Applies g phase true (.applied i c seq before after :: history) := by
  have hSeq : (phase i).seq? = some seq := by rw [hi]; rfl
  have hTurn : seq = g.nextApply := hTurns.turn i seq (by rw [hi]; rfl) hSeq
  have hRange := hTurns.range i seq hSeq
  have hNew : ∀ s ∈ appliedSeqs history, s < seq := by
    intro s hs
    rcases Nat.lt_or_eq_of_le (h.le_next s hs).1 with hLt | hEq
    · omega
    · have hDone := h.holder rfl i s (by rw [hSeq, hTurn, hEq]) hs
      rw [hi] at hDone
      cases hDone
  constructor
  · exact List.pairwise_cons.mpr ⟨hNew, h.order⟩
  · intro s hs
    rw [appliedSeqs_applied] at hs
    rcases List.mem_cons.mp hs with rfl | hOld
    · exact ⟨Nat.le_of_eq hTurn, hRange.2⟩
    · exact h.le_next s hOld
  · nofun
  · exact fun j d s hj => List.mem_cons_of_mem _ (h.flushed j d s hj)
  · intro j d s b a earlier hSuffix
    rcases List.suffix_cons_iff.mp hSuffix with hHere | hOld
    · cases hHere
      have hFirst := hVerdicts.verdict i (seq, true) (by rw [hi]; rfl)
      have hPos := hTurns.next_pos
      refine ⟨hSyncs.synced seq (by omega) ?_, hFirst⟩
      exact (hSyncs.durable seq (by omega)).mpr (isCovered_of_firstCovering hFirst)
    · exact h.synced j d s b a earlier hOld
  · exact fun s hPos hLt => (h.answered s hPos hLt).mono [_]

/-- And its thread goes on behind the apply. -/
theorem applied_move (h : Applies g phase false history) (hTurns : Turns g phase)
    (hSyncs : Syncs g phase history) (hVerdicts : Verdicts phase history) {i : Thread} {c : ι}
    {seq : Nat} {turn : Turn} (hi : phase i = .applying c seq turn) (before after : σ)
    {p : Phase ι ε} (hSeq : p.seq? = some seq) (hDone : p.isDone = true) :
    Applies g (Function.update phase i p) false (.applied i c seq before after :: history) := by
  have hNext := h.applied hTurns hSyncs hVerdicts hi before after
  have hHere : (phase i).seq? = some seq := by rw [hi]; rfl
  refine ⟨hNext.order, hNext.le_next, fun _ => ?_, ?_, hNext.synced, hNext.answered⟩
  · refine (Function.forall_update_iff phase fun _ q => ∀ s, q.seq? = some s →
      s ∈ appliedSeqs (.applied i c seq before after :: history) → q.isDone = true).mpr
        ⟨fun _ _ _ => hDone, fun j hj s hs hApplied => ?_⟩
    rw [appliedSeqs_applied] at hApplied
    rcases List.mem_cons.mp hApplied with rfl | hOld
    · exact (hj (hTurns.distinct j i _ hs hHere)).elim
    · exact h.holder rfl j s hs hOld
  · refine (Function.forall_update_iff phase fun _ q => ∀ d s, q = .flushed d s →
      s ∈ appliedSeqs (.applied i c seq before after :: history)).mpr
        ⟨fun d s hEq => ?_, fun j _ => hNext.flushed j⟩
    subst hEq
    cases hSeq
    exact List.mem_cons_self

/-- The thread whose turn it is answers and leaves. -/
theorem release (h : Applies g phase false history) (hTurns : Turns g phase) {i : Thread} {c : ι}
    {seq : Nat} {answer : Answer ε} (hi : phase i = .leaving c seq answer) :
    Applies g.release
      (Function.update
        (CommitGroup.unparkWaiter (g.turnWaiters (g.nextApply + 1)) phase) i .outside)
      false (.answered i c (some seq) answer :: history) := by
  have hTurn : seq = g.nextApply := hTurns.turn i seq (by rw [hi]; rfl) (by rw [hi]; rfl)
  have hMarked : Applies g phase false (.answered i c (some seq) answer :: history) := h.mark rfl
  have hLeft := (hMarked.unparkWaiter (g.turnWaiters (g.nextApply + 1))).replace (i := i)
    (p := .outside) nofun nofun
  refine ⟨hLeft.order, fun s hs => ?_, hLeft.holder, hLeft.flushed, hLeft.synced,
    fun s hPos hLt => ?_⟩
  · exact ⟨Nat.le_succ_of_le (hLeft.le_next s hs).1, (hLeft.le_next s hs).2⟩
  · rcases Nat.lt_or_eq_of_le (Nat.le_of_lt_succ hLt) with hOld | hHere
    · exact hLeft.answered s hPos hOld
    · exact ⟨i, c, answer, by rw [hHere, ← hTurn]; exact List.mem_cons_self⟩

/-- The turn gate never lets a batch be flushed, or be done without its turn. -/
theorem gate_seq (g : GroupState) (i : Thread) (c : ι) (seq : Nat) (durable : Bool)
    {r : GroupState × Phase ι ε} (hr : CommitGroup.gate g i c seq durable = r) :
    r.2.seq? = some seq ∧ (∀ d s, r.2 ≠ .flushed d s) ∧ r.1.nextApply = g.nextApply := by
  subst hr
  unfold CommitGroup.gate
  split
  · exact ⟨rfl, nofun, rfl⟩
  · split
    · exact ⟨rfl, nofun, rfl⟩
    · exact ⟨rfl, nofun, rfl⟩

theorem look_seq (g : GroupState) (i : Thread) (c : ι) (seq : Nat) {r : GroupState × Phase ι ε}
    (hr : CommitGroup.look g i c seq = r) :
    r.2.seq? = some seq ∧ (∀ d s, r.2 ≠ .flushed d s) ∧ r.1.nextApply = g.nextApply := by
  have hSettled := settled_look (ε := ε) g i c seq
  rw [hr] at hSettled
  cases hSettled with
  | asleep => exact ⟨rfl, nofun, rfl⟩
  | leading => exact ⟨rfl, nofun, rfl⟩
  | gated durable => exact gate_seq g i c seq durable rfl

theorem look (h : Applies g phase crashed history) {i : Thread} {c : ι} {seq : Nat}
    {r : GroupState × Phase ι ε} (hr : CommitGroup.look g i c seq = r)
    (hSeq : (phase i).seq? = some seq) (hDone : (phase i).isDone = false) :
    Applies r.1 (Function.update phase i r.2) crashed history := by
  obtain ⟨hSeq', hFlushed, hNext⟩ := look_seq g i c seq hr
  obtain ⟨hAppended, -⟩ := look_quiet g i c seq hr
  refine (h.move (fun s hs => ?_) hDone hFlushed).group hNext (Nat.le_of_eq hAppended.symm)
  rw [hSeq, ← hSeq', hs]

theorem steps {S : Service σ ι ω ε} {w w' : World σ ι ω ε} {e : Event ι ω}
    (hLive : w.crashed = false)
    (hTurns : Turns w.group w.phase) (hSyncs : Syncs w.group w.phase w.history)
    (hVerdicts : Verdicts w.phase w.history) (h : Applies w.group w.phase w.crashed w.history)
    (hStep : Steps S w e w') : Applies w'.group w'.phase w'.crashed w'.history := by
  cases hStep with
  | call | check | checked => exact h.replace nofun nofun
  | refused =>
    apply Applies.mark
    · exact h.replace nofun nofun
    · rfl
  | @torn i c plan e p hi hRun =>
    have hOut : Applies w.group (Function.update w.phase i .outside) w.crashed w.history :=
      h.replace nofun nofun
    apply Applies.mark
    · apply Applies.mark
      · exact hOut.group rfl (Nat.le_refl _)
      · rfl
    · rfl
  | @entered i c plan p hi hRun =>
    obtain ⟨hSeq, hFlushed, hNext⟩ := look_seq (ε := ε)
      { w.group with journal := p.self, appended := w.group.appended + 1 } i c
      (w.group.appended + 1) rfl
    obtain ⟨hAppended, -⟩ := look_quiet (ε := ε)
      { w.group with journal := p.self, appended := w.group.appended + 1 } i c
      (w.group.appended + 1) rfl
    have hMarked : Applies w.group w.phase w.crashed
        (.appended i c (w.group.appended + 1) :: w.history) := h.mark rfl
    refine (hMarked.replace (fun s hs _ hApplied => ?_) fun d s hEq =>
      (hFlushed d s hEq).elim).group
      hNext (Nat.le_trans (Nat.le_succ _) (Nat.le_of_eq hAppended.symm))
    rw [hSeq, Option.some.injEq] at hs
    have := (hMarked.le_next s hApplied).2
    omega
  | enterCrashed | truncateCrashed =>
    apply Applies.mark
    · exact h.crash
    · rfl
  | wrote =>
    apply Applies.mark
    · exact h
    · rfl
  | wake hi | readUpto hi | unpark hi =>
    exact h.move (fun s hs => by rw [hi]; exact hs) (by rw [hi]; rfl) nofun
  | @look i c seq hi => exact h.look rfl (by rw [hi]; rfl) (by rw [hi]; rfl)
  | startSync hi =>
    apply Applies.mark
    · exact h.move (fun s hs => by rw [hi]; exact hs) (by rw [hi]; rfl) nofun
    · rfl
  | @finishSync i c seq upto ok hi =>
    have hMarked : Applies (w.group.finishSync upto ok) (fun j => (w.phase j).wake) w.crashed
        (.synced i upto ok :: w.history) := by
      apply Applies.mark
      · cases ok <;> exact h.wakeAll.group rfl (Nat.le_refl _)
      · rfl
    exact hMarked.look rfl (by rw [hi]; rfl) (by rw [hi]; rfl)
  | @gate i c seq durable hi =>
    obtain ⟨hSeq, hFlushed, hNext⟩ := gate_seq (ε := ε) w.group i c seq durable rfl
    obtain ⟨hAppended, -⟩ := gate_quiet (ε := ε) w.group i c seq durable rfl
    refine (h.move (fun s hs => ?_) (by rw [hi]; rfl) hFlushed).group hNext
      (Nat.le_of_eq hAppended.symm)
    rw [hi, ← hs, hSeq]
    rfl
  | @applied i c seq turn phase plan hi hNext =>
    rw [hLive] at h
    change Applies _ _ w.crashed _
    rw [hLive]
    refine h.applied_move hTurns hSyncs hVerdicts hi _ _ ?_ ?_
    · rcases afterApply_cases hNext with rfl | ⟨answer, rfl, -⟩ <;> rfl
    · rcases afterApply_cases hNext with rfl | ⟨answer, rfl, -⟩ <;> rfl
  | @applyCrashed i c seq turn plan hi hNext =>
    rw [hLive] at h
    exact h.applied hTurns hSyncs hVerdicts hi _ _
  | kept plan hi hLast => exact h.replace (fun _ _ _ _ => rfl) nofun
  | @truncated i c seq plan hi hLast journal disk hRun =>
    have hNext : Applies w.group (Function.update w.phase i (.leaving c seq (.returned (.ok ()))))
        w.crashed w.history := h.replace (fun _ _ _ _ => rfl) nofun
    apply Applies.mark
    · exact hNext.group rfl (Nat.le_refl _)
    · rfl
  | release hi =>
    rw [hLive] at h
    change Applies _ _ w.crashed _
    rw [hLive]
    exact h.release hTurns hi

end Applies

/-! ## Runs -/

structure Invariant (w : World σ ι ω ε) : Prop where
  turns : Turns w.group w.phase
  syncs : Syncs w.group w.phase w.history
  verdicts : Verdicts w.phase w.history
  applies : Applies w.group w.phase w.crashed w.history

theorem Invariant.start (journal : BatchJournal) (disk : Disk) (store : σ) :
    Invariant (World.start journal disk store : World σ ι ω ε) :=
  ⟨.opened journal, .start journal, ⟨nofun, fun _ _ _ _ _ h => nomatch List.suffix_nil.mp h⟩,
    .start journal⟩

theorem Invariant.step {S : Service σ ι ω ε} {w w' : World σ ι ω ε} {e : Event ι ω}
    (h : Invariant w) (hStep : CommitGroup.step S w e = some w') : Invariant w' := by
  have hSteps := steps_of_step hStep
  constructor
  · exact h.turns.steps hSteps
  · exact h.syncs.steps h.turns hSteps
  · exact h.verdicts.steps h.turns h.syncs hSteps
  · exact h.applies.steps (live_of_step hStep) h.turns h.syncs h.verdicts hSteps

theorem invariant_of_reachable {S : Service σ ι ω ε} {journal : BatchJournal}
    {disk : Disk} {store : σ}
    {w : World σ ι ω ε} (h : Machine.Reachable (step S) (World.start journal disk store) w) :
    Invariant w :=
  h.invariant (Invariant.start journal disk store) fun _ _ _ _ hInv _ hStep => hInv.step hStep

/-- A thread may take it without having been notified. -/
def Action.spurious : Action ι → Bool
  | .wake | .unpark => true
  | _ => false

theorem step_of_not_blocked (S : Service σ ι ω ε) {w : World σ ι ω ε} (hLive : w.crashed = false)
    {i : Thread} (hInside : (w.phase i).inside = true) (hFree : (w.phase i).blocked = false) :
    ∃ a : Action ι, a.spurious = false ∧ (step S w (.act i a)).isSome = true := by
  have hStep : ∀ a, step S w (.act i a) = w.act S i (w.phase i) a := by
    intro a
    rw [step, hLive]
    rfl
  simp only [hStep]
  cases hPhase : w.phase i with
  | outside | validating => rw [hPhase] at hInside; cases hInside
  | asleep | parked => rw [hPhase] at hFree; cases hFree
  | entering c => exact ⟨.enter [], rfl, rfl⟩
  | awake c seq => exact ⟨.look, rfl, rfl⟩
  | leading c seq => exact ⟨.readUpto, rfl, rfl⟩
  | covering c seq upto => exact ⟨.startSync, rfl, rfl⟩
  | syncing c seq upto => exact ⟨.finishSync true, rfl, rfl⟩
  | unparked c seq durable => exact ⟨.gate, rfl, rfl⟩
  | applying c seq turn => exact ⟨.apply [], rfl, rfl⟩
  | flushed c seq => exact ⟨.truncate [], rfl, rfl⟩
  | leaving c seq answer => exact ⟨.release, rfl, rfl⟩

theorem append_grows (batch : Batch) (j : BatchJournal) (d : Disk) (plan : List Outcome) :
    BatchJournal.fileLength j.path d ≤ BatchJournal.fileLength j.path
      (Method.final (BatchJournal.appendUnsynced batch ⟨j, d, plan⟩)).disk := by
  have hExtend : ∀ bytes, BatchJournal.fileLength j.path d ≤
      BatchJournal.fileLength j.path (d.extend j.path bytes) := by
    intro bytes
    rw [BatchJournal.fileLength, BatchJournal.fileLength, Disk.extend_self]
    cases d j.path with
    | none => exact Nat.le_refl _
    | some old =>
      rw [Option.map_some, Option.getD_some, Option.getD_some, List.length_append]
      exact Nat.le_add_right _ _
  refine Method.wp.final (P := fun _ d' =>
    BatchJournal.fileLength j.path d ≤ BatchJournal.fileLength j.path d') ?_ plan
  apply BatchJournal.wp_appendUnsynced
  · exact fun f _ => hExtend f.bytes
  · exact fun _ _ _ => Nat.le_refl _
  · exact fun f _ n _ => hExtend (f.bytes.take n)

/-- Only a truncation makes the journal shorter, and only one of the last batch, in its turn. -/
theorem flushed_of_shorter {S : Service σ ι ω ε} {w w' : World σ ι ω ε} {e : Event ι ω}
    (h : Steps S w e w') (hShorter : BatchJournal.fileLength w.group.journal.path w'.disk <
      BatchJournal.fileLength w.group.journal.path w.disk) :
    ∃ i c, w.phase i = .flushed c w.group.appended := by
  cases h with
  | @entered i c plan p hi hRun | @torn i c plan e p hi hRun | @enterCrashed i c plan e p hi hRun =>
    have hGrows := append_grows (S.batch c) w.group.journal w.disk plan
    rw [hRun] at hGrows
    exact absurd hShorter (Nat.not_lt.mpr hGrows)
  | truncated hi hLast | truncateCrashed hi hLast => exact ⟨_, _, by rw [hi, hLast]⟩
  | _ => exact absurd hShorter (Nat.lt_irrefl _)

/-- **Order and safety of group commit.** Batches are applied in the order of their numbers, each
once, each behind a sync that began after its append and succeeded; the journal only gets shorter
when every entry in it has been applied or its batch answered; and when somebody is inside, somebody
inside has something to do that needs nobody else. -/
theorem commit_order {S : Service σ ι ω ε} {journal : BatchJournal} {disk : Disk} {store : σ}
    {w : World σ ι ω ε} (h : Machine.Reachable (step S) (World.start journal disk store) w) :
    (appliedSeqs w.history).Pairwise (· > ·) ∧
      (∀ i c seq before after earlier, (.applied i c seq before after :: earlier) <:+ w.history →
        SyncedAfterAppend seq earlier) ∧
      (∀ e w', step S w e = some w' → BatchJournal.fileLength w.group.journal.path w'.disk <
          BatchJournal.fileLength w.group.journal.path w.disk →
        ∀ seq, 1 ≤ seq → seq ≤ w.group.appended →
          seq ∈ appliedSeqs w.history ∨ IsAnswered seq w.history) ∧
      (w.crashed = false → ∀ i, (w.phase i).inside = true →
        ∃ j a, (w.phase j).inside = true ∧ a.spurious = false ∧
          (step S w (.act j a)).isSome = true) := by
  have hInv := invariant_of_reachable h
  refine ⟨hInv.applies.order, fun i c seq before after earlier hMark =>
    (hInv.applies.synced i c seq before after earlier hMark).1,
    fun e w' hStep hShorter seq hPos hLe => ?_, fun hLive i hInside => ?_⟩
  · obtain ⟨i, c, hi⟩ := flushed_of_shorter (steps_of_step hStep) hShorter
    have hTurn := hInv.turns.turn i w.group.appended (by rw [hi]; rfl) (by rw [hi]; rfl)
    rcases Nat.lt_or_eq_of_le hLe with hLt | rfl
    · exact Or.inr (hInv.applies.answered seq hPos (hTurn ▸ hLt))
    · exact Or.inl (hInv.applies.flushed i c _ hi)
  · obtain ⟨j, hIn, hFree⟩ := hInv.turns.not_blocked hInside
    obtain ⟨a, hReal, hSome⟩ := step_of_not_blocked S hLive hIn hFree
    exact ⟨j, a, hIn, hReal, hSome⟩

/-- A store of nothing, for examples. -/
def sampleService : Service Unit Batch Unit Unit where
  batch c := c
  validate _ _ _ := .done
  apply _ _ _ s := (.ok false, s)
  write _ s := s

def sampleStart : World Unit Batch Unit Unit :=
  World.start ⟨BatchJournal.samplePath, HEADER_LEN⟩
    (Function.update (fun _ => none) BatchJournal.samplePath (some (BatchJournal.image []))) ()

/-- A thread calls with an empty batch, and its entry is appended. -/
def comes (i : Thread) : List (Event Batch Unit) :=
  [.act i (.call []), .act i .check, .act i (.enter [])]

def syncs (i : Thread) (ok : Bool) : List (Event Batch Unit) :=
  [.act i .readUpto, .act i .startSync, .act i (.finishSync ok)]

/-- A sync covers two threads, and both apply. -/
def sampleEvents : List (Event Batch Unit) :=
  comes 1 ++ comes 2 ++ syncs 1 true ++
    [.act 2 .look, .act 1 (.apply []), .act 1 .release, .act 2 .gate, .act 2 (.apply [])]

theorem commit_order_sample :
    ∃ w : World Unit Batch Unit Unit,
      Machine.run (step sampleService) sampleStart sampleEvents = some w ∧
      appliedSeqs w.history = [2, 1] ∧ (appliedSeqs w.history).Pairwise (· > ·) := by
  have hRun : Machine.run (step sampleService) sampleStart sampleEvents = some _ := rfl
  exact ⟨_, hRun, rfl, (commit_order (Machine.runs_of_run hRun)).1⟩

/-- **Verdicts of group commit.** A batch refused for its sync was covered by a sync that failed; a
batch is applied only when the first sync that covered it and came back succeeded; and when that one
failed, the batch is refused whatever came back later. -/
theorem verdicts {S : Service σ ι ω ε} {journal : BatchJournal} {disk : Disk} {store : σ}
    {w : World σ ι ω ε} (h : Machine.Reachable (step S) (World.start journal disk store) w) :
    (∀ i c seq e before,
        (.answered i c (some seq) (.returned (.error (.journal e))) :: before) <:+ w.history →
          IsCovered seq false before) ∧
      (∀ i c seq store store' before, (.applied i c seq store store' :: before) <:+ w.history →
        firstCovering seq before = some true) ∧
      (∀ i c seq answer before, (.answered i c (some seq) answer :: before) <:+ w.history →
        firstCovering seq before = some false → ∃ e, answer = .returned (.error (.journal e))) := by
  have hInv := invariant_of_reachable h
  refine ⟨fun i c seq e before hMark => ?_, fun i c seq store store' before hMark => ?_,
    fun i c seq answer before hMark hFirst => ?_⟩
  · exact hInv.verdicts.answered i c seq _ before hMark
  · exact (hInv.applies.synced i c seq store store' before hMark).2
  · have hJustified := hInv.verdicts.answered i c seq answer before hMark
    match answer with
    | .returned (.error (.journal e)) => exact ⟨e, rfl⟩
    | .returned (.error (.apply _)) | .returned (.ok _) | .refused _ | .panicked =>
      exact absurd (hFirst.symm.trans hJustified) (by decide)

/-- A leader's sync fails for two threads, and a third one's succeeds before the second looks. -/
def refusedEvents : List (Event Batch Unit) :=
  comes 1 ++ comes 2 ++ syncs 1 false ++ comes 3 ++ syncs 3 true ++
    [.act 2 .look, .act 1 .release, .act 2 .gate, .act 2 .release]

/-- The two threads are refused, and the third one's batch is applied. -/
theorem verdicts_sample :
    ∃ w : World Unit Batch Unit Unit, Machine.run (step sampleService) sampleStart
        (refusedEvents ++ [.act 3 .gate, .act 3 (.apply []), .act 3 .release]) = some w ∧
      (∃ e before, (.answered 2 [] (some 2) (.returned (.error (.journal e))) :: before)
        <:+ w.history ∧ IsCovered 2 false before) ∧
      ∃ before, (.applied 3 [] 3 () () :: before) <:+ w.history ∧
        firstCovering 3 before = some true := by
  have hRun : Machine.run (step sampleService) sampleStart
      (refusedEvents ++ [.act 3 .gate, .act 3 (.apply []), .act 3 .release]) = some _ := rfl
  obtain ⟨hRefused, hApplied, -⟩ := verdicts (Machine.runs_of_run hRun)
  exact ⟨_, hRun, ⟨syncFailed, _, ⟨[_, _], rfl⟩, hRefused 2 [] 2 syncFailed _ ⟨[_, _], rfl⟩⟩,
    _, ⟨[_], rfl⟩, hApplied 3 [] 3 () () _ ⟨[_], rfl⟩⟩
/-- A batch is refused although a sync that covered it had succeeded by then. -/
theorem refused_although_covered :
    ¬ ∀ (S : Service Unit Batch Unit Unit) journal disk (w : World Unit Batch Unit Unit),
      Machine.Reachable (step S) (World.start journal disk ()) w →
        ∀ i c seq e before,
          (.answered i c (some seq) (.returned (.error (.journal e))) :: before) <:+ w.history →
            ¬ IsCovered seq true before := by
  intro hClaim
  have hRun : Machine.run (step sampleService) sampleStart refusedEvents = some _ := rfl
  refine hClaim sampleService _ _ _ (Machine.runs_of_run hRun) 2 [] 2 syncFailed _
    (List.suffix_refl _) ⟨3, 3, ?_, by decide⟩
  exact List.mem_cons_of_mem _ List.mem_cons_self

end CommitGroup

end MultimodalDb
