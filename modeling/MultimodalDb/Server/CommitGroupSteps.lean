import MultimodalDb.Server.CommitGroup
import Mathlib.Tactic.Common

/-!
# What the threads of a commit group can do

`Steps` says it once for each kind of step, with its guard and what it leaves (`steps_of_step`), and
`Settled` does the same for what a thread decides under the lock. `Turns` is the invariant that ties
the counters to the places the threads are in: the sequence numbers from the next turn to the last
entry are each held by exactly one thread, a sync is in flight exactly when one thread leads it, and
whoever is parked is registered to be unparked. Every step keeps it (`Turns.steps`), and it leaves
nobody inside blocked unless somebody else can go on (`Turns.not_blocked`).
-/

namespace MultimodalDb

namespace CommitGroup

variable {σ ι ω ε : Type}

/-! ## Places -/

namespace Phase

/-- The sequence number a thread holds. -/
def seq? : Phase ι ε → Option Nat
  | .asleep _ s | .awake _ s | .leading _ s | .covering _ s _ | .syncing _ s _ | .parked _ s _
  | .unparked _ s _ | .applying _ s _ | .flushed _ s | .leaving _ s _ => some s
  | _ => none

/-- Inside `commit`. -/
def inside : Phase ι ε → Bool
  | .outside | .validating _ _ => false
  | _ => true

def isAsleep : Phase ι ε → Bool
  | .asleep _ _ => true
  | _ => false

def isParked : Phase ι ε → Bool
  | .parked _ _ _ => true
  | _ => false

def leads : Phase ι ε → Bool
  | .leading _ _ | .covering _ _ _ | .syncing _ _ _ => true
  | _ => false

def inTurn : Phase ι ε → Bool
  | .applying _ _ _ | .flushed _ _ | .leaving _ _ _ => true
  | _ => false

/-- How far the sync reaches that a thread leads. -/
def upto? : Phase ι ε → Option Nat
  | .covering _ _ u | .syncing _ _ u => some u
  | _ => none

/-- Waiting for another thread. -/
def blocked (phase : Phase ι ε) : Bool := phase.isAsleep || phase.isParked

variable (phase : Phase ι ε)

@[simp] theorem seq?_wake : phase.wake.seq? = phase.seq? := by cases phase <;> rfl

@[simp] theorem leads_wake : phase.wake.leads = phase.leads := by cases phase <;> rfl

@[simp] theorem inTurn_wake : phase.wake.inTurn = phase.inTurn := by cases phase <;> rfl

@[simp] theorem upto?_wake : phase.wake.upto? = phase.upto? := by cases phase <;> rfl

@[simp] theorem isAsleep_wake : phase.wake.isAsleep = false := by cases phase <;> rfl

@[simp] theorem seq?_unpark : phase.unpark.seq? = phase.seq? := by cases phase <;> rfl

@[simp] theorem leads_unpark : phase.unpark.leads = phase.leads := by cases phase <;> rfl

@[simp] theorem inTurn_unpark : phase.unpark.inTurn = phase.inTurn := by cases phase <;> rfl

@[simp] theorem upto?_unpark : phase.unpark.upto? = phase.upto? := by cases phase <;> rfl

@[simp] theorem isAsleep_unpark : phase.unpark.isAsleep = phase.isAsleep := by cases phase <;> rfl

@[simp] theorem isParked_unpark : phase.unpark.isParked = false := by cases phase <;> rfl

@[simp] theorem isParked_wake : phase.wake.isParked = phase.isParked := by cases phase <;> rfl

end Phase

theorem unparkWaiter_some (j : Thread) (phase : Thread → Phase ι ε) :
    unparkWaiter (some j) phase = Function.update phase j (phase j).unpark := rfl

theorem unparkWaiter_of_unpark {waiter : Option Thread} {phase : Thread → Phase ι ε} {i : Thread}
    (h : (phase i).unpark = phase i) : unparkWaiter waiter phase i = phase i := by
  cases waiter with
  | none => rfl
  | some j =>
    rw [unparkWaiter_some]
    by_cases hj : i = j
    · rw [← hj, Function.update_self, h]
    · rw [Function.update_of_ne hj]

/-! ## Decisions under the lock -/

/-- What the durability loop and the turn gate can decide for a batch. -/
inductive Settled (g : GroupState) (i : Thread) (c : ι) (seq : Nat) :
    GroupState × Phase ι ε → Prop where
  | asleep (hFailed : g.failedUpto < seq) (hDurable : g.durable < seq) (hSync : g.syncing = true) :
    Settled g i c seq (g, .asleep c seq)
  | leading (hFailed : g.failedUpto < seq) (hDurable : g.durable < seq)
    (hSync : g.syncing = false) :
    Settled g i c seq ({ g with syncing := true }, .leading c seq)
  | gated (durable : Bool) (hRefused : durable = false → seq ≤ g.failedUpto)
    (hPassed : durable = true → g.failedUpto < seq ∧ seq ≤ g.durable) :
    Settled g i c seq (gate g i c seq durable)

theorem settled_look (g : GroupState) (i : Thread) (c : ι) (seq : Nat) :
    Settled g i c seq (look g i c seq : GroupState × Phase ι ε) := by
  unfold look
  split
  · next hFailed => exact .gated false (fun _ => hFailed) nofun
  · next hFailed =>
    split
    · next hDurable => exact .gated true nofun (fun _ => ⟨by omega, hDurable⟩)
    · next hDurable =>
      split
      · next hSync => exact .asleep (by omega) (by omega) hSync
      · next hSync => exact .leading (by omega) (by omega) (by simpa using hSync)

/-! ## Steps -/

/-- What one step can do. -/
inductive Steps (S : Service σ ι ω ε) (w : World σ ι ω ε) : Event ι ω → World σ ι ω ε → Prop where
  | call {i} (c : ι) (h : w.phase i = .outside) :
    Steps S w (.act i (.call c)) (w.goto i (.validating c 0))
  | check {i c op} (h : w.phase i = .validating c op) (hCheck : S.validate c op w.store = .next) :
    Steps S w (.act i .check) (w.goto i (.validating c (op + 1)))
  | checked {i c op} (h : w.phase i = .validating c op) (hCheck : S.validate c op w.store = .done) :
    Steps S w (.act i .check) (w.goto i (.entering c))
  | refused {i c op e} (h : w.phase i = .validating c op)
    (hCheck : S.validate c op w.store = .refused e) :
    Steps S w (.act i .check) ((w.mark (.answered i c none (.refused e))).goto i .outside)
  | entered {i c plan p} (h : w.phase i = .entering c)
    (hRun : BatchJournal.appendUnsynced (S.batch c) ⟨w.group.journal, w.disk, plan⟩ = .ok () p) :
    Steps S w (.act i (.enter plan))
      (({ w with disk := p.disk }.mark (.appended i c (w.group.appended + 1))).settle i
        (look { w.group with journal := p.self, appended := w.group.appended + 1 } i c
          (w.group.appended + 1)))
  | torn {i c plan e p} (h : w.phase i = .entering c)
    (hRun : BatchJournal.appendUnsynced (S.batch c) ⟨w.group.journal, w.disk, plan⟩ =
      .error (.error e) p) :
    Steps S w (.act i (.enter plan))
      ((({ w with disk := p.disk }.mark (.torn i c)).mark
        (.answered i c none (.returned (.error (.journal e))))).settle i
          ({ w.group with journal := p.self }, .outside))
  | enterCrashed {i c plan e p} (h : w.phase i = .entering c)
    (hRun : BatchJournal.appendUnsynced (S.batch c) ⟨w.group.journal, w.disk, plan⟩ = .error e p) :
    Steps S w (.act i (.enter plan)) ({ w with disk := p.disk, crashed := true }.mark (.torn i c))
  | wake {i c seq} (h : w.phase i = .asleep c seq) :
    Steps S w (.act i .wake) (w.goto i (.awake c seq))
  | look {i c seq} (h : w.phase i = .awake c seq) :
    Steps S w (.act i .look) (w.settle i (CommitGroup.look w.group i c seq))
  | readUpto {i c seq} (h : w.phase i = .leading c seq) :
    Steps S w (.act i .readUpto) (w.goto i (.covering c seq w.group.appended))
  | startSync {i c seq upto} (h : w.phase i = .covering c seq upto) :
    Steps S w (.act i .startSync) ((w.mark (.syncBegan i)).goto i (.syncing c seq upto))
  | finishSync {i c seq upto} (ok : Bool) (h : w.phase i = .syncing c seq upto) :
    Steps S w (.act i (.finishSync ok)) (w.finishSync i c seq upto ok)
  | unpark {i c seq durable} (h : w.phase i = .parked c seq durable) :
    Steps S w (.act i .unpark) (w.goto i (.unparked c seq durable))
  | gate {i c seq durable} (h : w.phase i = .unparked c seq durable) :
    Steps S w (.act i .gate) (w.settle i (CommitGroup.gate w.group i c seq durable))
  | applied {i c seq turn phase} (plan : List Outcome) (h : w.phase i = .applying c seq turn)
    (hNext : afterApply c seq (S.apply c turn plan w.store).1 = some phase) :
    Steps S w (.act i (.apply plan))
      (({ w with store := (S.apply c turn plan w.store).2 }.mark
        (.applied i c seq w.store (S.apply c turn plan w.store).2)).goto i phase)
  | applyCrashed {i c seq turn} (plan : List Outcome) (h : w.phase i = .applying c seq turn)
    (hNext : afterApply c seq (S.apply c turn plan w.store).1 = none) :
    Steps S w (.act i (.apply plan))
      { { w with store := (S.apply c turn plan w.store).2 }.mark
        (.applied i c seq w.store (S.apply c turn plan w.store).2) with crashed := true }
  | kept {i c seq} (plan : List Outcome) (h : w.phase i = .flushed c seq)
    (hLast : w.group.appended ≠ seq) :
    Steps S w (.act i (.truncate plan)) (w.goto i (.leaving c seq (.returned (.ok ()))))
  | truncated {i c seq plan} (h : w.phase i = .flushed c seq) (hLast : w.group.appended = seq)
    {journal : BatchJournal} {disk : Disk}
    (hRun : journal = (Method.final (BatchJournal.truncate ⟨w.group.journal, w.disk, plan⟩)).self ∧
      disk = (Method.final (BatchJournal.truncate ⟨w.group.journal, w.disk, plan⟩)).disk) :
    Steps S w (.act i (.truncate plan))
      (({ w with disk := disk }.mark (.truncated i)).settle i
        ({ w.group with journal := journal }, .leaving c seq (.returned (.ok ()))))
  | truncateCrashed {i c seq plan} (h : w.phase i = .flushed c seq) (hLast : w.group.appended = seq)
    {disk : Disk}
    (hRun : disk = (Method.final (BatchJournal.truncate ⟨w.group.journal, w.disk, plan⟩)).disk) :
    Steps S w (.act i (.truncate plan))
      ({ w with disk := disk, crashed := true }.mark (.truncated i))
  | release {i c seq answer} (h : w.phase i = .leaving c seq answer) :
    Steps S w (.act i .release) (w.release i c seq answer)
  | wrote (x : ω) :
    Steps S w (.write x)
      ({ w with store := S.write x w.store }.mark (.wrote x w.store (S.write x w.store)))

theorem steps_enter (S : Service σ ι ω ε) (w : World σ ι ω ε) {i : Thread} {c : ι}
    (h : w.phase i = .entering c) (plan : List Outcome) :
    Steps S w (.act i (.enter plan)) (w.enter S i c plan) := by
  unfold World.enter
  split
  · next hRun => exact .entered h hRun
  · next hRun => exact .torn h hRun
  · next hRun => exact .enterCrashed h hRun

theorem steps_apply (S : Service σ ι ω ε) (w : World σ ι ω ε) {i : Thread} {c : ι} {seq : Nat}
    {turn : Turn} (h : w.phase i = .applying c seq turn) (plan : List Outcome) :
    Steps S w (.act i (.apply plan)) (w.applyBatch S i c seq turn plan) := by
  unfold World.applyBatch
  dsimp only
  split
  · next hNext => exact .applied plan h hNext
  · next hNext => exact .applyCrashed plan h hNext

theorem steps_truncate (S : Service σ ι ω ε) (w : World σ ι ω ε) {i : Thread} {c : ι} {seq : Nat}
    (h : w.phase i = .flushed c seq) (plan : List Outcome) :
    Steps S w (.act i (.truncate plan)) (w.truncate i c seq plan) := by
  unfold World.truncate
  split
  · next hLast =>
    split
    · next hRun => exact .truncateCrashed h hLast (by rw [hRun]; rfl)
    · next hRun => exact .truncated h hLast (by rw [hRun]; exact ⟨rfl, rfl⟩)
    · next hRun => exact .truncated h hLast (by rw [hRun]; exact ⟨rfl, rfl⟩)
  · next hLast => exact .kept plan h hLast

theorem live_of_step {S : Service σ ι ω ε} {w w' : World σ ι ω ε} {e : Event ι ω}
    (h : step S w e = some w') : w.crashed = false := by
  unfold step at h
  split at h
  · cases h
  · next hLive => simpa using hLive

theorem steps_of_step {S : Service σ ι ω ε} {w w' : World σ ι ω ε} {e : Event ι ω}
    (h : step S w e = some w') : Steps S w e w' := by
  unfold step at h
  split at h
  · cases h
  · cases e with
    | write x =>
      cases h
      exact .wrote x
    | act i a =>
      dsimp only at h
      generalize hPhase : w.phase i = phase at h
      unfold World.act at h
      split at h
      · cases h; exact .call _ hPhase
      · split at h
        · next hCheck => cases h; exact .check hPhase hCheck
        · next hCheck => cases h; exact .checked hPhase hCheck
        · next hCheck => cases h; exact .refused hPhase hCheck
      · cases h; exact steps_enter S w hPhase _
      · cases h; exact .wake hPhase
      · cases h; exact .look hPhase
      · cases h; exact .readUpto hPhase
      · cases h; exact .startSync hPhase
      · cases h; exact .finishSync _ hPhase
      · cases h; exact .unpark hPhase
      · cases h; exact .gate hPhase
      · cases h; exact steps_apply S w hPhase _
      · cases h; exact steps_truncate S w hPhase _
      · cases h; exact .release hPhase
      · cases h

/-! ## Counters and places -/

/-- How the counters of a group and the places of its threads fit together. -/
structure Turns (g : GroupState) (phase : Thread → Phase ι ε) : Prop where
  next_pos : 1 ≤ g.nextApply
  next_le : g.nextApply ≤ g.appended + 1
  durable_le : g.durable ≤ g.appended
  failed_le : g.failedUpto ≤ g.appended
  range : ∀ i s, (phase i).seq? = some s → g.nextApply ≤ s ∧ s ≤ g.appended
  present : ∀ s, g.nextApply ≤ s → s ≤ g.appended → ∃ i, (phase i).seq? = some s
  distinct : ∀ i j s, (phase i).seq? = some s → (phase j).seq? = some s → i = j
  turn : ∀ i s, (phase i).inTurn = true → (phase i).seq? = some s → s = g.nextApply
  upto : ∀ i u, (phase i).upto? = some u → u ≤ g.appended
  leader : g.syncing = true ↔ ∃ i, (phase i).leads = true
  oneLeader : ∀ i j, (phase i).leads = true → (phase j).leads = true → i = j
  asleep : ∀ i, (phase i).isAsleep = true → g.syncing = true
  parked : ∀ i s, (phase i).isParked = true → (phase i).seq? = some s →
    g.turnWaiters s = some i ∧ g.nextApply ≠ s

namespace Turns

variable {g : GroupState} {phase : Thread → Phase ι ε}

theorem opened (journal : BatchJournal) :
    Turns (CommitGroup.opened journal) (fun _ => (.outside : Phase ι ε)) where
  next_pos := Nat.le_refl 1
  next_le := Nat.le_refl 1
  durable_le := Nat.le_refl 0
  failed_le := Nat.le_refl 0
  range := nofun
  present s hLow hHigh := by
    change 1 ≤ s at hLow
    change s ≤ 0 at hHigh
    omega
  distinct := nofun
  turn := nofun
  upto := nofun
  leader := ⟨nofun, nofun⟩
  oneLeader := nofun
  asleep := nofun
  parked := nofun

theorem withJournal (h : Turns g phase) (journal : BatchJournal) :
    Turns { g with journal := journal } phase :=
  ⟨h.next_pos, h.next_le, h.durable_le, h.failed_le, h.range, h.present, h.distinct, h.turn, h.upto,
    h.leader, h.oneLeader, h.asleep, h.parked⟩

/-- A thread moves on with the number it holds. -/
theorem replace (h : Turns g phase) {i : Thread} {p : Phase ι ε} (hSeq : p.seq? = (phase i).seq?)
    (hLeads : p.leads = (phase i).leads)
    (hTurn : ∀ s, p.inTurn = true → p.seq? = some s → s = g.nextApply)
    (hUpto : ∀ u, p.upto? = some u → u ≤ g.appended)
    (hAsleep : p.isAsleep = true → g.syncing = true)
    (hParked : ∀ s, p.isParked = true → p.seq? = some s →
      g.turnWaiters s = some i ∧ g.nextApply ≠ s) :
    Turns g (Function.update phase i p) := by
  have hSeqs : ∀ j, (Function.update phase i p j).seq? = (phase j).seq? :=
    (Function.forall_update_iff phase fun j q => q.seq? = (phase j).seq?).mpr
      ⟨hSeq, fun _ _ => rfl⟩
  have hLeaders : ∀ j, (Function.update phase i p j).leads = (phase j).leads :=
    (Function.forall_update_iff phase fun j q => q.leads = (phase j).leads).mpr
      ⟨hLeads, fun _ _ => rfl⟩
  constructor
  · exact h.next_pos
  · exact h.next_le
  · exact h.durable_le
  · exact h.failed_le
  · simpa only [hSeqs] using h.range
  · simpa only [hSeqs] using h.present
  · simpa only [hSeqs] using h.distinct
  · exact (Function.forall_update_iff phase fun _ q =>
      ∀ s, q.inTurn = true → q.seq? = some s → s = g.nextApply).mpr ⟨hTurn, fun j _ => h.turn j⟩
  · exact (Function.forall_update_iff phase fun _ q => ∀ u, q.upto? = some u → u ≤ g.appended).mpr
      ⟨hUpto, fun j _ => h.upto j⟩
  · simpa only [hLeaders] using h.leader
  · simpa only [hLeaders] using h.oneLeader
  · exact (Function.forall_update_iff phase fun _ q => q.isAsleep = true → g.syncing = true).mpr
      ⟨hAsleep, fun j _ => h.asleep j⟩
  · exact (Function.forall_update_iff phase fun j q => ∀ s, q.isParked = true → q.seq? = some s →
      g.turnWaiters s = some j ∧ g.nextApply ≠ s).mpr ⟨hParked, fun j _ => h.parked j⟩

theorem gate (h : Turns g phase) {i : Thread} {c : ι} {seq : Nat} {durable : Bool}
    {r : GroupState × Phase ι ε} (hr : CommitGroup.gate g i c seq durable = r)
    (hSeq : (phase i).seq? = some seq) (hLeads : (phase i).leads = false)
    (hParked : (phase i).isParked = false) : Turns r.1 (Function.update phase i r.2) := by
  unfold CommitGroup.gate at hr
  split at hr
  · next hTurn =>
    have hWaiters : Turns { g with turnWaiters := Function.update g.turnWaiters seq (some i) }
        phase := by
      refine ⟨h.next_pos, h.next_le, h.durable_le, h.failed_le, h.range, h.present,
        h.distinct, h.turn, h.upto, h.leader, h.oneLeader, h.asleep, fun j s hPark hs => ?_⟩
      have hOther : s ≠ seq := by
        rintro rfl
        rw [h.distinct j i s hs hSeq, hParked] at hPark
        cases hPark
      exact ⟨by simpa only [Function.update_of_ne hOther] using (h.parked j s hPark hs).1,
        (h.parked j s hPark hs).2⟩
    subst hr
    refine hWaiters.replace hSeq.symm hLeads.symm nofun nofun nofun ?_
    rintro s - ⟨⟩
    exact ⟨Function.update_self .., hTurn⟩
  · next hTurn =>
    rw [not_not] at hTurn
    split at hr
    · subst hr
      refine h.replace hSeq.symm hLeads.symm ?_ nofun nofun nofun
      rintro s - ⟨⟩
      exact hTurn.symm
    · subst hr
      refine h.replace hSeq.symm hLeads.symm ?_ nofun nofun nofun
      rintro s - ⟨⟩
      exact hTurn.symm

/-- Whatever is decided for a thread under the lock fits. -/
theorem settled (h : Turns g phase) {i : Thread} {c : ι} {seq : Nat}
    {r : GroupState × Phase ι ε} (hSettled : Settled g i c seq r) (hSeq : (phase i).seq? = some seq)
    (hLeads : (phase i).leads = false) (hParked : (phase i).isParked = false) :
    Turns r.1 (Function.update phase i r.2) := by
  cases hSettled with
  | asleep _ _ hSync =>
    exact h.replace hSeq.symm hLeads.symm nofun nofun (fun _ => hSync) nofun
  | leading _ _ hSync =>
    have hNone : ∀ j, (phase j).leads = false := by
      intro j
      by_contra hj
      rw [h.leader.mpr ⟨j, by simpa using hj⟩] at hSync
      cases hSync
    have hIf : ∀ j, (Function.update phase i (.leading c seq) j).leads = true → j = i := by
      intro j hj
      by_contra hOther
      rw [Function.update_of_ne hOther, hNone] at hj
      cases hj
    have hSeqs : ∀ j, (Function.update phase i (.leading c seq) j).seq? = (phase j).seq? :=
      (Function.forall_update_iff phase fun j q => q.seq? = (phase j).seq?).mpr
        ⟨hSeq.symm, fun _ _ => rfl⟩
    constructor
    · exact h.next_pos
    · exact h.next_le
    · exact h.durable_le
    · exact h.failed_le
    · simpa only [hSeqs] using h.range
    · simpa only [hSeqs] using h.present
    · simpa only [hSeqs] using h.distinct
    · exact (Function.forall_update_iff phase fun _ q =>
        ∀ s, q.inTurn = true → q.seq? = some s → s = g.nextApply).mpr ⟨nofun, fun j _ => h.turn j⟩
    · exact (Function.forall_update_iff phase fun _ q =>
        ∀ u, q.upto? = some u → u ≤ g.appended).mpr ⟨nofun, fun j _ => h.upto j⟩
    · exact ⟨fun _ => ⟨i, by rw [Function.update_self]; rfl⟩, fun _ => rfl⟩
    · intro j k hj hk
      rw [hIf j hj, hIf k hk]
    · exact fun _ _ => rfl
    · exact (Function.forall_update_iff phase fun j q => ∀ s, q.isParked = true → q.seq? = some s →
        g.turnWaiters s = some j ∧ g.nextApply ≠ s).mpr ⟨nofun, fun j _ => h.parked j⟩
  | gated durable => exact h.gate rfl hSeq hLeads hParked

/-- An entry is appended: its thread holds the next number. -/
theorem entered (h : Turns g phase) {i : Thread} {c : ι} (hi : phase i = .entering c) :
    Turns { g with appended := g.appended + 1 }
      (Function.update phase i (.awake c (g.appended + 1))) := by
  have hi' : (phase i).seq? = none := by rw [hi]; rfl
  have hOther : ∀ j s, (phase j).seq? = some s → j ≠ i := by
    rintro j s hs rfl
    rw [hi'] at hs
    cases hs
  have hLeaders : ∀ j, (Function.update phase i (.awake c (g.appended + 1)) j).leads =
      (phase j).leads :=
    (Function.forall_update_iff phase fun j q => q.leads = (phase j).leads).mpr
      ⟨by rw [hi]; rfl, fun _ _ => rfl⟩
  have hNew : ∀ j s, (Function.update phase i (.awake c (g.appended + 1)) j).seq? = some s →
      (j = i ∧ s = g.appended + 1) ∨ (j ≠ i ∧ (phase j).seq? = some s) := by
    intro j s hs
    by_cases hj : j = i
    · rw [hj, Function.update_self] at hs
      cases hs
      exact Or.inl ⟨hj, rfl⟩
    · rw [Function.update_of_ne hj] at hs
      exact Or.inr ⟨hj, hs⟩
  have hNext := h.next_le
  constructor
  · exact h.next_pos
  · exact Nat.le_succ_of_le h.next_le
  · exact Nat.le_succ_of_le h.durable_le
  · exact Nat.le_succ_of_le h.failed_le
  · intro j s hs
    rcases hNew j s hs with ⟨-, rfl⟩ | ⟨-, hs⟩
    · exact ⟨hNext, Nat.le_refl _⟩
    · exact ⟨(h.range j s hs).1, Nat.le_succ_of_le (h.range j s hs).2⟩
  · intro s hLow hHigh
    by_cases hLast : s = g.appended + 1
    · exact ⟨i, by rw [Function.update_self, hLast]; rfl⟩
    · obtain ⟨j, hj⟩ := h.present s hLow (Nat.le_of_lt_succ (Nat.lt_of_le_of_ne hHigh hLast))
      exact ⟨j, by rw [Function.update_of_ne (hOther j s hj), hj]⟩
  · intro j k s hj hk
    rcases hNew j s hj with ⟨hji, hs⟩ | ⟨-, hjs⟩ <;> rcases hNew k s hk with ⟨hki, hs'⟩ | ⟨-, hks⟩
    · rw [hji, hki]
    · have := (h.range k s hks).2
      omega
    · have := (h.range j s hjs).2
      omega
    · exact h.distinct j k s hjs hks
  · exact (Function.forall_update_iff phase fun _ q =>
      ∀ s, q.inTurn = true → q.seq? = some s → s = g.nextApply).mpr ⟨nofun, fun j _ => h.turn j⟩
  · exact (Function.forall_update_iff phase fun _ q => ∀ u, q.upto? = some u →
      u ≤ g.appended + 1).mpr ⟨nofun, fun j _ u hu => Nat.le_succ_of_le (h.upto j u hu)⟩
  · simpa only [hLeaders] using h.leader
  · simpa only [hLeaders] using h.oneLeader
  · exact (Function.forall_update_iff phase fun _ q => q.isAsleep = true → g.syncing = true).mpr
      ⟨nofun, fun j _ => h.asleep j⟩
  · exact (Function.forall_update_iff phase fun j q => ∀ s, q.isParked = true → q.seq? = some s →
      g.turnWaiters s = some j ∧ g.nextApply ≠ s).mpr ⟨nofun, fun j _ => h.parked j⟩

/-- A sync returns: nobody leads, and nobody is left asleep. -/
theorem finishSync (h : Turns g phase) {i : Thread} {c : ι} {seq upto : Nat} (ok : Bool)
    (hi : phase i = .syncing c seq upto) :
    Turns (g.finishSync upto ok) (Function.update (fun j => (phase j).wake) i (.awake c seq)) := by
  have hLeads : (phase i).leads = true := by rw [hi]; rfl
  have hUpto : upto ≤ g.appended := h.upto i upto (by rw [hi]; rfl)
  have hSeqs : ∀ j, (Function.update (fun j => (phase j).wake) i (.awake c seq) j).seq? =
      (phase j).seq? :=
    (Function.forall_update_iff (fun j => (phase j).wake) fun j q => q.seq? = (phase j).seq?).mpr
      ⟨by rw [hi]; rfl, fun j _ => Phase.seq?_wake (phase j)⟩
  have hNobody : ∀ j, (Function.update (fun j => (phase j).wake) i (.awake c seq) j).leads =
      false := by
    refine (Function.forall_update_iff (fun j => (phase j).wake) fun _ q => q.leads = false).mpr
      ⟨rfl, fun j hj => ?_⟩
    rw [Phase.leads_wake]
    by_contra hj'
    exact hj (h.oneLeader j i (by simpa using hj') hLeads)
  have hDurable := h.durable_le
  have hFailed := h.failed_le
  have hFields : (g.finishSync upto ok).nextApply = g.nextApply ∧
      (g.finishSync upto ok).appended = g.appended ∧ (g.finishSync upto ok).syncing = false ∧
      (g.finishSync upto ok).turnWaiters = g.turnWaiters ∧
      (g.finishSync upto ok).durable ≤ g.appended ∧
        (g.finishSync upto ok).failedUpto ≤ g.appended := by
    cases ok
    · exact ⟨rfl, rfl, rfl, rfl, hDurable, Nat.max_le.mpr ⟨hFailed, hUpto⟩⟩
    · exact ⟨rfl, rfl, rfl, rfl, Nat.max_le.mpr ⟨hDurable, hUpto⟩, hFailed⟩
  obtain ⟨hNext, hAppended, hSync, hWaiters, hDurable', hFailed'⟩ := hFields
  constructor
  · rw [hNext]
    exact h.next_pos
  · rw [hNext, hAppended]
    exact h.next_le
  · rw [hAppended]
    exact hDurable'
  · rw [hAppended]
    exact hFailed'
  · simpa only [hSeqs, hNext, hAppended] using h.range
  · simpa only [hSeqs, hNext, hAppended] using h.present
  · simpa only [hSeqs] using h.distinct
  · rw [hNext]
    exact (Function.forall_update_iff (fun j => (phase j).wake) fun _ q =>
      ∀ s, q.inTurn = true → q.seq? = some s → s = g.nextApply).mpr
        ⟨nofun, fun j _ => by simpa only [Phase.inTurn_wake, Phase.seq?_wake] using h.turn j⟩
  · rw [hAppended]
    exact (Function.forall_update_iff (fun j => (phase j).wake) fun _ q => ∀ u, q.upto? = some u →
      u ≤ g.appended).mpr ⟨nofun, fun j _ => by simpa only [Phase.upto?_wake] using h.upto j⟩
  · rw [hSync]
    exact ⟨nofun, fun ⟨j, hj⟩ => by rw [hNobody] at hj; exact hj⟩
  · intro j k hj
    rw [hNobody] at hj
    cases hj
  · refine (Function.forall_update_iff (fun j => (phase j).wake) fun _ q => q.isAsleep = true →
      _).mpr ⟨nofun, fun j _ => ?_⟩
    rw [Phase.isAsleep_wake]
    nofun
  · rw [hNext, hWaiters]
    exact (Function.forall_update_iff (fun j => (phase j).wake) fun j q => ∀ s, q.isParked = true →
      q.seq? = some s → g.turnWaiters s = some j ∧ g.nextApply ≠ s).mpr
        ⟨nofun, fun j _ => by simpa only [Phase.isParked_wake, Phase.seq?_wake] using h.parked j⟩

theorem unparkWaiter (h : Turns g phase) (waiter : Option Thread) :
    Turns g (CommitGroup.unparkWaiter waiter phase) := by
  cases waiter with
  | none => exact h
  | some j =>
    refine h.replace (Phase.seq?_unpark _) (Phase.leads_unpark _) ?_ ?_ ?_ ?_
    · simpa only [Phase.inTurn_unpark, Phase.seq?_unpark] using h.turn j
    · simpa only [Phase.upto?_unpark] using h.upto j
    · simpa only [Phase.isAsleep_unpark] using h.asleep j
    · rw [Phase.isParked_unpark]
      nofun

/-- The thread whose turn it is leaves; nobody is parked for the next turn. -/
theorem leave (h : Turns g phase) {i : Thread} {c : ι} {seq : Nat} {answer : Answer ε}
    (hi : phase i = .leaving c seq answer)
    (hNext : ∀ j, (phase j).isParked = true → (phase j).seq? ≠ some (g.nextApply + 1)) :
    Turns g.release (Function.update phase i .outside) := by
  have hSeq : (phase i).seq? = some seq := by rw [hi]; rfl
  obtain rfl : seq = g.nextApply := h.turn i seq (by rw [hi]; rfl) hSeq
  have hRange := h.range i _ hSeq
  have hLater : ∀ j s, (Function.update phase i .outside j).seq? = some s →
      (phase j).seq? = some s ∧ g.nextApply + 1 ≤ s := by
    refine (Function.forall_update_iff phase fun j q => ∀ s, q.seq? = some s →
      (phase j).seq? = some s ∧ g.nextApply + 1 ≤ s).mpr ⟨nofun, fun j hj s hs => ⟨hs, ?_⟩⟩
    have hLow := (h.range j s hs).1
    have hOther : s ≠ g.nextApply := by
      rintro rfl
      exact hj (h.distinct j i _ hs hSeq)
    omega
  have hLeaders : ∀ j, (Function.update phase i .outside j).leads = (phase j).leads :=
    (Function.forall_update_iff phase fun j q => q.leads = (phase j).leads).mpr
      ⟨by rw [hi]; rfl, fun _ _ => rfl⟩
  constructor
  · exact Nat.le_succ_of_le h.next_pos
  · exact Nat.succ_le_succ hRange.2
  · exact h.durable_le
  · exact h.failed_le
  · intro j s hs
    obtain ⟨hs, hLow⟩ := hLater j s hs
    exact ⟨hLow, (h.range j s hs).2⟩
  · intro s hLow hHigh
    obtain ⟨j, hj⟩ := h.present s (Nat.le_of_succ_le hLow) hHigh
    refine ⟨j, ?_⟩
    rw [Function.update_of_ne, hj]
    rintro rfl
    rw [hSeq, Option.some.injEq] at hj
    change g.nextApply + 1 ≤ s at hLow
    omega
  · intro j k s hj hk
    exact h.distinct j k s (hLater j s hj).1 (hLater k s hk).1
  · refine (Function.forall_update_iff phase fun _ q =>
      ∀ s, q.inTurn = true → q.seq? = some s → s = g.nextApply + 1).mpr ⟨nofun,
        fun j hj s hIn hs => ?_⟩
    obtain rfl := h.turn j s hIn hs
    exact absurd (h.distinct j i _ hs hSeq) hj
  · exact (Function.forall_update_iff phase fun _ q => ∀ u, q.upto? = some u → u ≤ g.appended).mpr
      ⟨nofun, fun j _ => h.upto j⟩
  · change g.syncing = true ↔ _
    simpa only [hLeaders] using h.leader
  · simpa only [hLeaders] using h.oneLeader
  · exact (Function.forall_update_iff phase fun _ q => q.isAsleep = true → g.syncing = true).mpr
      ⟨nofun, fun j _ => h.asleep j⟩
  · refine (Function.forall_update_iff phase fun j q => ∀ s, q.isParked = true → q.seq? = some s →
      g.release.turnWaiters s = some j ∧ g.nextApply + 1 ≠ s).mpr ⟨nofun, fun j _ s hPark hs => ?_⟩
    have hOther : s ≠ g.nextApply + 1 := by
      rintro rfl
      exact hNext j hPark hs
    refine ⟨?_, hOther.symm⟩
    change Function.update g.turnWaiters (g.nextApply + 1) none s = some j
    rw [Function.update_of_ne hOther]
    exact (h.parked j s hPark hs).1

theorem release (h : Turns g phase) {i : Thread} {c : ι} {seq : Nat} {answer : Answer ε}
    (hi : phase i = .leaving c seq answer) :
    Turns g.release (Function.update
      (CommitGroup.unparkWaiter (g.turnWaiters (g.nextApply + 1)) phase) i .outside) := by
  have hHere : CommitGroup.unparkWaiter (g.turnWaiters (g.nextApply + 1)) phase i =
      .leaving c seq answer := by
    rw [unparkWaiter_of_unpark (by rw [hi]; rfl), hi]
  refine (h.unparkWaiter _).leave hHere fun j hPark hs => ?_
  cases hWaiter : g.turnWaiters (g.nextApply + 1) with
  | none =>
    rw [hWaiter] at hPark hs
    have hWho := (h.parked j _ hPark hs).1
    rw [hWaiter] at hWho
    cases hWho
  | some k =>
    rw [hWaiter, unparkWaiter_some] at hPark hs
    by_cases hj : j = k
    · rw [hj, Function.update_self, Phase.isParked_unpark] at hPark
      cases hPark
    · rw [Function.update_of_ne hj] at hPark hs
      have hWho := (h.parked j _ hPark hs).1
      rw [hWaiter, Option.some.injEq] at hWho
      exact hj hWho.symm

/-- **One step.** Every step keeps the counters and the places together. -/
theorem steps {S : Service σ ι ω ε} {w w' : World σ ι ω ε} {e : Event ι ω}
    (h : Turns w.group w.phase) (hStep : Steps S w e w') : Turns w'.group w'.phase := by
  cases hStep with
  | call c hi | check hi _ | checked hi _ | refused hi _ =>
    exact h.replace (by rw [hi]; rfl) (by rw [hi]; rfl) nofun nofun nofun nofun
  | @entered i c plan p hi hRun =>
    have hNext := (h.withJournal p.self).entered hi
    have hLook := hNext.settled (settled_look _ i c _) (i := i) (by rw [Function.update_self]; rfl)
      (by rw [Function.update_self]; rfl) (by rw [Function.update_self]; rfl)
    rw [Function.update_idem] at hLook
    exact hLook
  | torn hi hRun =>
    exact (h.withJournal _).replace (by rw [hi]; rfl) (by rw [hi]; rfl) nofun nofun nofun nofun
  | enterCrashed hi hRun => exact h
  | wake hi => exact h.replace (by rw [hi]; rfl) (by rw [hi]; rfl) nofun nofun nofun nofun
  | look hi =>
    exact h.settled (settled_look _ _ _ _) (by rw [hi]; rfl) (by rw [hi]; rfl) (by rw [hi]; rfl)
  | readUpto hi =>
    refine h.replace (by rw [hi]; rfl) (by rw [hi]; rfl) nofun ?_ nofun nofun
    rintro u ⟨⟩
    exact Nat.le_refl _
  | startSync hi =>
    refine h.replace (by rw [hi]; rfl) (by rw [hi]; rfl) nofun ?_ nofun nofun
    intro u hu
    exact h.upto _ u (by rw [hi]; exact hu)
  | @finishSync i c seq upto ok hi =>
    have hLook := (h.finishSync ok hi).settled (settled_look _ i c seq) (i := i)
      (by rw [Function.update_self]; rfl) (by rw [Function.update_self]; rfl)
      (by rw [Function.update_self]; rfl)
    rw [Function.update_idem] at hLook
    exact hLook
  | unpark hi => exact h.replace (by rw [hi]; rfl) (by rw [hi]; rfl) nofun nofun nofun nofun
  | gate hi => exact h.gate rfl (by rw [hi]; rfl) (by rw [hi]; rfl) (by rw [hi]; rfl)
  | @applied i c seq turn phase plan hi hNext =>
    have hHere : phase = .flushed c seq ∨ ∃ answer, phase = .leaving c seq answer := by
      unfold afterApply at hNext
      split at hNext <;> cases hNext
      · exact Or.inl rfl
      · exact Or.inr ⟨_, rfl⟩
      · exact Or.inr ⟨_, rfl⟩
      · exact Or.inr ⟨_, rfl⟩
    have hTurn : seq = w.group.nextApply := h.turn i seq (by rw [hi]; rfl) (by rw [hi]; rfl)
    rcases hHere with rfl | ⟨answer, rfl⟩
    · refine h.replace (by rw [hi]; rfl) (by rw [hi]; rfl) ?_ nofun nofun nofun
      rintro s - ⟨⟩
      exact hTurn
    · refine h.replace (by rw [hi]; rfl) (by rw [hi]; rfl) ?_ nofun nofun nofun
      rintro s - ⟨⟩
      exact hTurn
  | applyCrashed plan hi hNext => exact h
  | kept plan hi hLast =>
    refine h.replace (by rw [hi]; rfl) (by rw [hi]; rfl) ?_ nofun nofun nofun
    rintro s - ⟨⟩
    exact h.turn _ _ (by rw [hi]; rfl) (by rw [hi]; rfl)
  | truncated hi hLast hRun =>
    refine (h.withJournal _).replace (by rw [hi]; rfl) (by rw [hi]; rfl) ?_ nofun nofun nofun
    rintro s - ⟨⟩
    exact h.turn _ _ (by rw [hi]; rfl) (by rw [hi]; rfl)
  | truncateCrashed hi hLast hRun => exact h
  | release hi => exact h.release hi
  | wrote x => exact h

/-- **Nobody is stuck.** When somebody is inside, somebody inside is not blocked. -/
theorem not_blocked (h : Turns g phase) {i : Thread} (hInside : (phase i).inside = true) :
    ∃ j, (phase j).inside = true ∧ (phase j).blocked = false := by
  by_contra hStuck
  have hAll : ∀ j, (phase j).inside = true → (phase j).blocked = true := by
    intro j hj
    by_contra hFree
    exact hStuck ⟨j, hj, by simpa using hFree⟩
  -- Nobody is asleep: whoever leads the sync in flight is not blocked.
  have hAwake : ∀ j, (phase j).isAsleep = false := by
    intro j
    by_contra hSleep
    obtain ⟨k, hk⟩ := h.leader.mp (h.asleep j (by simpa using hSleep))
    have hFree : (phase k).inside = true ∧ (phase k).blocked = false := by
      revert hk
      cases phase k <;> simp [Phase.leads, Phase.inside, Phase.blocked, Phase.isAsleep,
        Phase.isParked]
    exact hStuck ⟨k, hFree⟩
  have hParked : (phase i).isParked = true := by
    have hBlocked := hAll i hInside
    rw [Phase.blocked, hAwake i, Bool.false_or] at hBlocked
    exact hBlocked
  obtain ⟨s, hs⟩ : ∃ s, (phase i).seq? = some s := by
    revert hParked
    cases phase i <;> simp [Phase.isParked, Phase.seq?]
  -- The holder of the next turn is inside, and cannot be parked.
  have hRange := h.range i s hs
  obtain ⟨j, hj⟩ := h.present g.nextApply (Nat.le_refl _) (Nat.le_trans hRange.1 hRange.2)
  have hIn : (phase j).inside = true := by
    revert hj
    cases phase j <;> simp [Phase.inside, Phase.seq?]
  have hBlocked := hAll j hIn
  rw [Phase.blocked, hAwake j, Bool.false_or] at hBlocked
  exact (h.parked j _ hBlocked hj).2 rfl

end Turns

end CommitGroup

end MultimodalDb
