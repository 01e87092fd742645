import MultimodalDb.Server.Journaled
import MultimodalDb.Server.WriteBatch

/-!
# All or nothing

A transaction checks its records before its entry is appended, and writes them in its turn. In
between, nothing keeps another connection from deleting one of them: the batch then writes what
stands before the missing record and answers an error (`half_applied`). Where no apply runs into a
missing record behind a write that changed something, every call writes all of its updates and
answers `Ok`, or writes nothing and answers an error (`all_or_nothing`).

* `Transacts.steps`: what each thread's call has written so far, kept by every step.
-/

namespace MultimodalDb

open CommitGroup

namespace CommitGroup

variable {σ ι ω ε : Type}

/-- The store before and after each apply of the thread's current call. -/
def ownSteps (i : Thread) : History σ ι ω ε → List (σ × σ)
  | [] => []
  | .answered j _ _ _ :: earlier => if j = i then [] else ownSteps i earlier
  | .applied j _ _ before after :: earlier =>
    if j = i then (before, after) :: ownSteps i earlier else ownSteps i earlier
  | _ :: earlier => ownSteps i earlier

/-- The thread that a mark is about, of the marks that `ownSteps` looks at. -/
def Mark.thread? : Mark σ ι ω ε → Option Thread
  | .answered i _ _ _ | .applied i _ _ _ _ => some i
  | _ => none

theorem ownSteps_cons {i : Thread} {m : Mark σ ι ω ε} (h : m.thread? ≠ some i)
    (history : History σ ι ω ε) : ownSteps i (m :: history) = ownSteps i history := by
  cases m with
  | answered j c seq answer => exact if_neg fun hEq => h (congrArg some hEq)
  | applied j c seq before after => exact if_neg fun hEq => h (congrArg some hEq)
  | _ => rfl

theorem ownSteps_quiet {m : Mark σ ι ω ε} (h : m.thread? = none) (i : Thread)
    (history : History σ ι ω ε) : ownSteps i (m :: history) = ownSteps i history :=
  ownSteps_cons (by rw [h]; nofun) history

theorem ownSteps_other {m : Mark σ ι ω ε} {i j : Thread} (h : m.thread? = some i) (hj : j ≠ i)
    (history : History σ ι ω ε) : ownSteps j (m :: history) = ownSteps j history :=
  ownSteps_cons (by rw [h]; exact fun hEq => hj (Option.some.inj hEq).symm) history

theorem ownSteps_answered (i : Thread) (c : ι) (seq : Option Nat) (answer : Answer ε)
    (history : History σ ι ω ε) : ownSteps i (.answered i c seq answer :: history) = [] :=
  if_pos rfl

theorem ownSteps_applied (i : Thread) (c : ι) (seq : Nat) (before after : σ)
    (history : History σ ι ω ε) :
    ownSteps i (.applied i c seq before after :: history) = (before, after) :: ownSteps i history :=
  if_pos rfl

end CommitGroup

namespace Domain

variable {R V : Type} (D : Domain R V)

/-! ## What a call has done -/

/-- What is checked of a write before it is journaled, but for its record. -/
def Valid (op : TransactionOp) : Prop := ∃ v, D.checkWrite op.field op.value true = .ok v

/-- A batch was written as a whole: its records were there, and each now has the field that the last
write to it gives. -/
def Applied (ops : Batch) (before after : Stack R) : Prop :=
  (∀ op ∈ ops, (D.ofScan op.value).isSome ∧ (before.rows op.id).isSome) ∧
    after = D.written before (D.log ops)

/-- What an answer says about what the call did to the table. -/
def Told (ops : Batch) (answer : Answer (Nat × ErrorCode))
    (steps : List (Stack R × Stack R)) : Prop :=
  (answer = .returned (.ok ()) → ∃ before after, steps = [(before, after)] ∧
    D.Applied ops before after) ∧ (answer ≠ .returned (.ok ()) → ∀ step ∈ steps, step.2 = step.1)

/-- What a thread's current call has done to the table, from where the thread is. -/
def Holds (steps : List (Stack R × Stack R)) : Phase Txn (Nat × ErrorCode) → Prop
  | .outside => steps = []
  | .validating c i => (∀ op ∈ c.updates.take i, D.Valid op) ∧ steps = []
  | .flushed c _ => D.Told c.updates (.returned (.ok ())) steps
  | .leaving c _ answer => D.Told c.updates answer steps
  | .entering c | .asleep c _ | .awake c _ | .leading c _ | .covering c _ _ | .syncing c _ _
  | .parked c _ _ | .unparked c _ _ | .applying c _ _ => (∀ op ∈ c.updates, D.Valid op) ∧ steps = []

variable {D}

theorem Valid.isSome {op : TransactionOp} (h : D.Valid op) : (D.ofScan op.value).isSome = true := by
  obtain ⟨v, hv⟩ := h
  unfold checkWrite at hv
  split at hv
  · split at hv
    · cases hv
    · next hValue =>
      rw [hValue]
      rfl
  · split at hv <;> cases hv

theorem Valid.reaches_iff {op : TransactionOp} (h : D.Valid op) (s : Stack R) :
    D.reaches s op = (s.rows op.id).isSome := by
  rw [reaches, ← Option.not_isSome, h.isSome]
  rfl

theorem valid_of_checkWrite {op : TransactionOp} {found : Bool} {v : V}
    (h : D.checkWrite op.field op.value found = .ok v) : D.Valid op ∧ found = true := by
  unfold Valid
  unfold checkWrite at h ⊢
  split at h
  · next hField =>
    rw [if_pos hField]
    split at h
    · cases h
    · split at h
      · cases h
      · next hValid =>
        split at h
        · next hFound =>
          refine ⟨⟨v, ?_⟩, hFound⟩
          rw [if_neg hValid]
          exact h
        · cases h
  · split at h <;> cases h

theorem told_nil {ops : Batch} {answer : Answer (Nat × ErrorCode)}
    (h : answer ≠ .returned (.ok ())) :
    D.Told ops answer [] :=
  ⟨fun hOk => absurd hOk h, fun _ => nofun⟩

theorem Holds.wake {steps : List (Stack R × Stack R)} {phase : Phase Txn (Nat × ErrorCode)}
    (h : D.Holds steps phase) : D.Holds steps phase.wake := by
  cases phase <;> exact h

theorem Holds.unpark {steps : List (Stack R × Stack R)} {phase : Phase Txn (Nat × ErrorCode)}
    (h : D.Holds steps phase) : D.Holds steps phase.unpark := by
  cases phase <;> exact h

/-- The turn gate changes nothing about what the call has done. -/
theorem holds_gate (g : GroupState) (i : Thread) {c : Txn} (seq : Nat) (durable : Bool)
    {steps : List (Stack R × Stack R)} (hValid : ∀ op ∈ c.updates, D.Valid op)
    (hSteps : steps = []) :
    D.Holds steps (gate g i c seq durable).2 := by
  unfold gate
  split
  · exact ⟨hValid, hSteps⟩
  · split
    · exact ⟨hValid, hSteps⟩
    · subst hSteps
      exact told_nil nofun

theorem holds_look (g : GroupState) (i : Thread) {c : Txn} (seq : Nat)
    {steps : List (Stack R × Stack R)} (hValid : ∀ op ∈ c.updates, D.Valid op)
    (hSteps : steps = []) :
    D.Holds steps (look g i c seq).2 := by
  have hSettled := settled_look (ε := Nat × ErrorCode) g i c seq
  generalize look g i c seq = r at hSettled
  cases hSettled with
  | asleep | leading => exact ⟨hValid, hSteps⟩
  | gated durable => exact holds_gate g i seq durable hValid hSteps

/-! ## Applying -/

variable (D)

/-- An apply that does not stop half-way: the session's reads have changed, or the records of the
batch are there, or what stands before the first missing one gives no record another value. -/
def Applicable (c : Txn) (s : Stack R) : Prop :=
  D.checkReadSet c.readSet s ≠ .ok () ∨ (∀ op ∈ c.updates, D.reaches s op = true) ∨
    ∀ id r, s.rows id = some r → ∀ v,
      FieldWrites.last (D.log (c.updates.takeWhile (D.reaches s))) id = some v → D.set v r = r

/-- The steps at which no apply stops half-way. -/
def AppliesWhole (w : World (Stack R) Txn DirectWrite (Nat × ErrorCode))
    (e : Event Txn DirectWrite) : Prop :=
  ∀ i c seq turn plan, e = .act i (.apply plan) → w.phase i = .applying c seq turn →
    D.Applicable c w.store

variable {D}

/-- **One apply.** A batch that goes on behind it was written as a whole, or not at all. -/
theorem holds_apply {c : Txn} {seq : Nat} {turn : Turn} {plan : List Outcome} {s : Stack R}
    {phase : Phase Txn (Nat × ErrorCode)} (hValid : ∀ op ∈ c.updates, D.Valid op)
    (hApplicable : D.Applicable c s)
    (hNext : afterApply c seq (D.applyTurn c turn plan s).1 = some phase) :
    D.Holds [(s, (D.applyTurn c turn plan s).2)] phase := by
  unfold applyTurn at hNext ⊢
  cases hReads : D.checkReadSet c.readSet s with
  | error e =>
    rw [hReads] at hNext
    cases hNext
    refine ⟨nofun, fun _ step hStep => ?_⟩
    rw [List.mem_singleton.mp hStep]
  | ok _ =>
    rw [hReads] at hNext
    dsimp only at hNext ⊢
    split at hNext
    · cases hNext
    · have hFst := D.applyBatch_ok 0 c.updates s
      have hSnd := D.applyBatch_snd 0 c.updates s
      cases hRun : D.applyBatch 0 c.updates s with
      | mk result s' =>
        rw [hRun] at hNext hFst hSnd
        dsimp only at hNext hFst hSnd ⊢
        cases result with
        | error e =>
          cases hNext
          refine ⟨nofun, fun _ step hStep => ?_⟩
          rw [List.mem_singleton.mp hStep]
          dsimp only
          rcases hApplicable with hConflict | hRows | hSame
          · exact absurd hReads hConflict
          · cases hFst.mpr hRows
          · rw [hSnd, written, FieldWrites.writes_eq_self D.set_set hSame]
        | ok _ =>
          have hAll := hFst.mp rfl
          have hWhile : c.updates.takeWhile (D.reaches s) = c.updates := by
            rw [List.takeWhile_eq_self_iff]
            exact hAll
          have hApplied : D.Told c.updates (.returned (.ok ())) [(s, s')] := by
            refine ⟨fun _ => ⟨s, s', rfl, fun op hOp => ?_, ?_⟩, fun h => absurd rfl h⟩
            · exact ⟨(hValid op hOp).isSome,
                by rw [← (hValid op hOp).reaches_iff]; exact hAll op hOp⟩
            · rw [hSnd, hWhile]
          cases hFlush : turn.checkpointDue && flushed plan with
          | true =>
            rw [hFlush] at hNext
            cases hNext
            exact hApplied
          | false =>
            rw [hFlush] at hNext
            cases hNext
            exact hApplied

/-! ## Runs -/

/-- What the threads' calls have done, and what the answered ones had. -/
structure Transacts (D : Domain R V) (phase : Thread → Phase Txn (Nat × ErrorCode)) (crashed : Bool)
    (history : History (Stack R) Txn DirectWrite (Nat × ErrorCode)) : Prop where
  threads : crashed = false → ∀ i, D.Holds (ownSteps i history) (phase i)
  answered : ∀ i c seq answer earlier, (.answered i c seq answer :: earlier) <:+ history →
    D.Told c.updates answer (ownSteps i earlier)

namespace Transacts

variable {phase : Thread → Phase Txn (Nat × ErrorCode)} {crashed : Bool}
variable {history : History (Stack R) Txn DirectWrite (Nat × ErrorCode)}

theorem start : Transacts D (fun _ => .outside) false [] :=
  ⟨fun _ _ => rfl, fun _ _ _ _ _ h => nomatch List.suffix_nil.mp h⟩

theorem crash (h : Transacts D phase crashed history) : Transacts D phase true history :=
  ⟨nofun, h.answered⟩

theorem goto (h : Transacts D phase crashed history) {i : Thread} {p : Phase Txn (Nat × ErrorCode)}
    (hp : D.Holds (ownSteps i history) p) :
    Transacts D (Function.update phase i p) crashed history := by
  refine ⟨fun hLive j => ?_, h.answered⟩
  by_cases hj : j = i
  · rw [hj, Function.update_self]
    exact hp
  · rw [Function.update_of_ne hj]
    exact h.threads hLive j

theorem wakeAll (h : Transacts D phase crashed history) :
    Transacts D (fun j => (phase j).wake) crashed history :=
  ⟨fun hLive j => (h.threads hLive j).wake, h.answered⟩

theorem unpark (h : Transacts D phase crashed history) (waiter : Option Thread) :
    Transacts D (unparkWaiter waiter phase) crashed history := by
  refine ⟨fun hLive j => ?_, h.answered⟩
  cases waiter with
  | none => exact h.threads hLive j
  | some i =>
    rw [unparkWaiter_some]
    by_cases hj : j = i
    · rw [hj, Function.update_self]
      exact (h.threads hLive i).unpark
    · rw [Function.update_of_ne hj]
      exact h.threads hLive j

theorem mark (h : Transacts D phase crashed history)
    {m : Mark (Stack R) Txn DirectWrite (Nat × ErrorCode)} (hm : m.thread? = none) :
    Transacts D phase crashed (m :: history) := by
  constructor
  · intro hLive i
    rw [ownSteps_quiet hm]
    exact h.threads hLive i
  · intro i c seq answer earlier hMark
    rcases List.suffix_cons_iff.mp hMark with hEq | hOld
    · rw [List.cons.injEq] at hEq
      rw [← hEq.1] at hm
      cases hm
    · exact h.answered i c seq answer earlier hOld

/-- A call is answered. -/
theorem answer (h : Transacts D phase crashed history) {i : Thread} {c : Txn} (seq : Option Nat)
    {a : Answer (Nat × ErrorCode)} (hTold : D.Told c.updates a (ownSteps i history)) :
    Transacts D (Function.update phase i .outside) crashed (.answered i c seq a :: history) := by
  constructor
  · intro hLive j
    by_cases hj : j = i
    · rw [hj, Function.update_self, ownSteps_answered]
      rfl
    · rw [Function.update_of_ne hj, ownSteps_other rfl hj]
      exact h.threads hLive j
  · intro j c' seq' a' earlier hMark
    rcases List.suffix_cons_iff.mp hMark with hEq | hOld
    · cases hEq
      exact hTold
    · exact h.answered j c' seq' a' earlier hOld

/-- A call applies, and goes on from there. -/
theorem apply (h : Transacts D phase crashed history) {i : Thread} {c : Txn} {seq : Nat}
    {before after : Stack R} {p : Phase Txn (Nat × ErrorCode)} (hNone : ownSteps i history = [])
    (hp : D.Holds [(before, after)] p) :
    Transacts D (Function.update phase i p) crashed (.applied i c seq before after :: history) := by
  constructor
  · intro hLive j
    by_cases hj : j = i
    · rw [hj, Function.update_self, ownSteps_applied, hNone]
      exact hp
    · rw [Function.update_of_ne hj, ownSteps_other rfl hj]
      exact h.threads hLive j
  · intro j c' seq' a earlier hMark
    rcases List.suffix_cons_iff.mp hMark with hEq | hOld
    · cases hEq
    · exact h.answered j c' seq' a earlier hOld

/-- **One step.** -/
theorem steps {w w' : World (Stack R) Txn DirectWrite (Nat × ErrorCode)} {e : Event Txn DirectWrite}
    (hLive : w.crashed = false) (h : Transacts D w.phase w.crashed w.history)
    (hWhole : D.AppliesWhole w e) (hStep : Steps D.service w e w') :
    Transacts D w'.phase w'.crashed w'.history := by
  have hThreads := h.threads hLive
  cases hStep with
  | @call i c hi =>
    have hHere := hThreads i
    rw [hi] at hHere
    exact h.goto ⟨nofun, hHere⟩
  | @check i c op hi hCheck =>
    have hHere := hThreads i
    rw [hi] at hHere
    refine h.goto ⟨?_, hHere.2⟩
    change D.checkOp c op w.store = .next at hCheck
    unfold checkOp at hCheck
    split at hCheck
    · cases hCheck
    · next o hOp =>
      split at hCheck
      · cases hCheck
      · next v hValue =>
        rw [List.take_add_one, hOp, Option.toList_some]
        intro op' hOp'
        rcases List.mem_append.mp hOp' with hOld | hNew
        · exact hHere.1 op' hOld
        · rw [List.mem_singleton.mp hNew]
          exact (valid_of_checkWrite hValue).1
  | @checked i c op hi hCheck =>
    have hHere := hThreads i
    rw [hi] at hHere
    refine h.goto ⟨?_, hHere.2⟩
    change D.checkOp c op w.store = .done at hCheck
    unfold checkOp at hCheck
    split at hCheck
    · next hEnd =>
      have hAll := hHere.1
      rw [List.take_of_length_le (List.getElem?_eq_none_iff.mp hEnd)] at hAll
      exact hAll
    · split at hCheck <;> cases hCheck
  | @refused i c op e hi hCheck =>
    have hHere := hThreads i
    rw [hi] at hHere
    apply h.answer
    rw [hHere.2]
    exact told_nil nofun
  | @entered i c plan p hi hRun =>
    have hHere := hThreads i
    rw [hi] at hHere
    have hMarked : Transacts D w.phase w.crashed
        (.appended i c (w.group.appended + 1) :: w.history) := h.mark rfl
    refine hMarked.goto (holds_look _ i _ hHere.1 ?_)
    rw [ownSteps_quiet rfl]
    exact hHere.2
  | @torn i c plan e p hi hRun =>
    have hHere := hThreads i
    rw [hi] at hHere
    have hMarked : Transacts D w.phase w.crashed (.torn i c :: w.history) := h.mark rfl
    apply hMarked.answer
    rw [ownSteps_quiet rfl, hHere.2]
    exact told_nil nofun
  | enterCrashed | truncateCrashed =>
    apply Transacts.mark
    · exact h.crash
    · rfl
  | @wake i c seq hi | @readUpto i c seq hi | @unpark i c seq d hi =>
    have hHere := hThreads i
    rw [hi] at hHere
    exact h.goto hHere
  | @look i c seq hi =>
    have hHere := hThreads i
    rw [hi] at hHere
    exact h.goto (holds_look _ i seq hHere.1 hHere.2)
  | @startSync i c seq upto hi =>
    have hHere := hThreads i
    rw [hi] at hHere
    have hMarked : Transacts D w.phase w.crashed (.syncBegan i :: w.history) := h.mark rfl
    apply hMarked.goto
    rw [ownSteps_quiet rfl]
    exact hHere
  | @finishSync i c seq upto ok hi =>
    have hHere := hThreads i
    rw [hi] at hHere
    have hMarked : Transacts D (fun j => (w.phase j).wake) w.crashed
        (.synced i upto ok :: w.history) := h.wakeAll.mark rfl
    refine hMarked.goto (holds_look _ i seq hHere.1 ?_)
    rw [ownSteps_quiet rfl]
    exact hHere.2
  | @gate i c seq durable hi =>
    have hHere := hThreads i
    rw [hi] at hHere
    exact h.goto (holds_gate _ i seq durable hHere.1 hHere.2)
  | @applied i c seq turn phase plan hi hNext =>
    have hHere := hThreads i
    rw [hi] at hHere
    exact h.apply hHere.2 (holds_apply hHere.1 (hWhole i c seq turn plan rfl hi) hNext)
  | @applyCrashed i c seq turn plan hi hNext =>
    have hHere := hThreads i
    rw [hi] at hHere
    refine ⟨nofun, fun j c' seq' a earlier hMark => ?_⟩
    rcases List.suffix_cons_iff.mp hMark with hEq | hOld
    · cases hEq
    · exact h.answered j c' seq' a earlier hOld
  | @kept i c seq plan hi hLast =>
    have hHere := hThreads i
    rw [hi] at hHere
    exact h.goto hHere
  | @truncated i c seq plan hi hLast journal disk hRun =>
    have hHere := hThreads i
    rw [hi] at hHere
    have hMarked : Transacts D w.phase w.crashed (.truncated i :: w.history) := h.mark rfl
    apply hMarked.goto
    rw [ownSteps_quiet rfl]
    exact hHere
  | @release i c seq answer hi =>
    have hHere := hThreads i
    rw [hi] at hHere
    exact (h.unpark _).answer _ hHere
  | wrote x => exact h.mark rfl

end Transacts

variable {journal : BatchJournal} {disk : Disk} {store : Stack R}
variable {w : World (Stack R) Txn DirectWrite (Nat × ErrorCode)}

/-- **All or nothing.** In a run in which no apply stops half-way, every call that was answered `Ok`
had written all of its updates at once, and every other one had changed nothing. -/
theorem all_or_nothing
    (h : Machine.Runs (step D.service) D.AppliesWhole (World.start journal disk store) w) :
    ∀ i c seq answer earlier, (.answered i c seq answer :: earlier) <:+ w.history →
      (answer = .returned (.ok ()) →
        ∃ before after, ownSteps i earlier = [(before, after)] ∧ D.Applied c.updates before after) ∧
      (answer ≠ .returned (.ok ()) → ∀ step ∈ ownSteps i earlier, step.2 = step.1) := by
  have hTransacts : Transacts D w.phase w.crashed w.history := by
    refine Machine.Runs.invariant
      (P := fun w => Transacts D w.phase w.crashed w.history) h Transacts.start ?_
    intro t e u _ hInv hWhole hStep
    exact hInv.steps (live_of_step hStep) hWhole (steps_of_step hStep)
  exact hTransacts.answered

/-- A check of `AppliesWhole` that looks at the records only. -/
def rowsThere (D : Domain R V) (w : World (Stack R) Txn DirectWrite (Nat × ErrorCode)) :
    Event Txn DirectWrite → Bool
  | .act i (.apply _) =>
    match w.phase i with
    | .applying c _ _ => c.updates.all (D.reaches w.store)
    | _ => true
  | _ => true

theorem appliesWhole_of_rowsThere {e : Event Txn DirectWrite} (h : D.rowsThere w e = true) :
    D.AppliesWhole w e := by
  rintro i c seq turn plan rfl hPhase
  refine Or.inr (Or.inl ?_)
  unfold rowsThere at h
  dsimp only at h
  rw [hPhase] at h
  exact List.all_eq_true.mp h

end Domain

namespace Memory

def sampleStart : World (Stack Memory) Txn DirectWrite (Nat × ErrorCode) :=
  World.start ⟨BatchJournal.samplePath, HEADER_LEN⟩
    (Function.update (fun _ => none) BatchJournal.samplePath (some (BatchJournal.image [])))
      sampleStack

/-- A transaction that counts both memories. -/
def sampleTxn : Txn :=
  ⟨[⟨Uuid.ofNat 1, FIELD_ACCESS_COUNT, .i64 5⟩, ⟨Uuid.ofNat 2, FIELD_ACCESS_COUNT, .i64 5⟩], []⟩

/-- A thread calls with a transaction of two writes, and gets as far as its turn. -/
def sampleComes (i : Thread) (c : Txn) : List (Event Txn DirectWrite) :=
  [.act i (.call c), .act i .check, .act i .check, .act i .check, .act i (.enter []),
    .act i .readUpto, .act i .startSync, .act i (.finishSync true)]

def sampleApplies (i : Thread) : List (Event Txn DirectWrite) :=
  [.act i (.apply []), .act i .release]

/-- A transaction that counts the second memory where the first one has not been counted. -/
def sampleReader : Txn :=
  ⟨[⟨Uuid.ofNat 2, FIELD_ACCESS_COUNT, .i64 9⟩], [(Uuid.ofNat 1, FIELD_ACCESS_COUNT, .i64 0)]⟩

/-- Two threads come, one sync covers both, and the first memory is updated before either has its
turn. -/
def sampleContends : List (Event Txn DirectWrite) :=
  [.act 1 (.call sampleTxn), .act 1 .check, .act 1 .check, .act 1 .check, .act 1 (.enter []),
    .act 2 (.call sampleReader), .act 2 .check, .act 2 .check, .act 2 (.enter []), .act 1 .readUpto,
    .act 1 .startSync, .act 1 (.finishSync true), .act 2 .look,
    .write (.updateField (Uuid.ofNat 1) FIELD_ACCESS_COUNT (.i64 7))] ++ sampleApplies 1 ++
  .act 2 .gate :: sampleApplies 2

/-- The threads that were answered, the last one first, and whether they were answered `Ok`. -/
def answeredOk : List (Mark (Stack Memory) Txn DirectWrite (Nat × ErrorCode)) → List (Thread × Bool)
  | [] => []
  | .answered i _ _ (.returned (.ok ())) :: history => (i, true) :: answeredOk history
  | .answered i _ _ _ :: history => (i, false) :: answeredOk history
  | _ :: history => answeredOk history

/-- The first transaction is applied as a whole, and the second one is refused in its turn. -/
theorem all_or_nothing_sample :
    ∃ w, Machine.run (step domain.service) sampleStart sampleContends = some w ∧
      answeredOk w.history = [(2, false), (1, true)] ∧
      ∀ i c seq answer earlier, (.answered i c seq answer :: earlier) <:+ w.history →
        (answer = .returned (.ok ()) →
          ∃ before after, ownSteps i earlier = [(before, after)] ∧
            domain.Applied c.updates before after) ∧
        (answer ≠ .returned (.ok ()) → ∀ step ∈ ownSteps i earlier, step.2 = step.1) := by
  have hAnswers : (Machine.run (step domain.service) sampleStart sampleContends).any (fun w =>
      answeredOk w.history = [(2, false), (1, true)]) = true := by decide +kernel
  have hAllowed : Machine.allowed (step domain.service) domain.rowsThere sampleStart
      sampleContends = true := by decide +kernel
  obtain ⟨w, hRun, hAnswers⟩ := (Option.any_eq_true _ _).mp hAnswers
  have hRuns := (Machine.runs_of_allowed hRun hAllowed).mono fun _ _ =>
    Domain.appliesWhole_of_rowsThere
  exact ⟨w, hRun, of_decide_eq_true hAnswers, Domain.all_or_nothing hRuns⟩

/-- The second memory is deleted between the check and the apply. -/
def sampleDeletes : List (Event Txn DirectWrite) :=
  sampleComes 1 sampleTxn ++ .write (.op (.delete (Uuid.ofNat 2)) .works) :: sampleApplies 1

/-- Whether the last call was refused in its turn, and had counted the first memory. -/
def countedAndRefused (w : World (Stack Memory) Txn DirectWrite (Nat × ErrorCode)) : Bool :=
  match w.history with
  | .answered i _ _ (.returned (.error (.apply _))) :: earlier =>
    (ownSteps i earlier).any fun step => step.2.rows (Uuid.ofNat 1) ≠ step.1.rows (Uuid.ofNat 1)
  | _ => false

/-- A transaction counts one memory, and answers that it failed. -/
theorem half_applied :
    ¬ ∀ (journal : BatchJournal) (disk : Disk) (store : Stack Memory)
        (w : World (Stack Memory) Txn DirectWrite (Nat × ErrorCode)),
      Machine.Reachable (step domain.service) (World.start journal disk store) w →
        ∀ i c seq answer earlier, (.answered i c seq answer :: earlier) <:+ w.history →
          (answer = .returned (.ok ()) → ∃ before after, ownSteps i earlier = [(before, after)] ∧
            domain.Applied c.updates before after) ∧
          (answer ≠ .returned (.ok ()) → ∀ step ∈ ownSteps i earlier, step.2 = step.1) := by
  intro hClaim
  have hCheck : (Machine.run (step domain.service) sampleStart sampleDeletes).any
      countedAndRefused = true := by decide +kernel
  obtain ⟨w, hRun, hCounted⟩ := (Option.any_eq_true _ _).mp hCheck
  unfold countedAndRefused at hCounted
  split at hCounted
  · next i c seq e earlier hHistory =>
    obtain ⟨step, hStep, hChanged⟩ := List.any_eq_true.mp hCounted
    have hMark : (.answered i c seq (.returned (.error (.apply e))) :: earlier) <:+ w.history := by
      rw [hHistory]
    have hSame :=
      (hClaim _ _ _ w (Machine.runs_of_run hRun) i c seq _ earlier hMark).2 nofun step hStep
    rw [hSame] at hChanged
    exact absurd rfl (of_decide_eq_true hChanged)
  · cases hCounted

end Memory

end MultimodalDb
