import MultimodalDb.Server.JournaledRestart

/-!
# Batches that wrote

Of the batches of a run, those that wrote in their turn, and the entries that are still in the
journal. In runs whose direct writes delete nothing and whose appends go to whole files, the records
of the entries stay in the table, and a batch is answered `Ok` just when it wrote.

* `Steady.steps`: what is kept by the steps of such runs.
* `Steady.answers`: what the answers say about the batches that wrote.
-/

namespace MultimodalDb

open CommitGroup BatchJournal

namespace Domain

variable {R V : Type} (D : Domain R V)

/-! ## Batches that wrote -/

/-- The batches that wrote in their turn, with their numbers, the first one first. -/
def wrote : History (Stack R) Txn DirectWrite (Nat × ErrorCode) → List (Nat × Batch)
  | [] => []
  | .applied _ c seq before _ :: earlier =>
    match D.checkReadSet c.readSet before with
    | .ok () => wrote earlier ++ [(seq, c.updates)]
    | .error _ => wrote earlier
  | _ :: earlier => wrote earlier

/-- The batches up to a number that wrote. -/
def wroteUpTo (kept : Nat) (history : History (Stack R) Txn DirectWrite (Nat × ErrorCode)) :
    List Batch :=
  ((D.wrote history).filter (·.1 ≤ kept)).map Prod.snd

/-- The batches behind a number whose entries have been appended. -/
def entriesAfter (kept : Nat) (history : History (Stack R) Txn DirectWrite (Nat × ErrorCode)) :
    List Batch :=
  ((appendedCalls history).drop kept).map Txn.updates

variable {D}

variable {history : History (Stack R) Txn DirectWrite (Nat × ErrorCode)}

theorem mem_wrote {seq : Nat} {batch : Batch} (h : (seq, batch) ∈ D.wrote history) :
    ∃ i c before after, .applied i c seq before after ∈ history ∧ batch = c.updates ∧
      D.checkReadSet c.readSet before = .ok () := by
  induction history with
  | nil => cases h
  | cons m earlier ih =>
    have hOld : (seq, batch) ∈ D.wrote earlier → ∃ i c before after,
        .applied i c seq before after ∈ m :: earlier ∧ batch = c.updates ∧
          D.checkReadSet c.readSet before = .ok () := by
      intro hMem
      obtain ⟨i, c, before, after, hMark, hRest⟩ := ih hMem
      exact ⟨i, c, before, after, List.mem_cons_of_mem _ hMark, hRest⟩
    cases m with
    | applied i c s before after =>
      rw [wrote] at h
      split at h
      · next hReads =>
        rcases List.mem_append.mp h with hMem | hHere
        · exact hOld hMem
        · cases List.mem_singleton.mp hHere
          exact ⟨i, c, before, after, List.mem_cons_self, rfl, hReads⟩
      · exact hOld h
    | _ => exact hOld h

theorem wrote_sublist (history : History (Stack R) Txn DirectWrite (Nat × ErrorCode)) :
    ((D.wrote history).map Prod.fst).Sublist (appliedSeqs history).reverse := by
  induction history with
  | nil => exact .slnil
  | cons m earlier ih =>
    cases m with
    | applied i c s before after =>
      rw [wrote, appliedSeqs_applied, List.reverse_cons]
      split
      · rw [List.map_append]
        exact ih.append (.refl _)
      · exact ih.trans (List.sublist_append_left _ _)
    | _ => exact ih

theorem seq_of_wrote {s : Nat} {batch : Batch} (h : (s, batch) ∈ D.wrote history) :
    s ∈ appliedSeqs history :=
  List.mem_reverse.mp ((wrote_sublist history).subset (List.mem_map_of_mem h))

theorem wrote_applied_ok {i : Thread} {c : Txn} {s : Nat} {before after : Stack R}
    (h : D.checkReadSet c.readSet before = .ok ()) :
    D.wrote (.applied i c s before after :: history) = D.wrote history ++ [(s, c.updates)] := by
  rw [wrote, h]

theorem wrote_applied_error {i : Thread} {c : Txn} {s : Nat} {before after : Stack R}
    {code : Nat × ErrorCode} (h : D.checkReadSet c.readSet before = .error code) :
    D.wrote (.applied i c s before after :: history) = D.wrote history := by
  rw [wrote, h]

/-- Under another number, a batch in its turn writes nothing. -/
theorem mem_wrote_applied {i : Thread} {c : Txn} {s s' : Nat} {before after : Stack R}
    {batch : Batch} (hOther : s' ≠ s) :
    (s', batch) ∈ D.wrote (.applied i c s before after :: history) ↔
      (s', batch) ∈ D.wrote history := by
  cases h : D.checkReadSet c.readSet before with
  | error code => rw [wrote_applied_error h]
  | ok =>
    rw [wrote_applied_ok h, List.mem_append, List.mem_singleton, Prod.mk.injEq]
    exact or_iff_left fun hHere => hOther hHere.1

/-! ## Steps that delete nothing -/

variable (D)

/-- What is known of the records of a call that has been checked so far. -/
def Known (s : Stack R) : Phase Txn (Nat × ErrorCode) → Prop
  | .validating c i => ∀ op ∈ c.updates.take i, D.reaches s op = true
  | .entering c => ∀ op ∈ c.updates, D.reaches s op = true
  | _ => True

/-- A direct write that deletes nothing. -/
def DeletesNothing (w : World (Stack R) Txn DirectWrite (Nat × ErrorCode))
    (e : Event Txn DirectWrite) :
    Prop :=
  ∀ x, e = .write x → D.deletes w.store x = []

variable {D}

theorem Known.mono {s s' : Stack R} {phase : Phase Txn (Nat × ErrorCode)} (h : D.Known s phase)
    (hReaches : ∀ op, D.reaches s op = true → D.reaches s' op = true) : D.Known s' phase := by
  cases phase with
  | validating | entering => exact fun op hOp => hReaches op (h op hOp)
  | _ => trivial

theorem Known.of_held {s : Stack R} {phase : Phase Txn (Nat × ErrorCode)} {x : Txn × Nat}
    (h : phase.held? = some x) : D.Known s phase := by
  cases phase <;> trivial

theorem Known.wake {s : Stack R} {phase : Phase Txn (Nat × ErrorCode)} (h : D.Known s phase) :
    D.Known s phase.wake := by
  cases phase <;> exact h

theorem Known.unpark {s : Stack R} {phase : Phase Txn (Nat × ErrorCode)} (h : D.Known s phase) :
    D.Known s phase.unpark := by
  cases phase <;> exact h

theorem known_unparkWaiter {s : Stack R} {phase : Thread → Phase Txn (Nat × ErrorCode)}
    (h : ∀ j, D.Known s (phase j)) (waiter : Option Thread) (j : Thread) :
    D.Known s (unparkWaiter waiter phase j) := by
  cases waiter with
  | none => exact h j
  | some k =>
    rw [unparkWaiter_some]
    by_cases hj : j = k
    · rw [hj, Function.update_self]
      exact (h k).unpark
    · rw [Function.update_of_ne hj]
      exact h j

variable {w w' : World (Stack R) Txn DirectWrite (Nat × ErrorCode)} {e : Event Txn DirectWrite}

/-- Records stay. -/
theorem reaches_steps (hDeletes : D.DeletesNothing w e) (h : Steps D.service w e w')
    (op : TransactionOp) (hOp : D.reaches w.store op = true) : D.reaches w'.store op = true := by
  cases h with
  | @applied i c seq turn phase plan | @applyCrashed i c seq turn plan =>
    exact (reaches_applyTurn c turn plan w.store op).trans hOp
  | wrote x =>
    change D.reaches (D.directWrite x w.store) op = true
    unfold reaches at hOp ⊢
    rw [Bool.or_eq_true] at hOp ⊢
    refine hOp.imp_right fun hRow => isSome_directWrite hRow ?_
    rw [hDeletes x rfl]
    exact List.not_mem_nil
  | _ => exact hOp

/-- What the checks have found stays true. -/
theorem known_steps (h : ∀ i, D.Known w.store (w.phase i)) (hDeletes : D.DeletesNothing w e)
    (hStep : Steps D.service w e w') : ∀ i, D.Known w'.store (w'.phase i) := by
  have hMono := reaches_steps hDeletes hStep
  have hOther : ∀ i, D.Known w'.store (w.phase i) := fun i => (h i).mono hMono
  have hGoto : ∀ (i : Thread) (phase : Phase Txn (Nat × ErrorCode)), D.Known w'.store phase →
      ∀ j, D.Known w'.store (Function.update w.phase i phase j) := fun i phase hPhase =>
    (Function.forall_update_iff w.phase fun _ q => D.Known w'.store q).mpr
      ⟨hPhase, fun j _ => hOther j⟩
  cases hStep with
  | call c hi => exact hGoto _ _ nofun
  | @check i c op hi hCheck =>
    apply hGoto
    intro o ho
    have hHere := h i
    rw [hi] at hHere
    change D.checkOp c op w.store = .next at hCheck
    unfold checkOp at hCheck
    split at hCheck
    · cases hCheck
    · next o' hOp =>
      split at hCheck
      · cases hCheck
      · next v hValue =>
        rw [List.take_add_one, hOp, Option.toList_some] at ho
        rcases List.mem_append.mp ho with hOld | hNew
        · exact hHere o hOld
        · rw [List.mem_singleton.mp hNew]
          change D.reaches w.store o' = true
          rw [reaches, (valid_of_checkWrite hValue).2, Bool.or_true]
  | @checked i c op hi hCheck =>
    apply hGoto
    intro o ho
    have hHere := h i
    rw [hi] at hHere
    change D.checkOp c op w.store = .done at hCheck
    unfold checkOp at hCheck
    split at hCheck
    · next hEnd =>
      rw [← List.take_of_length_le (List.getElem?_eq_none_iff.mp hEnd)] at ho
      exact hHere o ho
    · split at hCheck <;> cases hCheck
  | refused | torn => exact hGoto _ _ trivial
  | entered => exact hGoto _ _ (.of_held (held?_look _ _ _ _))
  | enterCrashed | applyCrashed | truncateCrashed | wrote => exact hOther
  | wake | readUpto | startSync | unpark | kept => exact hGoto _ _ trivial
  | look => exact hGoto _ _ (.of_held (held?_look _ _ _ _))
  | @finishSync i c seq upto ok =>
    refine (Function.forall_update_iff _ fun _ q => D.Known _ q).mpr
      ⟨.of_held (held?_look _ _ _ _), ?_⟩
    exact fun j _ => (hOther j).wake
  | gate => exact hGoto _ _ (.of_held (held?_gate _ _ _ _ _))
  | applied plan hi hNext =>
    apply hGoto
    rcases afterApply_cases hNext with rfl | ⟨answer, rfl, -⟩ <;> trivial
  | truncated => exact hGoto _ _ trivial
  | @release i c seq answer hi =>
    exact (Function.forall_update_iff _ fun _ q => D.Known _ q).mpr
      ⟨trivial, fun j _ => known_unparkWaiter hOther _ j⟩

/-- An apply with its records there writes nothing, or all of the batch unless the process stops. -/
theorem applyTurn_cases {c : Txn} (turn : Turn) (plan : List Outcome) {s : Stack R}
    (hRows : ∀ op ∈ c.updates, D.reaches s op = true) :
    (∃ e, D.checkReadSet c.readSet s = .error e ∧ (D.applyTurn c turn plan s).2 = s) ∨
      (D.checkReadSet c.readSet s = .ok () ∧
        (∃ n, (D.applyTurn c turn plan s).2 = D.written s (D.log (c.updates.take n))) ∧
        ∀ seq phase, afterApply c seq (D.applyTurn c turn plan s).1 = some phase →
          (D.applyTurn c turn plan s).2 = D.written s (D.log c.updates)) := by
  unfold applyTurn
  cases hReads : D.checkReadSet c.readSet s with
  | error e => exact Or.inl ⟨e, rfl, rfl⟩
  | ok u =>
    refine Or.inr ⟨rfl, ?_⟩
    dsimp only
    split
    · next n rest =>
      have hPart : ∀ op ∈ c.updates.take n, D.reaches s op = true :=
        fun op hOp => hRows op (List.mem_of_mem_take hOp)
      rw [D.applyBatch_of_reaches 0 hPart]
      exact ⟨⟨n, rfl⟩, nofun⟩
    · rw [D.applyBatch_of_reaches 0 hRows]
      exact ⟨⟨c.updates.length, by rw [List.take_length]⟩, fun _ _ _ => rfl⟩

/-- What holds of an adapter while it runs: the first `kept` entries are gone from the journal, and
the records of the others are in the table. -/
structure Steady (D : Domain R V) (path : Path)
    (w : World (Stack R) Txn DirectWrite (Nat × ErrorCode)) (kept : Nat) : Prop where
  live : w.crashed = false
  inv : CommitGroup.Invariant w
  ledger : CommitGroup.Ledger D.service path w kept
  rows : Restartable D path w
  known : ∀ i, D.Known w.store (w.phase i)

namespace Steady

variable {path : Path} {kept : Nat}

theorem start {disk : Disk} (hFile : disk path = some (image [])) (store : Stack R) :
    Steady D path (World.start ⟨path, HEADER_LEN⟩ disk store) 0 :=
  ⟨rfl, .start _ _ _, .start hFile _ _, ⟨rfl, [], found_image hFile, nofun⟩, fun _ => trivial⟩

theorem reaches_entries (h : Steady D path w kept) :
    ∀ batch ∈ entriesAfter kept w.history, ∀ op ∈ batch, D.reaches w.store op = true := by
  obtain ⟨entries, hFound, hRows⟩ := h.rows.found
  obtain rfl := hFound.unique (h.ledger.found_live h.live)
  exact hRows

/-- A batch in its turn is behind the first `kept`, and its entry is in the journal. -/
theorem applying (h : Steady D path w kept) {i : Thread} {c : Txn} {seq : Nat} {turn : Turn}
    (hi : w.phase i = .applying c seq turn) :
    kept < seq ∧ c.updates ∈ entriesAfter kept w.history := by
  have hAt := h.ledger.calls.held i c seq (by rw [hi]; rfl)
  have hBehind : kept < seq := by
    by_contra hLe
    have hDone := h.ledger.calls.dropped i seq (by rw [hi]; rfl) (by omega)
    rw [hi] at hDone
    cases hDone
  refine ⟨hBehind, List.mem_map_of_mem (List.mem_of_getElem? (i := seq - 1 - kept) ?_)⟩
  rw [List.getElem?_drop, Nat.add_sub_cancel' (by omega)]
  exact hAt.2

/-- **One step.** -/
theorem steps (h : Steady D path w kept) (hWhole : AppendsWhole D.service path w e)
    (hDeletes : D.DeletesNothing w e) (hStep : step D.service w e = some w') :
    ∃ kept', CommitGroup.Ledger D.service path w' kept' ∧ Restartable D path w' ∧
      (w'.crashed = false → Steady D path w' kept') ∧
      (kept' = kept ∨ kept' = w.group.appended ∧ w'.store = w.store ∧
        ∃ i c, w.phase i = .flushed c w.group.appended ∧
          w'.history = .truncated i :: w.history) := by
  have hSteps := steps_of_step hStep
  have hKeeps : D.KeepsJournaled path w e := by
    cases e with
    | write x =>
      intro entries _ batch _ op _
      rw [hDeletes x rfl]
      exact List.not_mem_nil
    | act i a =>
      cases a with
      | enter plan =>
        intro c hi
        have hKnown := h.known i
        rw [hi] at hKnown
        exact ⟨(hWhole i c plan rfl hi).1, hKnown⟩
      | _ => trivial
  obtain ⟨kept', hLedger, hKept⟩ := h.ledger.steps h.live h.inv.turns hWhole hSteps
  have hRows := h.rows.steps hKeeps hSteps
  exact ⟨kept', hLedger, hRows,
    fun hLive => ⟨hLive, h.inv.step hStep, hLedger, hRows, known_steps h.known hDeletes hSteps⟩,
    hKept⟩

end Steady

/-! ## Answers -/

/-- The call a thread holds, its number, and whether it goes on to answer `Ok`. -/
def passed? : Phase Txn (Nat × ErrorCode) → Option (Txn × Nat × Bool)
  | .flushed c s => some (c, s, true)
  | .leaving c s (.returned (.ok ())) => some (c, s, true)
  | phase => phase.held?.map fun (c, s) => (c, s, false)

@[simp] theorem passed?_wake (phase : Phase Txn (Nat × ErrorCode)) :
    passed? phase.wake = passed? phase := by
  cases phase <;> rfl

@[simp] theorem passed?_unpark (phase : Phase Txn (Nat × ErrorCode)) :
    passed? phase.unpark = passed? phase := by
  cases phase <;> rfl

theorem passed?_gate (g : GroupState) (i : Thread) (c : Txn) (s : Nat) (durable : Bool) :
    passed? (gate g i c s durable).2 = some (c, s, false) := by
  unfold gate
  split
  · rfl
  · split <;> rfl

theorem passed?_look (g : GroupState) (i : Thread) (c : Txn) (s : Nat) :
    passed? (look g i c s).2 = some (c, s, false) := by
  have hSettled := settled_look (ε := Nat × ErrorCode) g i c s
  generalize (look g i c s : GroupState × Phase Txn (Nat × ErrorCode)) = r at hSettled
  cases hSettled with
  | asleep | leading => rfl
  | gated durable => exact passed?_gate g i c s durable

theorem nextApply_gate (g : GroupState) (i : Thread) (c : Txn) (s : Nat) (durable : Bool) :
    (gate g i c s durable : GroupState × Phase Txn (Nat × ErrorCode)).1.nextApply = g.nextApply :=
  (Applies.gate_seq g i c s durable rfl).2.2

theorem nextApply_look (g : GroupState) (i : Thread) (c : Txn) (s : Nat) :
    (look g i c s : GroupState × Phase Txn (Nat × ErrorCode)).1.nextApply = g.nextApply :=
  (Applies.look_seq g i c s rfl).2.2

def isOk : Answer (Nat × ErrorCode) → Bool
  | .returned (.ok ()) => true
  | _ => false

theorem passed?_leaving (c : Txn) (s : Nat) (answer : Answer (Nat × ErrorCode)) :
    passed? (.leaving c s answer) = some (c, s, isOk answer) := by
  unfold passed? isOk
  split <;> simp_all [Phase.held?]

theorem seq?_of_passed? {phase : Phase Txn (Nat × ErrorCode)} {c : Txn} {s : Nat} {b : Bool}
    (h : passed? phase = some (c, s, b)) : phase.seq? = some s := by
  unfold passed? at h
  split at h
  · cases h
    rfl
  · cases h
    rfl
  · obtain ⟨held, hHeld, hEq⟩ := Option.map_eq_some_iff.mp h
    cases hEq
    exact Phase.seq?_of_held? hHeld

/-- A batch that passed has written, under its number; one that did not has not. -/
def Records (D : Domain R V)
    (history : History (Stack R) Txn DirectWrite (Nat × ErrorCode)) (c : Txn)
    (s : Nat) (passed : Bool) : Prop :=
  if passed then (s, c.updates) ∈ D.wrote history else ∀ batch, (s, batch) ∉ D.wrote history

theorem Records.applied_iff {i : Thread} {c c' : Txn} {s s' : Nat}
    {before after : Stack R} {b : Bool} (hOther : s' ≠ s) :
    Records D (.applied i c s before after :: history) c' s' b ↔ Records D history c' s' b := by
  unfold Records
  simp only [mem_wrote_applied hOther]

/-- What the answers say about the batches that wrote. -/
structure Answers (D : Domain R V) (g : GroupState) (phase : Thread → Phase Txn (Nat × ErrorCode))
    (crashed : Bool) (history : History (Stack R) Txn DirectWrite (Nat × ErrorCode)) : Prop where
  holds : crashed = false → ∀ i c s b, passed? (phase i) = some (c, s, b) → Records D history c s b
  answered : ∀ i c s a, .answered i c (some s) a ∈ history → s < g.nextApply ∧
    Records D history c s (isOk a)
  unnumbered : ∀ i c a, .answered i c none a ∈ history → isOk a = false

namespace Answers

variable {g g' : GroupState} {phase : Thread → Phase Txn (Nat × ErrorCode)} {crashed : Bool}

theorem start (journal : BatchJournal) : Answers D (opened journal) (fun _ => .outside) false [] :=
  ⟨nofun, nofun, nofun⟩

theorem group (h : Answers D g phase crashed history) (hNext : g'.nextApply = g.nextApply) :
    Answers D g' phase crashed history :=
  ⟨h.holds, by rw [hNext]; exact h.answered, h.unnumbered⟩

theorem crash (h : Answers D g phase crashed history) : Answers D g phase true history :=
  ⟨nofun, h.answered, h.unnumbered⟩

theorem goto (h : Answers D g phase crashed history) {i : Thread} {p : Phase Txn (Nat × ErrorCode)}
    (hp : ∀ c s b, passed? p = some (c, s, b) → crashed = false → Records D history c s b) :
    Answers D g (Function.update phase i p) crashed history :=
  ⟨fun hLive => (Function.forall_update_iff phase fun _ q =>
    ∀ c s b, passed? q = some (c, s, b) → Records D history c s b).mpr
      ⟨fun c s b hb => hp c s b hb hLive, fun j _ => h.holds hLive j⟩, h.answered, h.unnumbered⟩

/-- A thread moves on with the call it holds. -/
theorem move (h : Answers D g phase crashed history) {i : Thread} {p : Phase Txn (Nat × ErrorCode)}
    (hp : passed? p = passed? (phase i)) :
    Answers D g (Function.update phase i p) crashed history := by
  apply h.goto
  rw [hp]
  exact fun c s b hb hLive => h.holds hLive i c s b hb

theorem wakeAll (h : Answers D g phase crashed history) :
    Answers D g (fun j => (phase j).wake) crashed history :=
  ⟨by simpa only [passed?_wake] using h.holds, h.answered, h.unnumbered⟩

theorem unpark (h : Answers D g phase crashed history) (waiter : Option Thread) :
    Answers D g (unparkWaiter waiter phase) crashed history := by
  cases waiter with
  | none => exact h
  | some j => exact h.move (passed?_unpark _)

/-- A mark that answers no appended batch, and applies none. -/
theorem mark (h : Answers D g phase crashed history)
    {m : Mark (Stack R) Txn DirectWrite (Nat × ErrorCode)}
    (hApplied : m.appliedSeq? = none) (hUnanswered : m.Unanswered)
    (hNone : ∀ i c a, m = .answered i c none a → isOk a = false) :
    Answers D g phase crashed (m :: history) := by
  have hWrote : D.wrote (m :: history) = D.wrote history := by
    cases m <;> first | rfl | cases hApplied
  constructor
  · intro hLive i c s b hb
    rw [Records, hWrote]
    exact h.holds hLive i c s b hb
  · intro i c s a hMem
    rw [Records, hWrote]
    rcases List.mem_cons.mp hMem with rfl | hOld
    · exact hUnanswered.elim
    · exact h.answered i c s a hOld
  · intro i c a hMem
    rcases List.mem_cons.mp hMem with hHere | hOld
    · exact hNone i c a hHere.symm
    · exact h.unnumbered i c a hOld

theorem settle (h : Answers D g phase crashed history) {i : Thread} {c : Txn} {s : Nat}
    (hi : passed? (phase i) = some (c, s, false)) {r : GroupState × Phase Txn (Nat × ErrorCode)}
    (hr : passed? r.2 = some (c, s, false)) (hNext : r.1.nextApply = g.nextApply) :
    Answers D r.1 (Function.update phase i r.2) crashed history :=
  (h.move (hr.trans hi.symm)).group hNext

/-- A batch in its turn. -/
theorem apply (h : Answers D g phase false history) (hTurns : Turns g phase) {i : Thread}
    {c : Txn} {s : Nat}
    {turn : Turn} (hi : phase i = .applying c s turn) {p : Phase Txn (Nat × ErrorCode)}
    (before after : Stack R) (hp : ∀ c' s' b, passed? p = some (c', s', b) →
      Records D (.applied i c s before after :: history) c' s' b) :
    Answers D g (Function.update phase i p) false (.applied i c s before after :: history) := by
  have hSeq : (phase i).seq? = some s := by
    rw [hi]
    rfl
  refine ⟨fun _ => ?_, fun j d s' a hMem => ?_, fun j d a hMem => ?_⟩
  · refine (Function.forall_update_iff phase fun _ q => ∀ c' s' b, passed? q = some (c', s', b) →
      Records D (.applied i c s before after :: history) c' s' b).mpr ⟨hp,
        fun j hj c' s' b hb => ?_⟩
    have hOther : s' ≠ s := by
      rintro rfl
      exact hj (hTurns.distinct j i s' (seq?_of_passed? hb) hSeq)
    exact (Records.applied_iff hOther).mpr (h.holds rfl j c' s' b hb)
  · rcases List.mem_cons.mp hMem with hHere | hOld
    · cases hHere
    · obtain ⟨hLt, hRecords⟩ := h.answered j d s' a hOld
      have hTurn := hTurns.turn i s (by rw [hi]; rfl) hSeq
      exact ⟨hLt, (Records.applied_iff (by omega)).mpr hRecords⟩
  · rcases List.mem_cons.mp hMem with hHere | hOld
    · cases hHere
    · exact h.unnumbered j d a hOld

end Answers

/-- What an apply closure did, by how its thread goes on. -/
theorem records_applied {i : Thread} {c : Txn} {s : Nat} {turn : Turn} {plan : List Outcome}
    {t : Stack R} {p : Phase Txn (Nat × ErrorCode)} (hFresh : ∀ batch, (s, batch) ∉ D.wrote history)
    (hRows : ∀ op ∈ c.updates, D.reaches t op = true)
    (hNext : afterApply c s (D.applyTurn c turn plan t).1 = some p) :
    ∃ b, passed? p = some (c, s, b) ∧
      Records D (.applied i c s t (D.applyTurn c turn plan t).2 :: history) c s b := by
  unfold applyTurn at hNext ⊢
  cases hReads : D.checkReadSet c.readSet t with
  | error code =>
    rw [hReads] at hNext
    cases hNext
    refine ⟨false, rfl, fun batch hMem => hFresh batch ?_⟩
    rwa [wrote_applied_error hReads] at hMem
  | ok =>
    have hHere : Records D (.applied i c s t (D.applyTurn c turn plan t).2 :: history) c
        s true := by
      rw [Records, if_pos rfl, wrote_applied_ok hReads]
      exact List.mem_append_right _ (List.mem_singleton_self _)
    unfold applyTurn at hHere
    rw [hReads] at hNext hHere
    refine ⟨true, ?_, hHere⟩
    dsimp only at hNext
    split at hNext
    · cases hNext
    · rw [D.applyBatch_of_reaches 0 hRows] at hNext
      dsimp only at hNext
      generalize (turn.checkpointDue && flushed _) = due at hNext
      cases due with
      | true =>
        cases hNext
        rfl
      | false =>
        cases hNext
        rfl

namespace Steady

variable {path : Path} {kept : Nat}

/-- The number of a batch that has not had its turn is new. -/
theorem fresh (h : Steady D path w kept) {i : Thread} {s : Nat} (hSeq : (w.phase i).seq? = some s)
    (hDone : (w.phase i).isDone = false) (batch : Batch) : (s, batch) ∉ D.wrote w.history := by
  intro hMem
  have hTrue := h.inv.applies.holder h.live i s hSeq (seq_of_wrote hMem)
  rw [hDone] at hTrue
  cases hTrue

/-- **What the answers say, after a step.** -/
theorem answers (h : Steady D path w kept)
    (hAnswers : Answers D w.group w.phase w.crashed w.history)
    (hStep : Steps D.service w e w') : Answers D w'.group w'.phase w'.crashed w'.history := by
  have hTurns := h.inv.turns
  cases hStep with
  | call c hi => exact hAnswers.goto nofun
  | check hi | checked hi => exact hAnswers.goto nofun
  | @refused i c op code hi =>
    have hMarked :=
      hAnswers.mark (m := .answered i c none (.refused code)) rfl trivial fun _ _ _ hMark => by
      cases hMark
      rfl
    exact hMarked.goto nofun
  | @entered i c plan p hi hRun =>
    have hMarked := hAnswers.mark (m := .appended i c (w.group.appended + 1)) rfl trivial nofun
    refine Answers.group (hMarked.goto (p := (look _ i c _).2) ?_) (nextApply_look _ i c _)
    intro d s b hb _
    rw [passed?_look] at hb
    cases hb
    intro batch hMem
    have hLe := (h.inv.applies.le_next _ (seq_of_wrote hMem)).2
    omega
  | @torn i c plan code p hi hRun =>
    have hMarked := hAnswers.mark (m := .torn i c) rfl trivial nofun
    have hAnswered := hMarked.mark
      (m := .answered i c none (.returned (.error (.journal code)))) rfl trivial
      fun _ _ _ hMark => by
        cases hMark
        rfl
    exact (hAnswered.goto (p := .outside) nofun).group rfl
  | @enterCrashed i c plan code p hi hRun =>
    exact (hAnswers.mark (m := .torn i c) rfl trivial nofun).crash
  | @wake i c s hi | @readUpto i c s hi | @unpark i c s durable hi =>
    refine hAnswers.move ?_
    rw [hi]
    rfl
  | @look i c s hi =>
    exact hAnswers.settle (by rw [hi]; rfl) (passed?_look _ i c s) (nextApply_look _ i c s)
  | @startSync i c s upto hi =>
    refine (hAnswers.mark (m := .syncBegan i) rfl trivial nofun).move ?_
    rw [hi]
    rfl
  | @finishSync i c s upto ok hi =>
    have hWoken : Answers D (w.group.finishSync upto ok) (fun j => (w.phase j).wake) w.crashed
        w.history :=
      hAnswers.wakeAll.group (by cases ok <;> rfl)
    have hMarked := hWoken.mark (m := .synced i upto ok) rfl trivial nofun
    exact hMarked.settle (by rw [hi]; rfl) (passed?_look _ i c s) (nextApply_look _ i c s)
  | @gate i c s durable hi =>
    exact hAnswers.settle (by rw [hi]; rfl) (passed?_gate _ i c s durable)
      (nextApply_gate _ i c s durable)
  | @applied i c s turn p plan hi hNext =>
    have hFresh := h.fresh (i := i) (s := s) (by rw [hi]; rfl) (by rw [hi]; rfl)
    have hRows : ∀ op ∈ c.updates, D.reaches w.store op = true :=
      h.reaches_entries _ (h.applying hi).2
    obtain ⟨b, hb, hRecords⟩ := records_applied (i := i) hFresh hRows hNext
    have hLive := h.live
    rw [hLive] at hAnswers
    change Answers D w.group (Function.update w.phase i p) w.crashed _
    rw [hLive]
    refine hAnswers.apply hTurns hi _ _ fun c' s' b' hb' => ?_
    rw [hb] at hb'
    cases hb'
    exact hRecords
  | @applyCrashed i c s turn plan hi hNext =>
    have hLive := h.live
    rw [hLive] at hAnswers
    have hSame :=
      hAnswers.apply hTurns hi (p := .outside) w.store (D.service.apply c turn plan w.store).2 nofun
    exact ⟨nofun, hSame.answered, hSame.unnumbered⟩
  | @kept i c s plan hi hLast =>
    refine hAnswers.move ?_
    rw [hi]
    rfl
  | @truncated i c s plan hi hLast journal disk hRun =>
    refine Answers.group ((hAnswers.mark (m := .truncated i) rfl trivial nofun).move ?_) rfl
    rw [hi]
    rfl
  | @truncateCrashed i c s plan hi =>
    exact (hAnswers.mark (m := .truncated i) rfl trivial nofun).crash
  | @release i c s answer hi =>
    have hTurn : s = w.group.nextApply := hTurns.turn i s (by rw [hi]; rfl) (by rw [hi]; rfl)
    have hHere := hAnswers.holds h.live i c s (isOk answer) (by rw [hi, passed?_leaving])
    have hOut := (hAnswers.unpark (w.group.turnWaiters (w.group.nextApply + 1))).goto (i := i)
      (p := .outside) nofun
    refine ⟨hOut.holds, fun j d s' a hMem => ?_, fun j d a hMem => ?_⟩
    · rcases List.mem_cons.mp hMem with hNew | hOld
      · cases hNew
        exact ⟨by rw [hTurn]; exact Nat.lt_succ_self _, hHere⟩
      · obtain ⟨hLt, hRecords⟩ := hAnswers.answered j d s' a hOld
        exact ⟨Nat.lt_succ_of_lt hLt, hRecords⟩
    · rcases List.mem_cons.mp hMem with hNew | hOld
      · cases hNew
      · exact hAnswers.unnumbered j d a hOld
  | wrote x =>
    exact hAnswers.mark (m := .wrote x w.store (D.service.write x w.store)) rfl trivial nofun

end Steady

end Domain

end MultimodalDb
