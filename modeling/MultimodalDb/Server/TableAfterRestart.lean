import MultimodalDb.Server.JournaledSurvivors

/-!
# The table after a restart

Of the batches of a run, those that were applied survive, and those whose entries are still in the
journal: an entry stays there when its sync failed, when its batch was refused in its turn, or when
the process stopped before the batch was answered. In runs of batches alone an adapter that opens
again has in its table just what the survivors come to (`survivors_after_restart`). Direct writes
are left out of such runs: an entry that stays may write over them.
-/

namespace MultimodalDb

open CommitGroup BatchJournal

namespace Domain

variable {R V : Type} {D : Domain R V}
variable {w w' : World (Stack R) Txn DirectWrite (Nat × ErrorCode)} {e : Event Txn DirectWrite}

/-! ## What the table holds -/

/-- What is in the table: all that wrote, and behind the first `kept` nothing that the entries do
not write again. -/
structure Written (D : Domain R V) (store : Stack R)
    (w : World (Stack R) Txn DirectWrite (Nat × ErrorCode)) (kept : Nat) : Prop where
  whole : w.crashed = false →
    w.store = D.written store (D.log ((D.wrote w.history).map Prod.snd).flatten)
  behind : ∃ rest, w.store = D.written store (D.log (D.wroteUpTo kept w.history).flatten ++ rest) ∧
    ∀ x ∈ rest, ∃ x' ∈ D.log (entriesAfter kept w.history).flatten, x'.1 = x.1

/-- A step of a batch, or of a direct write. -/
theorem steps_cases (hStep : Steps D.service w e w') :
    (w'.store = w.store ∧ D.wrote w'.history = D.wrote w.history ∧
      ∃ more, appendedCalls w'.history = appendedCalls w.history ++ more) ∨
    (∃ i c s turn plan, w.phase i = .applying c s turn ∧
      w'.store = (D.applyTurn c turn plan w.store).2 ∧
      w'.history = .applied i c s w.store w'.store :: w.history ∧
      (w'.crashed = false → ∃ p, afterApply c s (D.applyTurn c turn plan w.store).1 = some p)) ∨
    ∃ x, e = .write x := by
  cases hStep with
  | applied plan hi hNext => exact .inr (.inl ⟨_, _, _, _, plan, hi, rfl, rfl, fun _ => ⟨_, hNext⟩⟩)
  | applyCrashed plan hi => exact .inr (.inl ⟨_, _, _, _, plan, hi, rfl, rfl, nofun⟩)
  | wrote x => exact .inr (.inr ⟨x, rfl⟩)
  | entered hi => exact .inl ⟨rfl, rfl, [_], rfl⟩
  | _ => exact .inl ⟨rfl, rfl, [], (List.append_nil _).symm⟩

theorem mem_log_flatten {batches : List Batch} {batch : Batch} {x : RecordId × V}
    (hBatch : batch ∈ batches) (hMem : x ∈ D.log batch) : x ∈ D.log batches.flatten := by
  rw [log_flatten]
  exact List.mem_flatMap.mpr ⟨batch, hBatch, hMem⟩

namespace Written

variable {path : Path} {kept : Nat} {store : Stack R}

theorem start (path : Path) (disk : Disk) (store : Stack R) :
    Written D store (World.start ⟨path, HEADER_LEN⟩ disk store) 0 :=
  ⟨fun _ => rfl, [], rfl, nofun⟩

/-- A step that leaves the table alone. -/
theorem quiet (h : Written D store w kept) (hLive : w.crashed = false) (hStore : w'.store = w.store)
    (hWrote : D.wrote w'.history = D.wrote w.history)
    (hMore : ∃ more, appendedCalls w'.history = appendedCalls w.history ++ more) :
    Written D store w' kept := by
  obtain ⟨rest, hBehind, hRest⟩ := h.behind
  obtain ⟨more, hMore⟩ := hMore
  refine ⟨fun _ => ?_, rest, ?_, fun x hx => ?_⟩
  · rw [hStore, hWrote]
    exact h.whole hLive
  · rw [hStore, wroteUpTo, hWrote]
    exact hBehind
  · obtain ⟨x', hMem, hKey⟩ := hRest x hx
    refine ⟨x', ?_, hKey⟩
    rw [log_flatten] at hMem ⊢
    obtain ⟨batch, hBatch, hHere⟩ := List.mem_flatMap.mp hMem
    refine List.mem_flatMap.mpr ⟨batch, ?_, hHere⟩
    rw [entriesAfter, hMore, List.drop_append, List.map_append]
    exact List.mem_append_left _ hBatch

/-- All entries are gone, and all that wrote is in the table. -/
theorem all (h : Written D store w kept) (hSteady : Steady D path w kept)
    (hStore : w'.store = w.store)
    (hWrote : D.wrote w'.history = D.wrote w.history) : Written D store w' w.group.appended := by
  have hAll : D.wroteUpTo w.group.appended w'.history = (D.wrote w.history).map Prod.snd := by
    rw [wroteUpTo, hWrote, List.filter_eq_self.mpr]
    rintro ⟨s, batch⟩ hMem
    exact decide_eq_true (hSteady.inv.applies.le_next s (seq_of_wrote hMem)).2
  have hWhole := h.whole hSteady.live
  refine ⟨fun _ => ?_, [], ?_, nofun⟩
  · rw [hStore, hWrote]
    exact hWhole
  · rw [hStore, hAll, List.append_nil]
    exact hWhole

/-- A batch in its turn. -/
theorem apply (h : Written D store w kept) (hSteady : Steady D path w kept) {i : Thread}
    {c : Txn} {s : Nat} {turn : Turn} {plan : List Outcome} (hi : w.phase i = .applying c s turn)
    (hStore : w'.store = (D.applyTurn c turn plan w.store).2)
    (hHistory : w'.history = .applied i c s w.store w'.store :: w.history)
    (hNext : w'.crashed = false →
      ∃ p, afterApply c s (D.applyTurn c turn plan w.store).1 = some p) :
    Written D store w' kept := by
  obtain ⟨hBehind, hEntry⟩ := hSteady.applying hi
  have hEntries : entriesAfter kept w'.history = entriesAfter kept w.history := by
    rw [hHistory]
    rfl
  rcases applyTurn_cases turn plan (hSteady.reaches_entries _ hEntry) with
    ⟨code, hReads, hSame⟩ | ⟨hReads, ⟨n, hPart⟩, hFull⟩
  · refine h.quiet hSteady.live (hStore.trans hSame) ?_ ⟨[], ?_⟩
    · rw [hHistory, wrote_applied_error hReads]
    · rw [hHistory, List.append_nil]
      rfl
  · have hWrote : D.wrote w'.history = D.wrote w.history ++ [(s, c.updates)] := by
      rw [hHistory, wrote_applied_ok hReads]
    obtain ⟨rest, hOld, hRest⟩ := h.behind
    refine ⟨fun hLive => ?_, rest ++ D.log (c.updates.take n), ?_, fun x hx => ?_⟩
    · obtain ⟨p, hp⟩ := hNext hLive
      rw [hStore, hFull s p hp, h.whole hSteady.live, hWrote, ← written_append, List.map_append,
        List.flatten_append, log_append]
      simp
    · have hUpTo : D.wroteUpTo kept w'.history = D.wroteUpTo kept w.history := by
        rw [wroteUpTo, hWrote, List.filter_append, List.filter_singleton, wroteUpTo]
        simp [Nat.not_le.mpr hBehind]
      rw [hStore, hPart, hUpTo, hOld, ← written_append, List.append_assoc]
    · rw [hEntries]
      rcases List.mem_append.mp hx with hMem | hNew
      · exact hRest x hMem
      · refine ⟨x, mem_log_flatten hEntry ?_, rfl⟩
        obtain ⟨op, hOp, hHere⟩ := D.mem_log.mp hNew
        exact D.mem_log.mpr ⟨op, List.mem_of_mem_take hOp, hHere⟩

end Written

/-! ## Restarting -/

/-- What a step of an adapter leaves, stopped or not. -/
structure Survives (D : Domain R V) (path : Path) (store : Stack R)
    (w : World (Stack R) Txn DirectWrite (Nat × ErrorCode)) (kept : Nat) : Prop where
  ledger : CommitGroup.Ledger D.service path w kept
  rows : Restartable D path w
  steady : w.crashed = false → Steady D path w kept
  answers : Answers D w.group w.phase w.crashed w.history
  written : Written D store w kept

/-- The batches that survive: those up to a number that wrote, and those behind it whose entries are
in the journal. -/
structure Survivors (D : Domain R V) (w : World (Stack R) Txn DirectWrite (Nat × ErrorCode))
    (kept : Nat) (survivors : List Batch) : Prop where
  /-- The entry of an append that the process stopped in may be there. -/
  are : ∃ extra, survivors = D.wroteUpTo kept w.history ++ entriesAfter kept w.history ++ extra ∧
    (extra = [] ∨ (w.crashed = true ∧ ∃ i c earlier, w.history = .torn i c :: earlier ∧
      extra = [c.updates]))
  acknowledged : ∀ i c s, .answered i c s (.returned (.ok ())) ∈ w.history → c.updates ∈ survivors
  /-- A batch that was answered otherwise has not written, and survives only as an entry. -/
  refused : ∀ i c s a, .answered i c (some s) a ∈ w.history → isOk a = false →
    ∀ batch, (s, batch) ∉ D.wrote w.history

namespace Survives

variable {path : Path} {kept : Nat} {store : Stack R}

theorem start {disk : Disk} (hFile : disk path = some (image [])) (store : Stack R) :
    Survives D path store (World.start ⟨path, HEADER_LEN⟩ disk store) 0 := by
  have hSteady := Steady.start (D := D) hFile store
  exact ⟨hSteady.ledger, hSteady.rows, fun _ => hSteady, .start _, .start path disk store⟩

theorem step (h : Survives D path store w kept) (hWhole : AppendsWhole D.service path w e)
    (hAlone : ∀ x, e ≠ .write x) (hStep : CommitGroup.step D.service w e = some w') :
    ∃ kept', Survives D path store w' kept' := by
  have hSteady := h.steady (live_of_step hStep)
  have hSteps := steps_of_step hStep
  obtain ⟨kept', hLedger, hRows, hNext, hKept⟩ :=
    hSteady.steps hWhole (fun x hx => absurd hx (hAlone x)) hStep
  refine ⟨kept', hLedger, hRows, hNext, hSteady.answers h.answers hSteps, ?_⟩
  rcases hKept with rfl | ⟨rfl, hStore, i, c, -, hHistory⟩
  · rcases steps_cases hSteps
      with ⟨hStore, hWrote, hMore⟩ | ⟨i, c, s, turn, plan, hi, hStore, hHistory, hApplied⟩ | ⟨x, hx⟩
    · exact h.written.quiet hSteady.live hStore hWrote hMore
    · exact h.written.apply hSteady hi hStore hHistory hApplied
    · exact absurd hx (hAlone x)
  · exact h.written.all hSteady hStore (by rw [hHistory]; rfl)

/-- A batch that wrote survives, in the table or in the journal. -/
theorem mem_survivors (h : Survives D path store w kept) {s : Nat} {batch : Batch}
    (hMem : (s, batch) ∈ D.wrote w.history) :
    batch ∈ D.wroteUpTo kept w.history ++ entriesAfter kept w.history := by
  by_cases hKept : s ≤ kept
  · exact List.mem_append_left _
      (List.mem_map_of_mem (List.mem_filter.mpr ⟨hMem, decide_eq_true hKept⟩))
  · obtain ⟨i, c, before, after, hApplied, rfl, -⟩ := mem_wrote hMem
    obtain ⟨-, hAt⟩ := h.ledger.calls.applied i c s before after hApplied
    refine List.mem_append_right _
      (List.mem_map_of_mem (List.mem_of_getElem? (i := s - 1 - kept) ?_))
    rw [List.getElem?_drop, Nat.add_sub_cancel' (by omega)]
    exact hAt

theorem survivors (h : Survives D path store w kept) {extra : List Batch}
    (hExtra : extra = [] ∨ (w.crashed = true ∧ ∃ i c earlier, w.history = .torn i c :: earlier ∧
      extra = [c.updates])) :
    Survivors D w kept (D.wroteUpTo kept w.history ++ entriesAfter kept w.history ++ extra) where
  are := ⟨extra, rfl, hExtra⟩
  acknowledged i c s hMem := by
    cases s with
    | none =>
      have hOk : true = false := h.answers.unnumbered i c _ hMem
      cases hOk
    | some s =>
      have hRecords := (h.answers.answered i c s _ hMem).2
      exact List.mem_append_left _ (h.mem_survivors hRecords)
  refused i c s a hMem hNot := by
    have hRecords := (h.answers.answered i c s a hMem).2
    rw [hNot] at hRecords
    exact hRecords

end Survives

/-- **What survives.** From an adapter just opened, wherever a run of batches stops: the adapter
opens again, and its table holds what the surviving batches come to over the table of before, in
order. Every batch that was answered `Ok` is one of them. -/
theorem survivors_after_restart {path : Path} {disk : Disk} {store : Stack R}
    (hFile : disk path = some (image []))
    (h : Machine.Runs (step D.service) (fun w e => AppendsWhole D.service path w e ∧
      ∀ x, e ≠ .write x) (World.start ⟨path, HEADER_LEN⟩ disk store) w) :
    ∃ kept survivors g p, D.withJournal path ⟨w.store, w.disk, []⟩ = .ok g p ∧
      p.self = D.written store (D.log survivors.flatten) ∧ Survivors D w kept survivors := by
  obtain ⟨kept, hInv⟩ : ∃ kept, Survives D path store w kept := by
    refine h.invariant (P := fun w => ∃ kept, Survives D path store w kept)
      ⟨0, .start hFile store⟩ ?_
    rintro t e u - ⟨kept, hInv⟩ ⟨hWhole, hAlone⟩ hStep
    exact hInv.step hWhole hAlone hStep
  obtain ⟨entries, hFound, hRows⟩ := hInv.rows.found
  obtain ⟨extra, hLedger, hExtra⟩ := hInv.ledger.found
  obtain rfl := hFound.unique hLedger
  obtain ⟨p, hRun, hSelf, -⟩ := D.withJournal_of_found hFound hRows
  refine ⟨kept, _, _, p, hRun, ?_, hInv.survivors hExtra⟩
  obtain ⟨rest, hStore, hRest⟩ := hInv.written.behind
  have hAgain : D.written (D.written store (D.log (D.wroteUpTo kept w.history).flatten ++ rest))
      (D.log (entriesAfter kept w.history).flatten) =
      D.written (D.written store (D.log (D.wroteUpTo kept w.history).flatten))
        (D.log (entriesAfter kept w.history).flatten) := by
    rw [written_append]
    exact congrArg (fun rows => ({ store with rows } : Stack R))
      (FieldWrites.writes_absorb D.set_set _ hRest)
  rw [hSelf, hStore]
  change D.written _ (D.log (entriesAfter kept w.history ++ extra).flatten) = _
  rw [List.flatten_append, log_append, written_append, hAgain, List.flatten_append,
    List.flatten_append, log_append, log_append, written_append, written_append]

/-- A check of the runs of batches alone whose appends do not fail. -/
def appendsCleanly (D : Domain R V) (path : Path)
    (w : World (Stack R) Txn DirectWrite (Nat × ErrorCode)) :
    Event Txn DirectWrite → Bool
  | .act i (.enter plan) =>
    match w.phase i with
    | .entering c =>
      whole path w.disk && (Method.value (appendUnsynced (D.service.batch c) ⟨w.group.journal,
        w.disk, plan⟩)).isSome
    | _ => true
  | .act _ _ => true
  | .write _ => false

theorem of_appendsCleanly {path : Path} (h : D.appendsCleanly path w e = true) :
    AppendsWhole D.service path w e ∧ ∀ x, e ≠ .write x := by
  refine ⟨?_, ?_⟩
  · rintro i c plan rfl hi
    unfold appendsCleanly at h
    dsimp only at h
    rw [hi, Bool.and_eq_true] at h
    refine ⟨h.1, fun p code hRun => ?_⟩
    have hValue := h.2
    rw [hRun] at hValue
    cases hValue
  · rintro x rfl
    cases h

end Domain

namespace Memory

/-- The process stops in a transaction that has counted the first memory only. -/
theorem survivors_after_restart_sample :
    ∃ w kept survivors g p, Machine.run (step domain.service) sampleStart
        (sampleComes 1 sampleTxn ++ [.act 1 (.apply [.crashed 1])]) = some w ∧
      domain.withJournal samplePath ⟨w.store, w.disk, []⟩ = .ok g p ∧
      p.self = domain.written sampleStack (domain.log survivors.flatten) ∧
        domain.Survivors w kept survivors := by
  have hSome : (Machine.run (step domain.service) sampleStart
      (sampleComes 1 sampleTxn ++ [.act 1 (.apply [.crashed 1])])).isSome = true := by
        decide +kernel
  have hAllowed : Machine.allowed (step domain.service)
      (domain.appendsCleanly samplePath) sampleStart
      (sampleComes 1 sampleTxn ++ [.act 1 (.apply [.crashed 1])]) = true := by decide +kernel
  obtain ⟨w, hRun⟩ := Option.isSome_iff_exists.mp hSome
  have hRuns := (Machine.runs_of_allowed hRun hAllowed).mono fun _ _ => Domain.of_appendsCleanly
  obtain ⟨kept, survivors, g, p, hOpen, hSelf, hSurvivors⟩ :=
    Domain.survivors_after_restart (Function.update_self ..) hRuns
  exact ⟨w, kept, survivors, g, p, hRun, hOpen, hSelf, hSurvivors⟩

end Memory

end MultimodalDb
