import MultimodalDb.Server.Adapters
import MultimodalDb.Server.JournalRuns
import Mathlib.Data.List.TakeWhile
import Mathlib.Tactic.Common

/-!
# Journaled adapters

An adapter with a journal commits its transactions through a commit group: the staged writes are
checked one by one, with a read of the table for each, and applied in the batch's turn, behind the
check of the session's reads. Every other write goes to the table at once. `withJournal` opens such
an adapter: it applies the batches that are left in the journal once more, and empties it.

* `applyBatch_snd`, `applyBatch_ok`: a batch writes what stands before its first missing record.
* `withJournal_of_found`: opening succeeds when the records of every entry are there.
-/

namespace MultimodalDb

open BatchJournal

/-- A transaction: its staged writes, and the reads that its commit checks. -/
structure Txn where
  updates : Batch
  readSet : List TrackedRead
  deriving DecidableEq

/-- A write that reaches a table beside its transactions, with what its storage does. -/
inductive DirectWrite where
  | updateField (id : RecordId) (field : FieldRef) (value : ScanValue)
  | op (op : WriteOp) (storage : Storage)
  | atomic (ops : List WriteOp) (storage : List Storage)
  | detach (relation : String) (id : RecordId) (storage : Storage)
  deriving DecidableEq

/-- Whether the flush at a checkpoint returned. -/
def flushed : List Outcome → Bool
  | .failed _ :: _ => false
  | _ => true

namespace Domain

variable {R V : Type} (D : Domain R V)

/-! ## The service -/

def directWrite (x : DirectWrite) (s : Stack R) : Stack R :=
  match x with
  | .updateField id field value => (D.updateField s id field value).2
  | .op op storage => (D.applyWriteOp storage op s).2
  | .atomic ops storage => (D.writeAtomic storage ops s).2
  | .detach relation id storage => (D.detachRecord storage s relation id).2

/-- One turn of `validate_batch`'s loop, each with a read of its own. -/
def checkOp (c : Txn) (i : Nat) (s : Stack R) : CommitGroup.Check (Nat × ErrorCode) :=
  match c.updates[i]? with
  | none => .done
  | some op =>
    match D.checkWrite op.field op.value (s.rows op.id).isSome with
    | .error code => .refused (i, code)
    | .ok _ => .next

/-- The apply closure. The process may be stopped behind any of the writes. -/
def applyTurn (c : Txn) (turn : CommitGroup.Turn) (plan : List Outcome) (s : Stack R) :
    Except (Stop (Nat × ErrorCode)) Bool × Stack R :=
  match D.checkReadSet c.readSet s with
  | .error e => (.error (.error e), s)
  | .ok () =>
    match plan with
    | .crashed n :: _ => (.error .crash, (D.applyBatch 0 (c.updates.take n) s).2)
    | plan =>
      match D.applyBatch 0 c.updates s with
      | (.error e, s') => (.error (.error e), s')
      | (.ok (), s') => (.ok (turn.checkpointDue && flushed plan), s')

def service : CommitGroup.Service (Stack R) Txn DirectWrite (Nat × ErrorCode) where
  batch c := c.updates
  validate := D.checkOp
  apply := D.applyTurn
  write := D.directWrite

/-- `apply_transaction` without a journal: all of it under one lock. -/
def applyTransaction (c : Txn) (s : Stack R) : Except (Nat × ErrorCode) Unit × Stack R :=
  match D.validateBatch (fun id => (s.rows id).isSome) 0 c.updates with
  | .error e => (.error e, s)
  | .ok () =>
    match D.checkReadSet c.readSet s with
    | .error e => (.error e, s)
    | .ok () => D.applyBatch 0 c.updates s

/-! ## Opening -/

/-- The batches of the journal from the given one on, applied to the table. -/
def replay : Nat → List Batch → Method (Stack R) JournalError Unit
  | _, [] => pure ()
  | i, batch :: rest => do
    let s ← Method.self
    match D.applyBatch 0 batch s with
    | (.ok (), s') =>
      Method.modifySelf (fun _ => s')
      replay (i + 1) rest
    | (.error (index, code), s') =>
      Method.modifySelf (fun _ => s')
      Method.fail (.replay i index code)

/-- `with_journal`. The flush of the table adds nothing to its files as a process reads them. -/
def withJournal (path : Path) : Method (Stack R) JournalError CommitGroup.GroupState := do
  let (journal, batches) ← BatchJournal.openJournal path
  D.replay 0 batches
  Method.sync fun _ => .durability
  let ((), journal) ← Method.runOn journal BatchJournal.truncate
  return CommitGroup.opened journal

/-! ## What a batch writes -/

/-- The writes of a batch, as keys and values. A value of another kind is not written. -/
def log (ops : Batch) : List (RecordId × V) :=
  ops.filterMap fun op => (D.ofScan op.value).map (op.id, ·)

/-- The record of a write is there, or nothing is written. -/
def reaches (s : Stack R) (op : TransactionOp) : Bool :=
  (D.ofScan op.value).isNone || (s.rows op.id).isSome

/-- A stack with the field written for a log. -/
def written (s : Stack R) (log : List (RecordId × V)) : Stack R :=
  { s with rows := FieldWrites.writes D.set s.rows log }

@[simp] theorem log_nil : D.log [] = [] := rfl

theorem log_cons (op : TransactionOp) (ops : Batch) :
    D.log (op :: ops) = ((D.ofScan op.value).map (op.id, ·)).toList ++ D.log ops := by
  unfold log
  rw [List.filterMap_cons]
  cases D.ofScan op.value <;> rfl

theorem log_append (ops ops' : Batch) : D.log (ops ++ ops') = D.log ops ++ D.log ops' :=
  List.filterMap_append

theorem log_flatten (batches : List Batch) : D.log batches.flatten = batches.flatMap D.log := by
  induction batches with
  | nil => rfl
  | cons batch rest ih => rw [List.flatten_cons, log_append, ih, List.flatMap_cons]

theorem mem_log {ops : Batch} {w : RecordId × V} :
    w ∈ D.log ops ↔ ∃ op ∈ ops, D.ofScan op.value = some w.2 ∧ op.id = w.1 := by
  obtain ⟨id, v⟩ := w
  rw [log, List.mem_filterMap]
  apply exists_congr
  intro op
  rw [Option.map_eq_some_iff]
  simp only [Prod.mk.injEq, and_congr_right_iff]
  exact fun _ => ⟨fun ⟨_, hv, hId, hEq⟩ => ⟨hEq ▸ hv, hId⟩, fun ⟨hv, hId⟩ => ⟨v, hv, hId, rfl⟩⟩

theorem written_nil (s : Stack R) : D.written s [] = s := rfl

theorem written_append (s : Stack R) (log log' : List (RecordId × V)) :
    D.written s (log ++ log') = D.written (D.written s log) log' := by
  unfold written
  rw [FieldWrites.writes_append]

@[simp] theorem reaches_written (s : Stack R) (log : List (RecordId × V)) (op : TransactionOp) :
    D.reaches (D.written s log) op = D.reaches s op := by
  unfold reaches written
  rw [FieldWrites.isSome_writes]

/-- **A batch.** It writes what stands before the first write whose record is missing. -/
theorem applyBatch_snd (i : Nat) (ops : Batch) (s : Stack R) :
    (D.applyBatch i ops s).2 = D.written s (D.log (ops.takeWhile (D.reaches s))) := by
  induction ops generalizing i s with
  | nil => rfl
  | cons op ops ih =>
    rw [applyBatch, List.takeWhile_cons]
    cases hValue : D.ofScan op.value with
    | none =>
      rw [if_pos (by rw [reaches, hValue]; rfl), log_cons, hValue]
      exact ih (i + 1) s
    | some v =>
      dsimp only
      unfold Stack.update
      cases hRow : s.rows op.id with
      | none =>
        rw [if_neg (by rw [reaches, hValue, hRow]; exact Bool.false_ne_true), log_nil, written_nil]
        dsimp only [Option.isSome_none]
        rw [FieldWrites.write, hRow, Option.map_none, Function.update_eq_self_iff.mpr hRow.symm]
      | some r =>
        rw [if_pos (by rw [reaches, hRow]; exact Bool.or_true _), log_cons, hValue]
        dsimp only [Option.isSome_some]
        rw [Option.map_some, Option.toList_some, written_append]
        have hTail := ih (i + 1) (D.written s [(op.id, v)])
        have hReaches : D.reaches (D.written s [(op.id, v)]) = D.reaches s := by
          funext op'
          rw [reaches_written]
        rw [hReaches] at hTail
        exact hTail

theorem applyBatch_ok (i : Nat) (ops : Batch) (s : Stack R) :
    (D.applyBatch i ops s).1 = .ok () ↔ ∀ op ∈ ops, D.reaches s op = true := by
  induction ops generalizing i s with
  | nil => exact ⟨fun _ => nofun, fun _ => rfl⟩
  | cons op ops ih =>
    rw [applyBatch, List.forall_mem_cons]
    cases hValue : D.ofScan op.value with
    | none =>
      dsimp only
      rw [ih, reaches, hValue]
      exact ⟨fun h => ⟨rfl, h⟩, fun h => h.2⟩
    | some v =>
      dsimp only
      unfold Stack.update
      cases hRow : s.rows op.id with
      | none =>
        refine ⟨nofun, fun h => ?_⟩
        rw [reaches, hValue, hRow] at h
        exact absurd h.1 Bool.false_ne_true
      | some r =>
        dsimp only [Option.isSome_some]
        have hReaches : ∀ op', D.reaches (D.written s [(op.id, v)]) op' = D.reaches s op' :=
          D.reaches_written s _
        change (D.applyBatch (i + 1) ops (D.written s [(op.id, v)])).1 = _ ↔ _
        rw [ih]
        simp only [hReaches]
        exact ⟨fun h => ⟨by rw [reaches, hRow]; exact Bool.or_true _, h⟩, fun h => h.2⟩

/-- With every record there, a batch is written as a whole. -/
theorem applyBatch_of_reaches (i : Nat) {ops : Batch} {s : Stack R}
    (h : ∀ op ∈ ops, D.reaches s op = true) :
    D.applyBatch i ops s = (.ok (), D.written s (D.log ops)) := by
  have hAll : ops.takeWhile (D.reaches s) = ops := by
    rw [List.takeWhile_eq_self_iff]
    exact h
  have hSnd := D.applyBatch_snd i ops s
  rw [hAll] at hSnd
  exact Prod.ext ((D.applyBatch_ok i ops s).mpr h) hSnd

/-! ## Rules of opening -/

theorem wp_replay {s : Stack R} {d : Disk} {A C : Stop JournalError → Stack R → Disk → Prop}
    {Q : Unit → Stack R → Disk → Prop} (i : Nat) {batches : List Batch}
    (hRows : ∀ batch ∈ batches, ∀ op ∈ batch, D.reaches s op = true)
    (hOk : Q () (D.written s (D.log batches.flatten)) d) :
    Method.wp (D.replay i batches) s d Q A C := by
  induction batches generalizing i s with
  | nil => exact Method.wp_pure hOk
  | cons batch rest ih =>
    rw [List.forall_mem_cons] at hRows
    refine Method.wp_bind (Method.wp_self ?_)
    rw [D.applyBatch_of_reaches 0 hRows.1]
    refine Method.wp_bind (Method.wp_modifySelf ?_)
    apply ih
    · intro batch' hBatch op hOp
      rw [reaches_written]
      exact hRows.2 batch' hBatch op hOp
    · rw [← written_append, ← log_append]
      exact hOk

/-- **Opening an adapter.** When the records of every entry are there, the entries are applied in
order, and the journal is left empty. -/
theorem withJournal_of_found {path : Path} {s : Stack R} {d : Disk} {entries : List Batch}
    (hFound : Found path d entries)
    (hRows : ∀ batch ∈ entries, ∀ op ∈ batch, D.reaches s op = true) :
    ∃ p, D.withJournal path ⟨s, d, []⟩ = .ok (CommitGroup.opened ⟨path, HEADER_LEN⟩) p ∧
      p.self = D.written s (D.log entries.flatten) ∧
      p.disk = Function.update d path (some (image [])) := by
  obtain ⟨frames, tail, hFile, hTail, hEntries⟩ := hFound
  have hWp : Method.wp (D.withJournal path) s d
      (fun g s' d' => g = CommitGroup.opened ⟨path, HEADER_LEN⟩ ∧
        s' = D.written s (D.log entries.flatten) ∧ d' = Function.update d path (some (image [])))
      (fun _ _ _ => False) (fun _ _ _ => True) := by
    refine Method.wp_bind (wp_openJournal hEntries hTail hFile ?_ (fun _ => trivial)
      (fun _ => trivial))
    refine Method.wp_bind (D.wp_replay 0 hRows ?_)
    refine Method.wp_bind (Method.wp_sync ?_ (fun _ => trivial))
    have hImage : Function.update d path (some (image frames)) path =
        some (image frames ++ []) := by
      rw [Function.update_self, List.append_nil]
    refine Method.wp_bind (Method.wp_runOn
      (wp_truncate hImage ?_ (fun _ => trivial) (fun _ => trivial)))
    refine Method.wp_pure ⟨rfl, rfl, ?_⟩
    rw [Function.update_idem]
  obtain ⟨g, p, hRun, ⟨rfl, hSelf, hDisk⟩, -⟩ := Method.wp_total hWp
  exact ⟨p, hRun, hSelf, hDisk⟩

end Domain

end MultimodalDb
