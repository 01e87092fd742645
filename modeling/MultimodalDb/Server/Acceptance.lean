import MultimodalDb.Server.JournaledRestart
import MultimodalDb.Server.Sessions

/-!
# Writes that a table accepts

A write of the field is accepted where its value is one for the field and its record is there. No
call but a delete takes that away (`Table.Accepts.write`), and a commit whose writes are all
accepted is answered `Ok`, or it could not be journaled, or a read of its session has changed
(`handle_commit`).
-/

namespace MultimodalDb

open Program

/-! ## Tables -/

namespace Table

variable (t : Table)

/-- The records that a write deletes, if it gets that far. -/
def removes (x : Write) (s : Stack t.R) : List RecordId :=
  match x with
  | .deleteRecord id => if t.deletes then [id] else []
  | .writeAtomic ops => t.domain.deletes s (.atomic ops [])
  | _ => []

/-- What `validate_op` checks. -/
def Accepts (s : Stack t.R) (op : TransactionOp) : Prop :=
  ∃ v, t.domain.checkWrite op.field op.value (s.rows op.id).isSome = .ok v

variable {t} {s : Stack t.R} {op : TransactionOp} {ops : Batch} {reads : List TrackedRead}

theorem found_of_checkWrite {R V : Type} {D : Domain R V} {field : FieldRef} {value : ScanValue}
    {found : Bool} {v : V} (h : D.checkWrite field value found = .ok v) : found = true := by
  unfold Domain.checkWrite at h
  split at h
  · split at h
    · cases h
    · split at h
      · cases h
      · split at h
        · assumption
        · cases h
  · split at h <;> cases h

theorem Accepts.isSome (h : t.Accepts s op) : (s.rows op.id).isSome = true := by
  obtain ⟨v, hCheck⟩ := h
  exact found_of_checkWrite hCheck

/-- Accepted stays accepted while the record is there. -/
theorem Accepts.mono {s' : Stack t.R} (h : t.Accepts s op) (hRow : (s'.rows op.id).isSome = true) :
    t.Accepts s' op := by
  have hFound := h.isSome
  unfold Accepts at h ⊢
  rw [hRow, ← hFound]
  exact h

/-- **One write.** A record that it does not delete is still there. -/
theorem isSome_write {x : Write} {id : RecordId} (h : (s.rows id).isSome = true)
    (hNot : id ∉ t.removes x s) :
    ((t.write x s).2.rows id).isSome = true := by
  have hBatch : ∀ ops, ((t.domain.applyBatch 0 ops s).2.rows id).isSome = true := by
    intro ops
    rw [Domain.applyBatch_snd, Domain.written, FieldWrites.isSome_writes]
    exact h
  cases x with
  | updateField id' field value =>
    exact Domain.isSome_directWrite (x := .updateField id' field value) h List.not_mem_nil
  | insertRecord id' fields =>
    change ((t.domain.insertRecord .works s id' fields).2.rows id).isSome = true
    unfold Domain.insertRecord
    split
    · exact h
    · exact Domain.isSome_insertRow .works _ h
  | replaceRecord id' fields =>
    change ((t.domain.replaceRecord .works s id' fields).2.rows id).isSome = true
    unfold Domain.replaceRecord
    split
    · exact h
    · exact Domain.isSome_replaceRow .works _ h
  | replaceRecordIf id' fields guard =>
    change ((t.domain.replaceRecordIf .works s id' fields guard).2.rows id).isSome = true
    unfold Domain.replaceRecordIf
    split
    · exact h
    · unfold Domain.replaceRowIf
      split
      · exact h
      · split
        · exact Domain.isSome_whenLogged h (Domain.isSome_setRow h)
        · exact h
  | deleteRecord id' =>
    change ((if t.deletes then Domain.deleteRecord .works s id'
      else (.error .unsupported, s)).2.rows id).isSome = true
    change id ∉ (if t.deletes then [id'] else []) at hNot
    split
    · next hDeletes =>
      rw [if_pos hDeletes, List.mem_singleton] at hNot
      exact Domain.isSome_deleteRecord .works h hNot
    · exact h
  | linkRecords left right relation =>
    change ((t.domain.linkRecords .works s left right relation).2.rows id).isSome = true
    unfold Domain.linkRecords
    split
    · exact h
    · rw [Domain.rows_linkRow]
      exact h
  | detachRecord relation id' =>
    exact Domain.isSome_directWrite (x := .detach relation id' .works) h List.not_mem_nil
  | writeAtomic ops => exact Domain.isSome_directWrite (x := .atomic ops []) h hNot
  | compact =>
    change ((if t.deletes then (.ok (t.report s), s) else (.error .unsupported, s) :
      Except ErrorCode CompactionReport × Stack t.R).2.rows id).isSome = true
    split <;> exact h
  | applyTransaction ops reads =>
    change ((t.domain.applyTransaction ⟨ops, reads⟩ s).2.rows id).isSome = true
    unfold Domain.applyTransaction
    split
    · exact h
    · split
      · exact h
      · exact hBatch ops
  | applyTurn ops reads =>
    change ((t.domain.takeTurn ⟨ops, reads⟩ s).2.rows id).isSome = true
    unfold Domain.takeTurn
    split
    · exact h
    · exact hBatch ops

theorem Accepts.write {x : Write} (h : t.Accepts s op) (hNot : op.id ∉ t.removes x s) :
    t.Accepts (t.write x s).2 op :=
  h.mono (isSome_write h.isSome hNot)

theorem read_validateOp : t.read (.validateOp op) s = .ok () ↔ t.Accepts s op := by
  change (t.domain.checkWrite op.field op.value (s.rows op.id).isSome).map (fun _ => ()) = .ok () ↔
    _
  unfold Accepts
  cases t.domain.checkWrite op.field op.value (s.rows op.id).isSome with
  | error code => exact ⟨nofun, fun ⟨v, hv⟩ => by cases hv⟩
  | ok v => exact ⟨fun _ => ⟨v, rfl⟩, fun _ => rfl⟩

theorem validateBatch_accepted (i : Nat) (h : ∀ op ∈ ops, t.Accepts s op) :
    t.domain.validateBatch (fun id => (s.rows id).isSome) i ops = .ok () := by
  induction ops generalizing i with
  | nil => rfl
  | cons op ops ih =>
    obtain ⟨v, hCheck⟩ := h op List.mem_cons_self
    rw [Domain.validateBatch, hCheck]
    exact ih (i + 1) fun op hMem => h op (List.mem_cons_of_mem _ hMem)

theorem applyBatch_accepted (h : ∀ op ∈ ops, t.Accepts s op) :
    (t.domain.applyBatch 0 ops s).1 = .ok () := by
  rw [Domain.applyBatch_ok]
  intro op hMem
  rw [Domain.reaches, (h op hMem).isSome, Bool.or_true]

theorem checkReadSet_cases (D : Domain t.R t.V) (reads : List TrackedRead) (s : Stack t.R) :
    D.checkReadSet reads s = .ok () ∨ reads ≠ [] ∧
      D.checkReadSet reads s = .error (0, .conflict) := by
  cases reads with
  | nil => exact Or.inl rfl
  | cons read rest =>
    unfold Domain.checkReadSet
    split
    · exact Or.inl rfl
    · exact Or.inr ⟨List.cons_ne_nil _ _, rfl⟩

/-- A transaction of accepted writes fails on a changed read only. -/
theorem applyTransaction_accepted (h : ∀ op ∈ ops, t.Accepts s op) :
    (t.write (.applyTransaction ops reads) s).1 = .ok () ∨
      reads ≠ [] ∧ (t.write (.applyTransaction ops reads) s).1 = .error (0, .conflict) := by
  change (t.domain.applyTransaction ⟨ops, reads⟩ s).1 = .ok () ∨
    reads ≠ [] ∧ (t.domain.applyTransaction ⟨ops, reads⟩ s).1 = .error (0, .conflict)
  unfold Domain.applyTransaction
  rw [validateBatch_accepted 0 h]
  dsimp only
  rcases checkReadSet_cases t.domain reads s with hOk | ⟨hReads, hConflict⟩
  · rw [hOk]
    exact Or.inl (applyBatch_accepted h)
  · rw [hConflict]
    exact Or.inr ⟨hReads, rfl⟩

theorem applyTurn_accepted (h : ∀ op ∈ ops, t.Accepts s op) :
    (t.write (.applyTurn ops reads) s).1 = .ok () ∨
      reads ≠ [] ∧ (t.write (.applyTurn ops reads) s).1 = .error (0, .conflict) := by
  change (t.domain.takeTurn ⟨ops, reads⟩ s).1 = .ok () ∨
    reads ≠ [] ∧ (t.domain.takeTurn ⟨ops, reads⟩ s).1 = .error (0, .conflict)
  unfold Domain.takeTurn
  dsimp only
  rcases checkReadSet_cases t.domain reads s with hOk | ⟨hReads, hConflict⟩
  · rw [hOk]
    exact Or.inl (applyBatch_accepted h)
  · rw [hConflict]
    exact Or.inr ⟨hReads, rfl⟩

end Table

variable {n : Nat}

/-- The reply to a call of a commit whose writes are accepted. -/
def Call.Passed (i : Fin n) (batch : Batch) (c : Call n) (reply : c.Reply) : Prop :=
  match c, reply with
  | ⟨j, .read (.validateOp op)⟩, reply => j = i → op ∈ batch → reply = .ok ()
  | ⟨j, .write (.applyTransaction ops reads)⟩, reply | ⟨j, .write (.applyTurn ops reads)⟩, reply =>
    j = i → ops = batch → reply = .ok () ∨ reads ≠ [] ∧ reply = .error (0, .conflict)
  | _, _ => True

namespace Catalog

variable {C : Catalog n} {w : Contents C.Content} {i : Fin n} {op : TransactionOp} {batch : Batch}

/-- A call leaves a write accepted whose record it does not delete. -/
theorem accepts_answer {c : Call n} (taken : Bool) (h : (C.table i).Accepts (w i) op)
    (hNot : ∀ x, c = ⟨i, .write x⟩ → op.id ∉ (C.table i).removes x (w i)) :
    (C.table i).Accepts ((C.tables.answer taken c w).2 i) op := by
  obtain ⟨j, call⟩ := c
  cases call with
  | read r => exact h
  | journal updates => exact h
  | write x =>
    change (C.table i).Accepts (Function.update w j ((C.table j).write x (w j)).2 i) op
    by_cases hTable : i = j
    · subst hTable
      rw [Function.update_self]
      exact h.write (hNot x rfl)
    · rw [Function.update_of_ne hTable]
      exact h

theorem passed_answer (taken : Bool) (c : Call n) (h : ∀ op ∈ batch, (C.table i).Accepts (w i) op) :
    c.Passed i batch (C.tables.answer taken c w).1 := by
  obtain ⟨j, call⟩ := c
  cases call with
  | journal updates => trivial
  | read r =>
    cases r with
    | validateOp op =>
      rintro rfl hMem
      exact Table.read_validateOp.mpr (h op hMem)
    | _ => trivial
  | write x =>
    cases x with
    | applyTransaction ops reads =>
      rintro rfl rfl
      exact Table.applyTransaction_accepted h
    | applyTurn ops reads =>
      rintro rfl rfl
      exact Table.applyTurn_accepted h
    | _ => trivial

end Catalog

/-! ## Commits -/

namespace Tables

variable {σ : Fin n → Type} (T : Tables n σ)

/-- A commit was applied, or it was refused for another reason than its writes. -/
def Settled (resp : Response) : Prop :=
  resp = .ok ∨ resp = errResponse .unauthorized ∨ resp = transactionFailed (0, .journal) ∨
    resp = transactionFailed (0, .conflict)

theorem validateBatch_passed (i : Fin n) (k : Nat) {ops batch : Batch}
    (h : ∀ op ∈ ops, op ∈ batch) :
    (validateBatch i k ops).Returns (Call.Passed i batch) (· = .ok ()) := by
  induction ops generalizing k with
  | nil => rfl
  | cons op ops ih =>
    intro reply hReply
    obtain rfl := hReply rfl (h op List.mem_cons_self)
    exact ih (k + 1) fun op hMem => h op (List.mem_cons_of_mem _ hMem)

theorem applyTransaction_passed (i : Fin n) (batch : Batch) (reads : List TrackedRead) :
    (T.applyTransaction i batch reads).Returns (Call.Passed i batch) fun r =>
      r = .ok () ∨ r = .error (0, .journal) ∨ reads ≠ [] ∧ r = .error (0, .conflict) := by
  unfold applyTransaction
  split
  · apply (validateBatch_passed i 0 fun _ h => h).bind
    rintro _ rfl
    intro taken _
    cases taken with
    | false => exact Or.inr (Or.inl rfl)
    | true =>
      intro reply hReply
      rcases hReply rfl rfl with hOk | hConflict
      · exact Or.inl hOk
      · exact Or.inr (Or.inr hConflict)
  · intro reply hReply
    rcases hReply rfl rfl with hOk | hConflict
    · exact Or.inl hOk
    · exact Or.inr (Or.inr hConflict)

/-- The flags of a session are those that its version knows. -/
structure FlagsKnown (c : Conn n) : Prop where
  validating : c.validateOnStage = true → 6 ≤ c.negotiated
  snapshot : c.snapshotReads.isSome = true → 7 ≤ c.negotiated

theorem lt_of_le {a b c : UInt32} (h : a ≤ c) (hLt : c < b) : a < b := by
  rw [UInt32.lt_iff_toNat_lt] at hLt ⊢
  exact Nat.lt_of_le_of_lt (UInt32.le_iff_toNat_le.mp h) hLt

/-- **A commit of accepted writes.** -/
theorem handle_commit (options : ServeOptions) (throttled : Bool) {c : Conn n} (hTidy : Tidy c)
    (hFlags : FlagsKnown c)
    {batch : Batch} (hSession : c.session = some batch) (hValidating : c.validateOnStage = true) :
    (T.handle options throttled c .commit).Returns (Call.Passed c.table batch) fun served =>
      Settled served.response := by
  have hSome : c.session.isSome = true := by rw [hSession]; rfl
  have hSix := hFlags.validating hValidating
  have hOld : ∀ v : UInt32, v ≤ 6 → ¬ c.negotiated < v := fun v hv hLt =>
    absurd (lt_of_le hSix hLt) (UInt32.not_lt.mpr hv)
  unfold handle
  dsimp only
  split
  · next hNone =>
    have hRole := (hTidy.settled hSome).2
    rw [hNone] at hRole
    cases hRole
  · split
    · exact Or.inr (Or.inl rfl)
    · unfold request
      dsimp only
      rw [if_neg (hOld 3 (by decide)), commit]
      dsimp only
      rw [hSession]
      dsimp only
      refine Returns.bind (Returns.bind (T.applyTransaction_passed c.table batch _) (R :=
        fun r : Conn n × Response =>
        r.1.negotiated = c.negotiated ∧ (r.2 = .ok ∨ r.2 = transactionFailed (0, .journal) ∨
          c.snapshotReads.isSome = true ∧ r.2 = transactionFailed (0, .conflict))) ?_) ?_
      · rintro reply (rfl | rfl | ⟨hReads, rfl⟩)
        · exact ⟨rfl, Or.inl rfl⟩
        · exact ⟨rfl, Or.inr (Or.inl rfl)⟩
        · refine ⟨rfl, Or.inr (Or.inr ⟨?_, rfl⟩)⟩
          cases hReads' : c.snapshotReads with
          | none => exact absurd (by rw [hReads']; rfl) hReads
          | some reads => rfl
      · rintro ⟨c', resp⟩ ⟨hVersion, rfl | rfl | ⟨hReads, rfl⟩⟩
        · exact Or.inl rfl
        · refine Or.inr (Or.inr (Or.inl ?_))
          dsimp only at hVersion ⊢
          rw [hVersion, transactionFailed, downgradeForVersion]
          exact if_neg (hOld 4 (by decide))
        · refine Or.inr (Or.inr (Or.inr ?_))
          dsimp only at hVersion ⊢
          rw [hVersion, transactionFailed, downgradeForVersion]
          exact if_neg (UInt32.not_lt.mpr (hFlags.snapshot hReads))

end Tables

end MultimodalDb
