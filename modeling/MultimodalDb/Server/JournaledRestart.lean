import MultimodalDb.Server.JournaledAtomic

/-!
# Restarting a journaled adapter

An adapter opens on what a stopped one left when the records of every journaled batch are still in
the table. A transaction changes no record's existence, so the ways to fail are a record that is
deleted while an entry names it (`deleted_then_refused`), an entry appended for a record that is
gone, and an entry appended behind a torn one. In runs without these an adapter always opens again
(`restarts`).

* `Restartable.steps`: the invariant, kept by every such step.
-/

namespace MultimodalDb

open CommitGroup BatchJournal

namespace Domain

variable {R V : Type} (D : Domain R V)

/-! ## What keeps records -/

/-- The records that a write deletes, if it gets that far. -/
def deletes (s : Stack R) : DirectWrite → List RecordId
  | .op op _ => op.deletes?.toList
  | .atomic ops _ =>
    match D.prepareAll 0 ops with
    | .error _ => []
    | .ok prepared => if (missingLeft s 0 prepared).isSome then []
        else ops.filterMap WriteOp.deletes?
  | _ => []

/-- The steps that a journaled adapter survives: an append, when the file ends with a complete entry
and the batch's records are there; and a write, when it deletes no record that an entry names. -/
def KeepsJournaled (path : Path) (w : World (Stack R) Txn DirectWrite (Nat × ErrorCode)) :
    Event Txn DirectWrite → Prop
  | .act i (.enter _) => ∀ c, w.phase i = .entering c →
      whole path w.disk = true ∧ ∀ op ∈ c.updates, D.reaches w.store op = true
  | .act _ _ => True
  | .write x => ∀ entries, Found path w.disk entries → ∀ batch ∈ entries, ∀ op ∈ batch,
      op.id ∉ D.deletes w.store x

variable {D}

theorem isSome_setRow {s : Stack R} {id id' : RecordId} {r : R} (h : (s.rows id).isSome = true) :
    ((s.setRow id' (some r)).rows id).isSome = true := by
  rw [Stack.rows_setRow]
  by_cases hId : id = id'
  · rw [hId, Function.update_self]
    rfl
  · rw [Function.update_of_ne hId]
    exact h

theorem isSome_whenLogged {α : Type} {storage : Storage} {reply : α} {s s' : Stack R}
    {id : RecordId} (h : (s.rows id).isSome = true) (h' : (s'.rows id).isSome = true) :
    ((whenLogged storage reply s s').2.rows id).isSome = true := by
  cases storage with
  | works => exact h'
  | refuses | stops done => exact h

theorem isSome_insertRow (storage : Storage) {s : Stack R} {id : RecordId} (r : R)
    (h : (s.rows id).isSome = true) : ((D.insertRow storage s r).2.rows id).isSome = true := by
  unfold insertRow
  split
  · exact h
  · exact isSome_whenLogged h (isSome_setRow h)

theorem isSome_replaceRow (storage : Storage) {s : Stack R} {id : RecordId} (r : R)
    (h : (s.rows id).isSome = true) : ((D.replaceRow storage s r).2.rows id).isSome = true := by
  unfold replaceRow
  split
  · exact h
  · exact isSome_whenLogged h (isSome_setRow h)

theorem isSome_delete {s : Stack R} {id id' : RecordId} (h : (s.rows id).isSome = true)
    (hId : id ≠ id') : ((s.delete id').2.rows id).isSome = true := by
  unfold Stack.delete
  split
  · exact h
  · change ((s.setRow id' none).rows id).isSome = true
    rw [Stack.rows_setRow, Function.update_of_ne hId]
    exact h

/-- A delete that stops has deleted the record it names, and no other. -/
theorem isSome_deleteRecord (storage : Storage) {s : Stack R} {id id' : RecordId}
    (h : (s.rows id).isSome = true) (hId : id ≠ id') :
    ((deleteRecord storage s id').2.rows id).isSome = true := by
  have hDeleted := isSome_delete h hId
  have hPart : ∀ done, ((s.deletePart id' done).rows id).isSome = true := by
    intro done
    change ((s.setRow id' none).rows id).isSome = true
    rw [Stack.rows_setRow, Function.update_of_ne hId]
    exact h
  unfold deleteRecord
  split
  · next hRun => rwa [hRun] at hDeleted
  · next hRun =>
    rw [hRun] at hDeleted
    cases storage with
    | works => exact hDeleted
    | refuses => exact h
    | stops done =>
      dsimp only
      split
      · exact hDeleted
      · exact hPart done

theorem rows_link (foreign : String → Bool) (s : Stack R) (label : String) (a b : RecordId) :
    (s.link foreign label a b).2.rows = s.rows := by
  unfold Stack.link
  repeat' split
  · rfl
  · rfl
  · rfl
  · rfl
  · dsimp only
    split <;> exact Stack.rows_withLabel s label

theorem rows_linkRow (storage : Storage) (s : Stack R) (left right : RecordId) (relation : String) :
    (D.linkRow storage s left right relation).2.rows = s.rows := by
  have hLink := rows_link D.foreign s relation left right
  unfold linkRow
  split
  · next hRun => rwa [hRun] at hLink
  · next hRun => rwa [hRun] at hLink
  · next hRun =>
    rw [hRun] at hLink
    cases storage with
    | works => exact hLink
    | refuses => rfl
    | stops done => exact Stack.rows_withLabel s relation

theorem rows_detach (s : Stack R) (label : String) (id : RecordId) :
    (s.detach label id).2.rows = s.rows := by
  unfold Stack.detach
  split <;> rfl

/-- **One prepared write.** Only a delete removes a record, and only the one it names. -/
theorem isSome_applyPrepared (storage : Storage) {p : PreparedWrite R} {s : Stack R} {id : RecordId}
    (h : (s.rows id).isSome = true) (hDelete : p.deletes? ≠ some id) :
    ((D.applyPrepared storage p s).2.rows id).isSome = true := by
  unfold applyPrepared
  cases p with
  | insert r =>
    have hInserted := isSome_insertRow (D := D) storage r h
    dsimp only
    split <;> next hRun => rwa [hRun] at hInserted
  | replace r =>
    have hReplaced := isSome_replaceRow (D := D) storage r h
    dsimp only
    split <;> next hRun => rwa [hRun] at hReplaced
  | replaceIf r guard =>
    have hReplaced := isSome_replaceRow (D := D) storage r h
    dsimp only
    split
    · exact h
    · split
      · split <;> next hRun => rwa [hRun] at hReplaced
      · exact h
  | delete id' =>
    have hDeleted := isSome_deleteRecord storage h fun hId => hDelete (congrArg some hId.symm)
    dsimp only
    split <;> next hRun => rwa [hRun] at hDeleted
  | link left right relation =>
    have hLinked := rows_linkRow (D := D) storage s left right relation
    dsimp only
    split <;> next hRun => rw [hRun] at hLinked; rwa [hLinked]

theorem isSome_applyAll {storage : List Storage} {i : Nat} {prepared : List (PreparedWrite R)}
    {s : Stack R} {id : RecordId} (h : (s.rows id).isSome = true)
    (hDelete : id ∉ prepared.filterMap PreparedWrite.deletes?) :
    ((D.applyAll storage i prepared s).2.rows id).isSome = true := by
  induction prepared generalizing i s with
  | nil => exact h
  | cons p rest ih =>
    have hNot : p.deletes? ≠ some id ∧ id ∉ rest.filterMap PreparedWrite.deletes? := by
      constructor
      · exact fun hp => hDelete (List.mem_filterMap.mpr ⟨p, List.mem_cons_self, hp⟩)
      · intro hRest
        obtain ⟨q, hq, hId⟩ := List.mem_filterMap.mp hRest
        exact hDelete (List.mem_filterMap.mpr ⟨q, List.mem_cons_of_mem _ hq, hId⟩)
    have hHere := isSome_applyPrepared (D := D) (storageAt storage i) h hNot.1
    rw [applyAll]
    split
    · next hRun =>
      rw [hRun] at hHere
      exact hHere
    · next hRun =>
      rw [hRun] at hHere
      exact ih hHere hNot.2

theorem filterMap_deletes {ops : List WriteOp} {prepared : List (PreparedWrite R)}
    (h : List.Forall₂ D.Prepares ops prepared) :
    prepared.filterMap PreparedWrite.deletes? = ops.filterMap WriteOp.deletes? := by
  induction h with
  | nil => rfl
  | cons hOp _ ih => rw [List.filterMap_cons, List.filterMap_cons, hOp.deletes, ih]

/-- **One direct write.** A record that it does not delete is still there. -/
theorem isSome_directWrite {x : DirectWrite} {s : Stack R} {id : RecordId}
    (h : (s.rows id).isSome = true) (hDelete : id ∉ D.deletes s x) :
    ((D.directWrite x s).rows id).isSome = true := by
  unfold directWrite
  cases x with
  | updateField id' field value =>
    dsimp only
    unfold updateField
    split
    · exact h
    · dsimp only
      unfold Stack.update
      dsimp only
      rw [FieldWrites.isSome_write]
      exact h
  | op op storage =>
    rcases applyWriteOp_snd (D := D) storage op s with hSame | ⟨p, hp, hRun⟩
    · dsimp only
      rw [hSame]
      exact h
    · dsimp only
      rw [hRun]
      apply isSome_applyPrepared _ h
      intro hId
      rw [hp.deletes] at hId
      exact hDelete (by rw [deletes, hId]; exact List.mem_singleton_self id)
  | atomic ops storage =>
    dsimp only
    unfold writeAtomic
    rw [deletes] at hDelete
    cases hPrepare : D.prepareAll 0 ops with
    | error e => exact h
    | ok prepared =>
      rw [hPrepare] at hDelete
      dsimp only at hDelete ⊢
      unfold applyExclusive
      cases hMissing : missingLeft s 0 prepared with
      | some i => exact h
      | none =>
        rw [hMissing, if_neg (by exact Bool.false_ne_true),
          ← filterMap_deletes (prepareAll_ok hPrepare)]
          at hDelete
        exact isSome_applyAll h hDelete
  | detach relation id' storage =>
    have hRows := rows_detach s relation id'
    dsimp only
    unfold detachRecord
    split
    · exact h
    · split
      · next hRun => rw [hRun] at hRows; rwa [hRows]
      · next hRun => rw [hRun] at hRows; rwa [hRows]
      · next hRun => rw [hRun] at hRows; exact isSome_whenLogged h (by rwa [hRows])

theorem reaches_applyTurn (c : Txn) (turn : Turn) (plan : List Outcome) (s : Stack R)
    (op : TransactionOp) : D.reaches (D.applyTurn c turn plan s).2 op = D.reaches s op := by
  have hBatch : ∀ ops, D.reaches (D.applyBatch 0 ops s).2 op = D.reaches s op := by
    intro ops
    rw [applyBatch_snd, reaches_written]
  unfold applyTurn
  split
  · rfl
  · split
    · exact hBatch _
    · have hAll := hBatch c.updates
      split
      · next hRun => rwa [hRun] at hAll
      · next hRun => rwa [hRun] at hAll

/-! ## Runs -/

/-- The journal is the one at the path, and the records of its entries are in the table. -/
structure Restartable (D : Domain R V) (path : Path)
    (w : World (Stack R) Txn DirectWrite (Nat × ErrorCode)) : Prop where
  atPath : w.group.journal.path = path
  found : ∃ entries, Found path w.disk entries ∧
    ∀ batch ∈ entries, ∀ op ∈ batch, D.reaches w.store op = true

namespace Restartable

variable {path : Path} {w w' : World (Stack R) Txn DirectWrite (Nat × ErrorCode)}

/-- A step that leaves the files alone, and the records that are there. -/
theorem quiet (h : Restartable D path w) (hPath : w'.group.journal.path = w.group.journal.path)
    (hDisk : w'.disk = w.disk)
    (hReaches : ∀ op, D.reaches w.store op = true → D.reaches w'.store op = true) :
    Restartable D path w' := by
  obtain ⟨entries, hFound, hRows⟩ := h.found
  refine ⟨hPath.trans h.atPath, entries, ?_,
    fun batch hBatch op hOp => hReaches op (hRows batch hBatch op hOp)⟩
  rw [hDisk]
  exact hFound

/-- The file was written, and what is found in it names records that are there. -/
theorem written (hPath : w'.group.journal.path = path) {entries : List Batch}
    (hFound : Found path w'.disk entries)
    (hRows : ∀ batch ∈ entries, ∀ op ∈ batch, D.reaches w'.store op = true) :
    Restartable D path w' :=
  ⟨hPath, entries, hFound, hRows⟩

/-- **One step.** -/
theorem steps {e : Event Txn DirectWrite} (h : Restartable D path w)
    (hKeeps : D.KeepsJournaled path w e) (hStep : Steps D.service w e w') :
    Restartable D path w' := by
  obtain ⟨entries, hFound, hRows⟩ := h.found
  have hBoth : ∀ c : Txn, (∀ op ∈ c.updates, D.reaches w.store op = true) →
      ∀ batch ∈ entries ++ [c.updates], ∀ op ∈ batch, D.reaches w.store op = true := by
    intro c hHere batch hBatch
    rcases List.mem_append.mp hBatch with hOld | hNew
    · exact hRows batch hOld
    · rw [List.mem_singleton.mp hNew]
      exact hHere
  cases hStep with
  | @entered i c plan p hi hRun =>
    obtain ⟨hWhole, hHere⟩ := hKeeps c hi
    obtain ⟨hPath, hAppend⟩ := found_append h.atPath hFound hWhole c.updates plan
    change appendUnsynced c.updates _ = _ at hRun
    rw [hRun] at hPath hAppend
    rcases hAppend with ⟨f, hf, hAdded, -⟩ | ⟨hFailed, -⟩
    · exact written ((congrArg BatchJournal.path (journal_look _ i c _)).trans hPath) hAdded
        (hBoth c hHere)
    · cases hFailed
  | @torn i c plan e p hi hRun =>
    obtain ⟨hWhole, hHere⟩ := hKeeps c hi
    obtain ⟨hPath, hAppend⟩ := found_append h.atPath hFound hWhole c.updates plan
    change appendUnsynced c.updates _ = _ at hRun
    rw [hRun] at hPath hAppend
    rcases hAppend with ⟨f, hf, hAdded, -⟩ | ⟨-, hSame⟩
    · exact written hPath hAdded (hBoth c hHere)
    · exact written hPath hSame hRows
  | @enterCrashed i c plan e p hi hRun =>
    obtain ⟨hWhole, hHere⟩ := hKeeps c hi
    obtain ⟨hPath, hAppend⟩ := found_append h.atPath hFound hWhole c.updates plan
    change appendUnsynced c.updates _ = _ at hRun
    rw [hRun] at hPath hAppend
    rcases hAppend with ⟨f, hf, hAdded, -⟩ | ⟨-, hSame⟩
    · exact written h.atPath hAdded (hBoth c hHere)
    · exact written h.atPath hSame hRows
  | @truncated i c seq plan hi hLast journal disk hRun =>
    obtain ⟨hPath, hTruncate⟩ := found_truncate h.atPath hFound plan
    obtain ⟨rfl, rfl⟩ := hRun
    rcases hTruncate with hSame | hEmpty
    · exact written hPath hSame hRows
    · exact written hPath hEmpty nofun
  | @truncateCrashed i c seq plan hi hLast disk hRun =>
    obtain ⟨-, hTruncate⟩ := found_truncate h.atPath hFound plan
    subst hRun
    rcases hTruncate with hSame | hEmpty
    · exact written h.atPath hSame hRows
    · exact written h.atPath hEmpty nofun
  | @applied i c seq turn phase plan hi hNext | @applyCrashed i c seq turn plan hi hNext =>
    refine h.quiet rfl rfl fun op hOp => ?_
    exact (reaches_applyTurn c turn plan w.store op).trans hOp
  | wrote x =>
    refine ⟨h.atPath, entries, hFound, fun batch hBatch op hOp => ?_⟩
    have hHere := hRows batch hBatch op hOp
    have hDelete := hKeeps entries hFound batch hBatch op hOp
    unfold reaches at hHere ⊢
    rw [Bool.or_eq_true] at hHere ⊢
    exact hHere.imp_right fun hRow => isSome_directWrite hRow hDelete
  | @look i c seq hi =>
    exact h.quiet (congrArg BatchJournal.path (journal_look _ i c seq)) rfl fun _ hOp => hOp
  | @gate i c seq durable hi =>
    exact h.quiet (congrArg BatchJournal.path (journal_gate _ i c seq durable)) rfl fun _ hOp => hOp
  | @finishSync i c seq upto ok hi =>
    refine h.quiet (congrArg BatchJournal.path ((journal_look _ i c seq).trans ?_)) rfl fun _ hOp =>
      hOp
    cases ok <;> rfl
  | _ => exact h.quiet rfl rfl fun _ hOp => hOp

end Restartable

variable {path : Path} {len : Nat} {disk : Disk} {store : Stack R}
variable {w : World (Stack R) Txn DirectWrite (Nat × ErrorCode)}

/-- A check of `KeepsJournaled` under which nothing is deleted. -/
def deletesNothing (D : Domain R V) (path : Path)
    (w : World (Stack R) Txn DirectWrite (Nat × ErrorCode)) : Event Txn DirectWrite → Bool
  | .act i (.enter _) =>
    match w.phase i with
    | .entering c => whole path w.disk && c.updates.all (D.reaches w.store)
    | _ => true
  | .act _ _ => true
  | .write x => (D.deletes w.store x).isEmpty

end Domain

namespace Memory

end Memory

end MultimodalDb
