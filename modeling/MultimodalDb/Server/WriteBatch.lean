import MultimodalDb.Server.Adapters
import Mathlib.Tactic.Common

/-!
# Batches of writes

An atomic batch is parsed first, then the left ends of its links are looked up, and then its writes
are applied one after another. One can still fail there: an end of a link may be deleted by a write
before it, the two may be the same record, the right one may be missing, or the storage fails. The
batch then ends with an error and keeps what it has written (`self_link_keeps_insert`).

* `Prepares.applyWriteOp_eq`: a prepared write does what the single request does.
* `Prepares.applyPrepared_cases`: when a write fails at its place, and what each write makes of each
  record and of the edges of each label.
* `atomic_iff`: an atomic batch does all or nothing exactly when it is refused before its first
  write, no write of it fails at its place, or those before the first that fails leave every record
  and every label's edges as they were.
-/

namespace MultimodalDb

/-- The record that a write of a batch deletes. -/
def WriteOp.deletes? : WriteOp → Option RecordId
  | .delete id => some id
  | _ => none

def PreparedWrite.deletes? {R : Type} : PreparedWrite R → Option RecordId
  | .delete id => some id
  | _ => none

/-- The same records and edges. A label without edges counts as none. -/
def Stack.SameContents {R : Type} (s t : Stack R) : Prop :=
  s.rows = t.rows ∧ ∀ label, s.edges label = t.edges label

namespace Domain

variable {R V : Type} (D : Domain R V)

/-! ## What a write finds at its place -/

/-- A write succeeds: the ends of a link are there, and the storage takes what it is asked to. It is
asked nothing where there is nothing to write. -/
def served (storage : Storage) (s : Stack R) : WriteOp → Bool
  | .insert id _ => storage = .works || (s.rows id).isSome
  | .replace id _ => storage = .works || (s.rows id).isNone
  | .replaceIf id _ guard =>
    storage = .works || !(s.rows id).any fun stored => predicateMatches (D.fieldsOf stored) guard
  | .delete id =>
    match storage with
    | .works => true
    | .refuses => (s.rows id).isNone
    | .stops done => (s.rows id).isNone || s.edgesWithin id done
  | .link left right relation =>
    Stack.Linkable D.foreign s relation left right &&
      (storage = .works || right ∈ s.edges relation left)

/-- What a served write makes of one record. -/
def rowAfter (op : WriteOp) (id : RecordId) (row : Option R) : Option R :=
  match op with
  | .insert id' fields =>
    if id' = id ∧ row.isNone then (D.fromFields id' fields).toOption else row
  | .replace id' fields =>
    if id' = id ∧ row.isSome then (D.fromFields id' fields).toOption else row
  | .replaceIf id' fields guard =>
    if id' = id ∧ row.any (fun stored => predicateMatches (D.fieldsOf stored) guard) then
      (D.fromFields id' fields).toOption
    else
      row
  | .delete id' => if id' = id then none else row
  | .link .. => row

/-- What a served write makes of the edges of one label, over these records. -/
def edgesAfter (op : WriteOp) (label : String) (rows : RecordId → Option R) (m : Adjacency) :
    Adjacency :=
  match op with
  | .delete id => if (rows id).isSome then dropEdgesOf m id else m
  | .link left right relation =>
    if label = relation ∧ right ∉ m left then pushEdge m left right else m
  | .insert .. | .replace .. | .replaceIf .. => m

/-- What writes that are all served make of one record. -/
def rowMade (made : List WriteOp) (id : RecordId) (row : Option R) : Option R :=
  made.foldl (fun row op => D.rowAfter op id row) row

/-- What writes that are all served make of the edges of one label, over these records. -/
def edgesMade : List WriteOp → String → (RecordId → Option R) → Adjacency → Adjacency
  | [], _, _, m => m
  | op :: made, label, rows, m =>
    edgesMade made label (fun id => D.rowAfter op id (rows id)) (edgesAfter op label rows m)

/-- Where a batch comes to a halt: the writes before the one that fails, and what that one did when
it is a delete that stopped, the record and the labels it had got to. -/
structure Halt where
  made : List WriteOp
  half : Option (RecordId × List String)

/-- What a write that fails leaves half done. -/
def half : WriteOp → Storage → Option (RecordId × List String)
  | .delete id, .stops done => some (id, done)
  | _, _ => none

/-- The halt of a batch from write `i` on, when its writes are made one by one. -/
def haltsAt (storage : List Storage) : Nat → List WriteOp → Stack R → Option Halt
  | _, [], _ => none
  | i, op :: ops, s =>
    if D.served (storageAt storage i) s op then
      (haltsAt storage (i + 1) ops (D.applyWriteOp (storageAt storage i) op s).2).map fun h =>
        { h with made := op :: h.made }
    else
      some ⟨[], half op (storageAt storage i)⟩

/-- What a halted batch makes of one record. -/
def Halt.row (h : Halt) (id : RecordId) (row : Option R) : Option R :=
  if h.half.any (·.1 = id) then none else D.rowMade h.made id row

/-- What a halted batch makes of the edges of one label, over these records. -/
def Halt.edges (h : Halt) (label : String) (rows : RecordId → Option R) (m : Adjacency) :
    Adjacency :=
  match h.half with
  | none => D.edgesMade h.made label rows m
  | some (id, done) =>
    if done.contains label then
      dropEdgesOf (D.edgesMade h.made label rows m) id
    else
      D.edgesMade h.made label rows m

/-- Every record, and the edges of every label, are in the end what they were. -/
def Halt.LeavesAlone (h : Halt) (s : Stack R) : Prop :=
  (∀ id, Halt.row D h id (s.rows id) = s.rows id) ∧
    ∀ label, Halt.edges D h label s.rows (s.edges label) = s.edges label

/-- Refused before the first write: a write does not parse, or a link's left end is not in the
table. -/
def Refused (ops : List WriteOp) (s : Stack R) : Prop :=
  (∃ op ∈ ops, ∀ p, D.prepareWrite op ≠ .ok p) ∨
    ∃ left right relation, .link left right relation ∈ ops ∧ s.rows left = none

/-- All or nothing: a batch that failed left records and edges as they were, and one that did not is
its writes made one by one. -/
def AllOrNothing (storage : List Storage) (ops : List WriteOp) (s : Stack R) : Prop :=
  (∀ e, (D.writeBatch storage ops true s).1 = .error e →
      (D.writeBatch storage ops true s).2.SameContents s) ∧
    ∀ results, (D.writeBatch storage ops true s).1 = .ok results →
      D.writePipelined storage 0 ops s = (results, (D.writeBatch storage ops true s).2)

/-! ## One write -/

/-- What a write parses to, its guard aside. -/
inductive Prepares : WriteOp → PreparedWrite R → Prop where
  | insert {id fields r} (h : D.fromFields id fields = .ok r) :
    Prepares (.insert id fields) (.insert r)
  | replace {id fields r} (h : D.fromFields id fields = .ok r) :
    Prepares (.replace id fields) (.replace r)
  | replaceIf {id fields guard r} (h : D.fromFields id fields = .ok r) :
    Prepares (.replaceIf id fields guard) (.replaceIf r guard)
  | delete (id : RecordId) : Prepares (.delete id) (.delete id)
  | link {left right relation} (h : D.checkLabel relation = .ok ()) :
    Prepares (.link left right relation) (.link left right relation)

variable {D}

theorem prepares_of_prepareWrite {op : WriteOp} {p : PreparedWrite R}
    (h : D.prepareWrite op = .ok p) :
    D.Prepares op p := by
  cases op with
  | insert id fields =>
    cases hFields : D.fromFields id fields with
    | error code => rw [prepareWrite, hFields] at h; cases h
    | ok r => rw [prepareWrite, hFields] at h; cases h; exact .insert hFields
  | replace id fields =>
    cases hFields : D.fromFields id fields with
    | error code => rw [prepareWrite, hFields] at h; cases h
    | ok r => rw [prepareWrite, hFields] at h; cases h; exact .replace hFields
  | replaceIf id fields guard =>
    cases hGuard : validatePredicate D.schema guard with
    | error code => rw [prepareWrite, hGuard] at h; cases h
    | ok u =>
      cases hFields : D.fromFields id fields with
      | error code => rw [prepareWrite, hGuard, hFields] at h; cases h
      | ok r => rw [prepareWrite, hGuard, hFields] at h; cases h; exact .replaceIf hFields
  | delete id =>
    cases h
    exact .delete id
  | link left right relation =>
    cases hLabel : D.checkLabel relation with
    | error code => rw [prepareWrite, hLabel] at h; cases h
    | ok u => rw [prepareWrite, hLabel] at h; cases h; exact .link hLabel

theorem Prepares.deletes {op : WriteOp} {p : PreparedWrite R} (h : D.Prepares op p) :
    p.deletes? = op.deletes? := by
  cases h <;> rfl

/-- The answer that a single request gives for what a prepared write returned. -/
def answered : Except ErrorCode WriteResult → WriteResult
  | .ok result => result
  | .error code => .failed code

/-- **One write.** A write that parses does the same prepared as on its own. -/
theorem Prepares.applyWriteOp_eq {op : WriteOp} {p : PreparedWrite R} (h : D.Prepares op p)
    (storage : Storage) (s : Stack R) :
    D.applyWriteOp storage op s =
      (answered (D.applyPrepared storage p s).1, (D.applyPrepared storage p s).2) := by
  cases h with
  | @insert id fields r hFields =>
    rw [applyWriteOp, applyPrepared, insertRecord, hFields]
    dsimp only
    rcases D.insertRow storage s r with ⟨_ | outcome, s'⟩
    · rfl
    · cases outcome <;> rfl
  | @replace id fields r hFields =>
    rw [applyWriteOp, applyPrepared, replaceRecord, hFields]
    dsimp only
    rcases D.replaceRow storage s r with ⟨_ | outcome, s'⟩
    · rfl
    · cases outcome <;> rfl
  | @replaceIf id fields guard r hFields =>
    rw [applyWriteOp, applyPrepared, replaceRecordIf, hFields]
    dsimp only
    rw [replaceRowIf, replaceRow]
    cases s.rows (D.id r) with
    | none => rfl
    | some stored =>
      dsimp only
      cases predicateMatches (D.fieldsOf stored) guard with
      | true => rw [if_pos rfl, if_pos rfl]; cases storage <;> rfl
      | false => rfl
  | delete id =>
    rw [applyWriteOp, applyPrepared]
    rcases deleteRecord storage s id with ⟨_ | outcome, s'⟩
    · rfl
    · cases outcome <;> rfl
  | @link left right relation hLabel =>
    rw [applyWriteOp, applyPrepared, linkRecords, hLabel]
    dsimp only
    rcases D.linkRow storage s left right relation with ⟨_ | outcome, s'⟩
    · rfl
    · cases outcome <;> rfl

/-- A write that is made on its own is a prepared one, or it changes nothing. -/
theorem applyWriteOp_snd (storage : Storage) (op : WriteOp) (s : Stack R) :
    (D.applyWriteOp storage op s).2 = s ∨
      ∃ p, D.Prepares op p ∧ (D.applyWriteOp storage op s).2 = (D.applyPrepared storage p s).2 := by
  have hParsed : ∀ p, D.Prepares op p → ∃ p, D.Prepares op p ∧
      (D.applyWriteOp storage op s).2 = (D.applyPrepared storage p s).2 :=
    fun p hp => ⟨p, hp, congrArg Prod.snd (hp.applyWriteOp_eq storage s)⟩
  cases op with
  | insert id fields =>
    cases hFields : D.fromFields id fields with
    | error code => rw [applyWriteOp, insertRecord, hFields]; exact Or.inl rfl
    | ok r => exact Or.inr (hParsed _ (.insert hFields))
  | replace id fields =>
    cases hFields : D.fromFields id fields with
    | error code => rw [applyWriteOp, replaceRecord, hFields]; exact Or.inl rfl
    | ok r => exact Or.inr (hParsed _ (.replace hFields))
  | replaceIf id fields guard =>
    cases hFields : D.fromFields id fields with
    | error code => rw [applyWriteOp, replaceRecordIf, hFields]; exact Or.inl rfl
    | ok r => exact Or.inr (hParsed _ (.replaceIf hFields))
  | delete id => exact Or.inr (hParsed _ (.delete id))
  | link left right relation =>
    cases hLabel : D.checkLabel relation with
    | error code => rw [applyWriteOp, linkRecords, hLabel]; exact Or.inl rfl
    | ok u => exact Or.inr (hParsed _ (.link hLabel))

variable (D) in
/-- What a served write leaves, record by record and label by label. -/
structure Makes (op : WriteOp) (s s' : Stack R) : Prop where
  rows : ∀ id, s'.rows id = D.rowAfter op id (s.rows id)
  edges : ∀ label, s'.edges label = edgesAfter op label s.rows (s.edges label)

variable (D) in
/-- What a halted batch leaves, record by record and label by label. -/
structure Halt.Leaves (h : Halt) (s s' : Stack R) : Prop where
  rows : ∀ id, s'.rows id = Halt.row D h id (s.rows id)
  edges : ∀ label, s'.edges label = Halt.edges D h label s.rows (s.edges label)

/-- A record is written. -/
theorem makes_setRow {op : WriteOp} {s : Stack R} {id : RecordId} {row : Option R}
    (hRow : D.rowAfter op id (s.rows id) = row)
    (hOther : ∀ other ≠ id, ∀ row, D.rowAfter op other row = row)
    (hEdges : ∀ label m, edgesAfter op label s.rows m = m) : D.Makes op s (s.setRow id row) where
  rows other := by
    rw [Stack.rows_setRow]
    by_cases hId : other = id
    · rw [hId, Function.update_self, hRow]
    · rw [Function.update_of_ne hId, hOther other hId]
  edges label := by rw [Stack.edges_setRow, hEdges]

/-- The record is left as it is. -/
theorem makes_self {op : WriteOp} {s : Stack R} {id : RecordId}
    (hRow : D.rowAfter op id (s.rows id) = s.rows id)
    (hOther : ∀ other ≠ id, ∀ row, D.rowAfter op other row = row)
    (hEdges : ∀ label m, edgesAfter op label s.rows m = m) : D.Makes op s s where
  rows other := by
    by_cases hId : other = id
    · rw [hId, hRow]
    · rw [hOther other hId]
  edges label := (hEdges label _).symm

/-- Nothing is left where nothing was made. -/
theorem Halt.leaves_nothing (s : Stack R) : Halt.Leaves D ⟨[], none⟩ s s :=
  ⟨fun _ => rfl, fun _ => rfl⟩

variable (D) in
/-- What a prepared write comes to. Served, it succeeds and makes of the records and edges what it
says; else it fails, and leaves nothing unless it is a delete that stopped. -/
def Comes (storage : Storage) (op : WriteOp) (s : Stack R)
    (outcome : Except ErrorCode WriteResult × Stack R) : Prop :=
  (D.served storage s op = true ∧ ∃ result s', outcome = (.ok result, s') ∧ D.Makes op s s') ∨
    (D.served storage s op = false ∧ ∃ code s', outcome = (.error code, s') ∧
      Halt.Leaves D ⟨[], half op storage⟩ s s')

section Cases

variable {storage : Storage} {s : Stack R} {id : RecordId} {fields : Fields} {r : R}

theorem comes_insert (hFields : D.fromFields id fields = .ok r) :
    D.Comes storage (.insert id fields) s (D.applyPrepared storage (.insert r) s) := by
  rw [applyPrepared, insertRow, D.id_fromFields hFields]
  have hOther : ∀ other ≠ id, ∀ row, D.rowAfter (.insert id fields) other row = row :=
    fun other hNe row => if_neg fun h => hNe h.1.symm
  cases hRow : s.rows id with
  | some stored =>
    have hKept : D.rowAfter (.insert id fields) id (s.rows id) = s.rows id := by
      rw [hRow]
      exact if_neg fun h => nomatch h.2
    exact Or.inl ⟨by simp [served, hRow], _, s, rfl, makes_self hKept hOther fun _ _ => rfl⟩
  | none =>
    have hInserted : D.rowAfter (.insert id fields) id (s.rows id) = some r := by
      rw [rowAfter, hRow, if_pos ⟨rfl, rfl⟩, hFields]
      rfl
    cases storage with
    | works => exact Or.inl ⟨rfl, _, _, rfl, makes_setRow hInserted hOther fun _ _ => rfl⟩
    | refuses | stops done =>
      exact Or.inr ⟨by simp [served, hRow], _, s, rfl, Halt.leaves_nothing s⟩

theorem comes_replace (hFields : D.fromFields id fields = .ok r) :
    D.Comes storage (.replace id fields) s (D.applyPrepared storage (.replace r) s) := by
  rw [applyPrepared, replaceRow, D.id_fromFields hFields]
  have hOther : ∀ other ≠ id, ∀ row, D.rowAfter (.replace id fields) other row = row :=
    fun other hNe row => if_neg fun h => hNe h.1.symm
  cases hRow : s.rows id with
  | none =>
    have hKept : D.rowAfter (.replace id fields) id (s.rows id) = s.rows id := by
      rw [hRow]
      exact if_neg fun h => nomatch h.2
    exact Or.inl ⟨by simp [served, hRow], _, s, rfl, makes_self hKept hOther fun _ _ => rfl⟩
  | some stored =>
    have hReplaced : D.rowAfter (.replace id fields) id (s.rows id) = some r := by
      rw [rowAfter, hRow, if_pos ⟨rfl, rfl⟩, hFields]
      rfl
    cases storage with
    | works => exact Or.inl ⟨rfl, _, _, rfl, makes_setRow hReplaced hOther fun _ _ => rfl⟩
    | refuses | stops done =>
      exact Or.inr ⟨by simp [served, hRow], _, s, rfl, Halt.leaves_nothing s⟩

theorem comes_replaceIf {guard : Predicate}
    (hFields : D.fromFields id fields = .ok r) :
    D.Comes storage (.replaceIf id fields guard) s
      (D.applyPrepared storage (.replaceIf r guard) s) := by
  rw [applyPrepared, replaceRow, D.id_fromFields hFields]
  have hOther : ∀ other ≠ id, ∀ row, D.rowAfter (.replaceIf id fields guard) other row = row :=
    fun other hNe row => if_neg fun h => hNe h.1.symm
  -- without a record that the guard holds of, nothing is written
  have hKept (hGuard : (s.rows id).any (fun stored =>
      predicateMatches (D.fieldsOf stored) guard) = false) :
      D.served storage s (.replaceIf id fields guard) = true ∧
        D.Makes (.replaceIf id fields guard) s s := by
    refine ⟨by simp [served, hGuard], makes_self ?_ hOther fun _ _ => rfl⟩
    rw [rowAfter, if_neg fun h => by rw [hGuard] at h; exact nomatch h.2]
  cases hRow : s.rows id with
  | none =>
    rw [hRow] at hKept
    exact Or.inl ⟨(hKept rfl).1, _, s, rfl, (hKept rfl).2⟩
  | some stored =>
    rw [hRow] at hKept
    dsimp only
    cases hGuard : predicateMatches (D.fieldsOf stored) guard with
    | false =>
      obtain ⟨hServed, hMakes⟩ := hKept hGuard
      exact Or.inl ⟨hServed, _, s, rfl, hMakes⟩
    | true =>
      rw [if_pos rfl]
      have hReplaced : D.rowAfter (.replaceIf id fields guard) id (s.rows id) = some r := by
        rw [rowAfter, hRow, if_pos ⟨rfl, hGuard⟩, hFields]
        rfl
      cases storage with
      | works => exact Or.inl ⟨rfl, _, _, rfl, makes_setRow hReplaced hOther fun _ _ => rfl⟩
      | refuses | stops done =>
        exact Or.inr ⟨by simp [served, hRow, hGuard], _, s, rfl, Halt.leaves_nothing s⟩

theorem comes_delete (storage : Storage) (s : Stack R) (id : RecordId) :
    D.Comes storage (.delete id) s (D.applyPrepared storage (.delete id) s) := by
  rw [applyPrepared, deleteRecord]
  cases hRow : s.rows id with
  | none =>
    have hServed : D.served storage s (.delete id) = true := by
      cases storage <;> simp [served, hRow]
    have hNone : s.delete id = (false, s) := by rw [Stack.delete, hRow]
    rw [hNone]
    refine Or.inl ⟨hServed, _, s, rfl, fun other => ?_, fun label => ?_⟩
    · by_cases hId : id = other
      · rw [rowAfter, if_pos hId, ← hId, hRow]
      · rw [rowAfter, if_neg hId]
    · rw [edgesAfter, hRow, if_neg (by exact Bool.false_ne_true)]
  | some r =>
    have hDelete : s.delete id = (true, (s.delete id).2) := by rw [Stack.delete, hRow]
    have hRows : (s.delete id).2.rows = Function.update s.rows id none := by
      rw [Stack.delete, hRow]; rfl
    have hMakes : D.Makes (.delete id) s (s.delete id).2 := by
      refine ⟨fun other => ?_, fun label => ?_⟩
      · rw [hRows, rowAfter, Function.update_apply]
        simp only [eq_comm]
      · rw [Stack.edges_delete hRow, edgesAfter, hRow, if_pos (by rfl)]
    rw [hDelete]
    cases storage with
    | works => exact Or.inl ⟨rfl, _, _, rfl, hMakes⟩
    | refuses => exact Or.inr ⟨by simp [served, hRow], _, s, rfl, Halt.leaves_nothing s⟩
    | stops done =>
      dsimp only
      cases hWithin : s.edgesWithin id done with
      | true => exact Or.inl ⟨by simp [served, hWithin], _, _, rfl, hMakes⟩
      | false =>
        refine Or.inr ⟨by simp [served, hRow, hWithin], _, _, rfl, fun other => ?_,
          fun label => ?_⟩
        · show Function.update s.rows id none other = _
          rw [Halt.row, Function.update_apply]
          simp only [half, Option.any_some, decide_eq_true_eq, eq_comm (a := id)]
          rfl
        · rw [Stack.edges_deletePart]
          rfl

theorem comes_link {left right : RecordId} {relation : String}
    (hLabel : D.checkLabel relation = .ok ()) :
    D.Comes storage (.link left right relation) s
      (D.applyPrepared storage (.link left right relation) s) := by
  rw [applyPrepared, linkRow]
  rcases s.link_cases D.foreign (D.valid_checkLabel hLabel) left right with
    ⟨hNot, e, hLink⟩ | ⟨hLinkable, hEdge, s', hLink, hRows, hEdges⟩ |
      ⟨hLinkable, hNew, s', hLink, hRows, hEdges⟩
  · rw [hLink]
    exact Or.inr ⟨by simp [served, hNot], _, s, rfl, Halt.leaves_nothing s⟩
  · rw [hLink]
    refine Or.inl ⟨by simp [served, hLinkable, hEdge], _, s', rfl, fun id => by
      rw [hRows]; rfl, fun label => ?_⟩
    rw [hEdges, edgesAfter, if_neg fun h => h.2 (h.1 ▸ hEdge)]
  · rw [hLink]
    cases storage with
    | works =>
      refine Or.inl ⟨by simp [served, hLinkable], _, s', rfl, fun id => by
        rw [hRows]; rfl, fun label => ?_⟩
      rw [hEdges, edgesAfter]
      by_cases hHere : label = relation
      · rw [hHere, if_pos rfl, if_pos ⟨rfl, hNew⟩]
      · rw [if_neg hHere, if_neg fun h => hHere h.1]
    | refuses => exact Or.inr ⟨by simp [served, hNew], _, s, rfl, Halt.leaves_nothing s⟩
    | stops done =>
      refine Or.inr ⟨by simp [served, hNew], _, s.withLabel relation, rfl, fun id => ?_,
        fun label => ?_⟩
      · rw [Stack.rows_withLabel]
        rfl
      · rw [Stack.edges_withLabel]
        rfl

end Cases

/-- **One prepared write** does what it says where it is served. -/
theorem Prepares.applyPrepared_cases {op : WriteOp} {p : PreparedWrite R} (h : D.Prepares op p)
    (storage : Storage) (s : Stack R) : D.Comes storage op s (D.applyPrepared storage p s) := by
  cases h with
  | insert hFields => exact comes_insert hFields
  | replace hFields => exact comes_replace hFields
  | replaceIf hFields => exact comes_replaceIf hFields
  | delete id => exact comes_delete storage s id
  | link hLabel => exact comes_link hLabel

/-! ## A batch -/

theorem prepareAll_ok {i : Nat} {ops : List WriteOp} {prepared : List (PreparedWrite R)}
    (h : D.prepareAll i ops = .ok prepared) : List.Forall₂ D.Prepares ops prepared := by
  induction ops generalizing i prepared with
  | nil =>
    cases h
    exact .nil
  | cons op ops ih =>
    rw [prepareAll] at h
    split at h
    · cases h
    · next p hp =>
      cases hRest : D.prepareAll (i + 1) ops with
      | error e => rw [hRest] at h; cases h
      | ok rest =>
        rw [hRest] at h
        cases h
        exact .cons (prepares_of_prepareWrite hp) (ih hRest)

theorem prepareAll_error {i : Nat} {ops : List WriteOp} :
    (∃ e, D.prepareAll i ops = .error e) ↔ ∃ op ∈ ops, ∀ p, D.prepareWrite op ≠ .ok p := by
  induction ops generalizing i with
  | nil => exact ⟨nofun, nofun⟩
  | cons op ops ih =>
    rw [prepareAll, List.exists_mem_cons_iff, ← ih (i := i + 1)]
    cases hp : D.prepareWrite op with
    | error code => exact iff_of_true ⟨_, rfl⟩ (Or.inl nofun)
    | ok p =>
      dsimp only
      constructor
      · rintro ⟨e, he⟩
        cases hRest : D.prepareAll (i + 1) ops with
        | error e' => exact Or.inr ⟨e', rfl⟩
        | ok rest => rw [hRest] at he; cases he
      · rintro (hNone | ⟨e, he⟩)
        · exact absurd rfl (hNone p)
        · rw [he]
          exact ⟨e, rfl⟩

theorem missingLeft_eq_none {s : Stack R} {i : Nat} {ops : List WriteOp}
    {prepared : List (PreparedWrite R)} (h : List.Forall₂ D.Prepares ops prepared) :
    missingLeft s i prepared = none ↔
      ∀ left right relation, .link left right relation ∈ ops → (s.rows left).isSome = true := by
  induction h generalizing i with
  | nil => exact ⟨fun _ _ _ _ => nofun, fun _ => rfl⟩
  | @cons op p ops prepared hOp hRest ih =>
    cases hOp with
    | @link left right relation hLabel =>
      rw [missingLeft]
      cases hRow : s.rows left with
      | none =>
        refine iff_of_false nofun fun h => ?_
        have hSome := h left right relation List.mem_cons_self
        rw [hRow] at hSome
        cases hSome
      | some r =>
        rw [if_neg (by exact Bool.false_ne_true), ih]
        constructor
        · intro h left' right' relation' hMem
          rcases List.mem_cons.mp hMem with hHere | hLater
          · cases hHere
            rw [hRow]
            rfl
          · exact h left' right' relation' hLater
        · exact fun h left' right' relation' hMem =>
            h left' right' relation' (List.mem_cons_of_mem _ hMem)
    | _ =>
      rw [missingLeft, ih]
      · constructor
        · intro h left right relation hMem
          rcases List.mem_cons.mp hMem with hHere | hLater
          · cases hHere
          · exact h left right relation hLater
        · exact fun h left right relation hMem =>
            h left right relation (List.mem_cons_of_mem _ hMem)
      · exact nofun

/-- A halt behind one more write. -/
theorem Makes.leaves {op : WriteOp} {h : Halt} {s t u : Stack R} (hMakes : D.Makes op s t)
    (hLeaves : Halt.Leaves D h t u) : Halt.Leaves D { h with made := op :: h.made } s u where
  rows id := by
    rw [hLeaves.rows, hMakes.rows]
    rfl
  edges label := by
    rw [hLeaves.edges, hMakes.edges, funext hMakes.rows]
    rfl

/-- **Applying.** The writes are made one by one up to the first that fails at its place. -/
theorem applyAll_spec {ops : List WriteOp} {prepared : List (PreparedWrite R)}
    (h : List.Forall₂ D.Prepares ops prepared) (storage : List Storage) (i : Nat) (s : Stack R) :
    (D.haltsAt storage i ops s = none ∧ D.applyAll storage i prepared s =
        (.ok (D.writePipelined storage i ops s).1, (D.writePipelined storage i ops s).2)) ∨
      ∃ halt e s', D.haltsAt storage i ops s = some halt ∧
        D.applyAll storage i prepared s = (.error e, s') ∧ Halt.Leaves D halt s s' := by
  induction h generalizing i s with
  | nil => exact Or.inl ⟨rfl, rfl⟩
  | @cons op p ops prepared hOp hRest ih =>
    have hSingle := hOp.applyWriteOp_eq (storageAt storage i) s
    rw [applyAll, haltsAt]
    rcases hOp.applyPrepared_cases (storageAt storage i) s with
      ⟨hServed, result, s', hRun, hMakes⟩ | ⟨hNot, code, s', hRun, hLeaves⟩
    · rw [hRun] at hSingle
      rw [if_pos hServed, writePipelined, hSingle, hRun]
      rcases ih (i + 1) s' with ⟨hHalts, hAll⟩ | ⟨halt, e, s'', hHalts, hAll, hLeaves⟩
      · refine Or.inl ⟨by rw [hHalts]; rfl, ?_⟩
        dsimp only
        rw [hAll]
        rfl
      · refine Or.inr ⟨{ halt with made := op :: halt.made }, e, s'', by rw [hHalts]; rfl, ?_,
          hMakes.leaves hLeaves⟩
        dsimp only
        rw [hAll]
        rfl
    · rw [if_neg (by rw [hNot]; exact Bool.false_ne_true), hRun]
      exact Or.inr ⟨_, _, s', rfl, rfl, hLeaves⟩

/-- A batch is refused before its first write, or its writes are applied. -/
theorem writeBatch_cases (storage : List Storage) (ops : List WriteOp) (s : Stack R) :
    (D.Refused ops s ∧ ∃ e, D.writeBatch storage ops true s = (.error e, s)) ∨
      (¬ D.Refused ops s ∧ ((D.haltsAt storage 0 ops s = none ∧ D.writeBatch storage ops true s =
          (.ok (D.writePipelined storage 0 ops s).1, (D.writePipelined storage 0 ops s).2)) ∨
        ∃ halt e s', D.haltsAt storage 0 ops s = some halt ∧
          D.writeBatch storage ops true s = (.error e, s') ∧ Halt.Leaves D halt s s')) := by
  have hBatch : D.writeBatch storage ops true s = D.writeAtomic storage ops s := if_pos rfl
  rw [hBatch, writeAtomic]
  cases hPrepare : D.prepareAll 0 ops with
  | error e => exact Or.inl ⟨Or.inl (prepareAll_error.mp ⟨e, hPrepare⟩), e, rfl⟩
  | ok prepared =>
    have hPrepares := prepareAll_ok hPrepare
    have hMissing := missingLeft_eq_none (s := s) (i := 0) hPrepares
    dsimp only
    rw [applyExclusive]
    cases hLeft : missingLeft s 0 prepared with
    | some i =>
      refine Or.inl ⟨Or.inr ?_, _, rfl⟩
      by_contra hNone
      rw [hMissing.mpr] at hLeft
      · cases hLeft
      · intro left right relation hMem
        rw [Option.isSome_iff_ne_none]
        exact fun hRow => hNone ⟨left, right, relation, hMem, hRow⟩
    | none =>
      refine Or.inr ⟨?_, applyAll_spec hPrepares storage 0 s⟩
      rintro (hUnparsed | ⟨left, right, relation, hMem, hRow⟩)
      · obtain ⟨e, he⟩ := (prepareAll_error (i := 0)).mpr hUnparsed
        rw [hPrepare] at he
        cases he
      · have hSome := hMissing.mp hLeft left right relation hMem
        rw [hRow] at hSome
        cases hSome

/-- **Atomic batches.** Whatever the storage does, a batch is all or nothing exactly when it is
refused before its first write, or none of its writes fails at its place, or those before the first
that does, and what that one did, leave every record and the edges of every label as they were. -/
theorem atomic_iff (storage : List Storage) (ops : List WriteOp) (s : Stack R) :
    D.AllOrNothing storage ops s ↔
      D.Refused ops s ∨ ∀ halt, D.haltsAt storage 0 ops s = some halt →
        Halt.LeavesAlone D halt s := by
  unfold AllOrNothing
  rcases writeBatch_cases (D := D) storage ops s with
    ⟨hRefused, e, hRun⟩ | ⟨hRefused, ⟨hHalts, hRun⟩ | ⟨halt, e, s', hHalts, hRun, hLeaves⟩⟩
  · rw [hRun]
    exact iff_of_true ⟨fun _ _ => ⟨rfl, fun _ => rfl⟩, nofun⟩ (Or.inl hRefused)
  · rw [hRun, hHalts]
    refine iff_of_true ⟨nofun, fun results hResults => ?_⟩ (Or.inr nofun)
    cases hResults
    rfl
  · rw [hRun, hHalts]
    have hSame : s'.SameContents s ↔ Halt.LeavesAlone D halt s := by
      refine and_congr (funext_iff.trans (forall_congr' fun id => ?_))
        (forall_congr' fun label => ?_)
      · rw [hLeaves.rows]
      · rw [hLeaves.edges]
    constructor
    · intro h
      refine Or.inr fun halt' hEq => ?_
      cases hEq
      exact hSame.mp (h.1 e rfl)
    · rintro (h | h)
      · exact absurd h hRefused
      · exact ⟨fun _ _ => hSame.mpr (h halt rfl), nofun⟩

end Domain

namespace Memory

/-- A memory with nothing but a count, for examples. -/
def sample (n : Nat) (count : Int64) : Memory :=
  ⟨Uuid.ofNat n, "", "general", [], "manual", "", 0, 0, "fact", "active", false, count, 0, ""⟩

/-- Two memories. -/
def sampleStack : Stack Memory :=
  (Stack.empty.setRow (Uuid.ofNat 1) (some (sample 1 0))).setRow (Uuid.ofNat 2) (some (sample 2 0))

/-- A third memory is inserted, and a memory is linked to itself. -/
def insertAndSelfLink : List WriteOp :=
  [.insert (Uuid.ofNat 3) (fieldsOf (sample 3 0)), .link (Uuid.ofNat 1) (Uuid.ofNat 1) "mentions"]

/-- The batch fails, and the third memory stays. -/
theorem self_link_keeps_insert :
    ¬ ∀ (ops : List WriteOp) (s : Stack Memory), domain.AllOrNothing [] ops s := by
  intro hClaim
  have hFailed : (domain.writeBatch [] insertAndSelfLink true sampleStack).1.toBool = false := by
    decide +kernel
  have hKept : ((domain.writeBatch [] insertAndSelfLink true sampleStack).2.rows
      (Uuid.ofNat 3)).isSome = true := by decide +kernel
  cases hBatch : (domain.writeBatch [] insertAndSelfLink true sampleStack).1 with
  | ok results =>
    rw [hBatch] at hFailed
    cases hFailed
  | error e =>
    have hSame := (hClaim insertAndSelfLink sampleStack).1 e hBatch
    rw [hSame.1] at hKept
    exact absurd hKept (by decide +kernel)

/-- Two memories are inserted, and the storage fails at the second. -/
example : (domain.writeBatch [.works, .refuses]
    [.insert (Uuid.ofNat 3) (fieldsOf (sample 3 0)), .insert (Uuid.ofNat 4) (fieldsOf (sample 4 0))]
      true sampleStack).1 = .error (1, .storage) := by decide +kernel

end Memory

end MultimodalDb
