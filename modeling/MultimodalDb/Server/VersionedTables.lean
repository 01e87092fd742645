import MultimodalDb.Lib.Checks
import MultimodalDb.Server.Reads
import MultimodalDb.Server.Versions

/-!
# The ages of what the tables answer

An adapter gives every field a value of the kind that its schema says, and it refuses a request with
codes that are no newer than the request, over storage that fails as well.

* `Adapter.versioned`: what the adapters may answer.
-/

namespace MultimodalDb

/-! ## What a table says -/

/-- The kind of a value. No field is a float. -/
def ScanValue.kind? : ScanValue → Option ValueKind
  | .u32 _ => some .u32
  | .i64 _ => some .i64
  | .bool _ => some .bool
  | .str _ => some .str
  | .f64 _ => none
  | .strList _ => some .strList

/-- Every field has a value of the kind that the schema gives it. -/
def DomainSchema.Types (schema : DomainSchema) (fields : Fields) : Prop :=
  ∀ f ∈ fields, ∃ kind, schema.kindOf f.1 = some kind ∧ f.2.kind? = some kind

/-- What an adapter may answer a read. -/
def Read.Sound (schema : DomainSchema) : (r : Read) → r.Reply → Prop
  | .get _, reply => ∀ fields, reply = some fields → schema.Types fields
  | .scanField _, reply =>
    Refuses (·.since ≤ 1) reply ∧ ∀ values, reply = .ok values → ∀ value ∈ values, value.since ≤ 1
  | .filterEq .., reply | .parent _, reply | .children _, reply | .neighbors _, reply
  | .neighborsByRelation .., reply | .countEdges _, reply | .validateOp _, reply =>
    Refuses (·.since ≤ 1) reply
  | .allIds, _ | .listRelationKinds, _ | .pageBy .., _ => True

/-- What an adapter may answer a write. -/
def Write.Sound : (w : Write) → w.Reply → Prop
  | .updateField .., reply => Refuses (·.since ≤ 1) reply
  | .applyTransaction .., reply | .applyTurn .., reply =>
    Refuses (fun e => e.2.since ≤ 1 ∨ e.2 = .conflict) reply
  | .insertRecord .., reply | .replaceRecord .., reply | .replaceRecordIf .., reply
  | .deleteRecord _, reply | .linkRecords .., reply | .detachRecord .., reply | .compact, reply =>
    Refuses (·.since ≤ 13) reply
  | .writeAtomic _, _ => True

/-- Nothing that an adapter answers is newer than the requests it answers. -/
structure ConnectionStore.Versioned {σ : Type} (s : ConnectionStore σ) : Prop where
  read : ∀ r c, Read.Sound s.describe r (s.read r c)
  write : ∀ w c, Write.Sound w (s.write w c).1

/-! ## The adapters -/

/-- What holds of each domain: its records have the fields of its schema, and it refuses with no
newer code. -/
structure Domain.Plain {R V : Type} (D : Domain R V) : Prop where
  typed : ∀ r, D.schema.Types (D.fieldsOf r)
  fields : ∀ id fields, Refuses (·.since ≤ 1) (D.fromFields id fields)
  label : ∀ label, Refuses (·.since ≤ 1) (D.checkLabel label)

namespace Domain

variable {R V : Type} {D : Domain R V}

theorem checkWrite_refuses (field : FieldRef) (value : ScanValue) (found : Bool) :
    Refuses (·.since ≤ 1) (D.checkWrite field value found) := by
  have hOld : ErrorCode.malformed.since ≤ 1 ∧ ErrorCode.recordNotFound.since ≤ 1 ∧
      ErrorCode.unsupported.since ≤ 1 ∧ ErrorCode.unknownField.since ≤ 1 := by decide
  obtain ⟨hMalformed, hNotFound, hUnsupported, hUnknown⟩ := hOld
  unfold checkWrite
  split
  · split
    · exact hMalformed
    · split
      · exact hMalformed
      · split
        · trivial
        · exact hNotFound
  · split
    · exact hUnsupported
    · exact hUnknown

theorem validateBatch_refuses (found : RecordId → Bool) (i : Nat) (ops : Batch) :
    Refuses (·.2.since ≤ 1) (D.validateBatch found i ops) := by
  induction ops generalizing i with
  | nil => trivial
  | cons op ops ih =>
    rw [validateBatch]
    have hOp := D.checkWrite_refuses op.field op.value (found op.id)
    split
    · next code hError => exact hOp.of_error hError
    · exact ih (i + 1)

theorem applyBatch_refuses (i : Nat) (ops : Batch) (s : Stack R) :
    Refuses (·.2.since ≤ 1) (D.applyBatch i ops s).1 := by
  induction ops generalizing i s with
  | nil => trivial
  | cons op ops ih =>
    rw [applyBatch]
    split
    · exact ih (i + 1) s
    · split
      · exact ih (i + 1) _
      · show ErrorCode.recordNotFound.since ≤ 1
        decide

theorem checkReadSet_refuses (reads : List TrackedRead) (s : Stack R) :
    Refuses (·.2 = .conflict) (D.checkReadSet reads s) := by
  unfold checkReadSet
  split
  · trivial
  · rfl

theorem applyTransaction_refuses (c : Txn) (s : Stack R) :
    Refuses (fun e => e.2.since ≤ 1 ∨ e.2 = .conflict) (D.applyTransaction c s).1 := by
  unfold applyTransaction
  split
  · next e hError => exact Or.inl ((D.validateBatch_refuses _ 0 c.updates).of_error hError)
  · split
    · next e hError => exact Or.inr ((D.checkReadSet_refuses c.readSet s).of_error hError)
    · exact (D.applyBatch_refuses 0 c.updates s).mono fun _ h => Or.inl h

theorem takeTurn_refuses (c : Txn) (s : Stack R) :
    Refuses (fun e => e.2.since ≤ 1 ∨ e.2 = .conflict) (D.takeTurn c s).1 := by
  unfold takeTurn
  split
  · next e hError => exact Or.inr ((D.checkReadSet_refuses c.readSet s).of_error hError)
  · exact (D.applyBatch_refuses 0 c.updates s).mono fun _ h => Or.inl h

theorem updateField_refuses (s : Stack R) (id : RecordId) (field : FieldRef) (value : ScanValue) :
    Refuses (·.since ≤ 1) (D.updateField s id field value).1 := by
  unfold updateField
  split
  · next code hError => exact (D.checkWrite_refuses field value true).of_error hError
  · trivial

end Domain

/-- The codes of the first version are known wherever a newer one is. -/
theorem Refuses.since_mono {α : Type} {x : Except ErrorCode α} {v w : UInt32}
    (h : Refuses (·.since ≤ v) x) (hLe : v ≤ w) : Refuses (·.since ≤ w) x :=
  h.mono fun _ hCode => UInt32.le_trans hCode hLe

namespace Domain

variable {R V : Type} {D : Domain R V}

/-- A storage that fails is answered with a code as old as the writes. -/
theorem whenLogged_refuses {α : Type} (storage : Storage) (reply : α) (s s' : Stack R) :
    Refuses (·.since ≤ 13) (whenLogged storage reply s s').1 := by
  cases storage with
  | works => trivial
  | refuses | stops done => exact UInt32.le_refl 13

theorem insertRow_refuses (storage : Storage) (s : Stack R) (r : R) :
    Refuses (·.since ≤ 13) (D.insertRow storage s r).1 := by
  unfold insertRow
  split
  · trivial
  · exact whenLogged_refuses ..

theorem replaceRow_refuses (storage : Storage) (s : Stack R) (r : R) :
    Refuses (·.since ≤ 13) (D.replaceRow storage s r).1 := by
  unfold replaceRow
  split
  · trivial
  · exact whenLogged_refuses ..

theorem replaceRowIf_refuses (storage : Storage) (s : Stack R) (r : R) (guard : Predicate) :
    Refuses (·.since ≤ 13) (D.replaceRowIf storage s r guard).1 := by
  unfold replaceRowIf
  split
  · trivial
  · split
    · exact whenLogged_refuses ..
    · trivial

theorem deleteRecord_refuses (storage : Storage) (s : Stack R) (id : RecordId) :
    Refuses (·.since ≤ 13) (deleteRecord storage s id).1 := by
  unfold deleteRecord
  split
  · trivial
  · cases storage with
    | works => trivial
    | refuses => exact UInt32.le_refl 13
    | stops done =>
      dsimp only
      split
      · trivial
      · exact UInt32.le_refl 13

theorem linkRow_refuses (storage : Storage) (s : Stack R) (left right : RecordId)
    (relation : String) :
    Refuses (·.since ≤ 13) (D.linkRow storage s left right relation).1 := by
  unfold linkRow
  split
  · next e _ _ =>
    show (linkErrorCode e).since ≤ 13
    cases e <;> exact (by decide : (1 : UInt32) ≤ 13)
  · trivial
  · cases storage with
    | works => trivial
    | refuses | stops done => exact UInt32.le_refl 13

namespace Plain

variable (h : D.Plain)
include h

theorem insertRecord (storage : Storage) (s : Stack R) (id : RecordId) (fields : Fields) :
    Refuses (·.since ≤ 13) (D.insertRecord storage s id fields).1 := by
  unfold Domain.insertRecord
  split
  · next code hError => exact ((h.fields id fields).since_mono (by decide)).of_error hError
  · exact D.insertRow_refuses ..

theorem replaceRecord (storage : Storage) (s : Stack R) (id : RecordId) (fields : Fields) :
    Refuses (·.since ≤ 13) (D.replaceRecord storage s id fields).1 := by
  unfold Domain.replaceRecord
  split
  · next code hError => exact ((h.fields id fields).since_mono (by decide)).of_error hError
  · exact D.replaceRow_refuses ..

theorem replaceRecordIf (storage : Storage) (s : Stack R) (id : RecordId) (fields : Fields)
    (guard : Predicate) :
    Refuses (·.since ≤ 13) (D.replaceRecordIf storage s id fields guard).1 := by
  unfold Domain.replaceRecordIf
  split
  · next code hError => exact ((h.fields id fields).since_mono (by decide)).of_error hError
  · exact D.replaceRowIf_refuses ..

theorem linkRecords (storage : Storage) (s : Stack R) (left right : RecordId) (relation : String) :
    Refuses (·.since ≤ 13) (D.linkRecords storage s left right relation).1 := by
  unfold Domain.linkRecords
  split
  · next code hError => exact ((h.label relation).since_mono (by decide)).of_error hError
  · exact D.linkRow_refuses ..

theorem detachRecord (storage : Storage) (s : Stack R) (relation : String) (id : RecordId) :
    Refuses (·.since ≤ 13) (D.detachRecord storage s relation id).1 := by
  unfold Domain.detachRecord
  split
  · next code hError => exact ((h.label relation).since_mono (by decide)).of_error hError
  · split
    · show ErrorCode.malformed.since ≤ 13
      decide
    · trivial
    · exact whenLogged_refuses ..

end Plain

end Domain

theorem Table.versioned (t : Table) (h : t.domain.Plain)
    (hIndex : ∀ r s, Read.Sound t.domain.schema r (t.index r s)) : t.store.Versioned := by
  have hOld : (1 : UInt32) ≤ 13 := by decide
  constructor
  · intro r s
    cases r with
    | get id =>
      intro fields hGet
      obtain ⟨row, -, rfl⟩ := Option.map_eq_some_iff.mp hGet
      exact h.typed row
    | validateOp op =>
      have hWrite := t.domain.checkWrite_refuses op.field op.value (s.rows op.id).isSome
      show Refuses _ ((t.domain.checkWrite op.field op.value (s.rows op.id).isSome).map fun _ => ())
      cases hCheck : t.domain.checkWrite op.field op.value (s.rows op.id).isSome with
      | error code => exact hWrite.of_error hCheck
      | ok _ => trivial
    | _ => exact hIndex _ s
  · intro w s
    cases w with
    | updateField id field value => exact t.domain.updateField_refuses s id field value
    | insertRecord id fields => exact h.insertRecord .works s id fields
    | replaceRecord id fields => exact h.replaceRecord .works s id fields
    | replaceRecordIf id fields guard => exact h.replaceRecordIf .works s id fields guard
    | deleteRecord id =>
      show Refuses _ (if t.deletes then Domain.deleteRecord .works s id
        else (.error .unsupported, s)).1
      split
      · exact Domain.deleteRecord_refuses .works s id
      · exact hOld
    | linkRecords left right relation => exact h.linkRecords .works s left right relation
    | detachRecord relation id => exact h.detachRecord .works s relation id
    | writeAtomic ops => trivial
    | compact =>
      show Refuses _ (if t.deletes then
        ((.ok (t.report s) : Except ErrorCode CompactionReport), s) else (.error .unsupported, s)).1
      split
      · trivial
      · exact hOld
    | applyTransaction updates readSet =>
      exact t.domain.applyTransaction_refuses ⟨updates, readSet⟩ s
    | applyTurn updates readSet => exact t.domain.takeTurn_refuses ⟨updates, readSet⟩ s

/-! ### The five tables -/

theorem recordFromFields_refuses {R : Type} (known : FieldRef → Bool)
    (fits : FieldRef → ScanValue → Bool)
    (build : (FieldRef → Option ScanValue) → Option R) (fields : Fields) :
    Refuses (·.since ≤ 1) (recordFromFields known fits build fields) := by
  have hCollect (slots : FieldRef → Option ScanValue) :
      Refuses (·.since ≤ 1) (collectFields known fits fields slots) := by
    induction fields generalizing slots with
    | nil => trivial
    | cons f rest ih =>
      obtain ⟨tag, value⟩ := f
      rw [collectFields]
      split
      · exact ih _
      · split <;> exact UInt32.le_refl 1
  unfold recordFromFields
  split
  · next code hError => exact (hCollect _).of_error hError
  · split
    · exact UInt32.le_refl 1
    · trivial

/-- A check of one condition. -/
theorem refuses_malformed (p : Prop) [Decidable p] :
    Refuses (·.since ≤ 1) (if p then .ok ()
      else .error ErrorCode.malformed : Except ErrorCode Unit) := by
  split
  · trivial
  · exact UInt32.le_refl 1

theorem types_cons {schema : DomainSchema} {f : FieldRef × ScanValue} {rest : Fields}
    (h : schema.kindOf f.1 = f.2.kind? ∧ f.2.kind?.isSome = true) (hRest : schema.Types rest) :
    schema.Types (f :: rest) := by
  obtain ⟨hKind, hSome⟩ := h
  obtain ⟨kind, hIs⟩ := Option.isSome_iff_exists.mp hSome
  exact List.forall_mem_cons.mpr ⟨⟨kind, hKind.trans hIs, hIs⟩, hRest⟩

theorem types_nil {schema : DomainSchema} : schema.Types [] := nofun

theorem DogRecord.domain_plain : DogRecord.domain.Plain := by
  refine ⟨fun r => ?_, fun _ _ => UInt32.le_refl 1, fun _ => UInt32.le_refl 1⟩
  repeat refine types_cons ⟨rfl, rfl⟩ ?_
  exact types_nil

theorem Reminder.domain_plain : Reminder.domain.Plain := by
  refine ⟨fun r => ?_, fun _ _ => recordFromFields_refuses .., fun _ => UInt32.le_refl 1⟩
  repeat refine types_cons ⟨rfl, rfl⟩ ?_
  exact types_nil

theorem Relation.domain_plain : Relation.domain.Plain := by
  refine ⟨fun r => ?_, fun _ _ => recordFromFields_refuses .., fun _ => UInt32.le_refl 1⟩
  repeat refine types_cons ⟨rfl, rfl⟩ ?_
  exact types_nil

theorem Memory.domain_plain : Memory.domain.Plain := by
  refine ⟨fun r => ?_, fun _ _ => recordFromFields_refuses .., fun _ => refuses_malformed _⟩
  repeat refine types_cons ⟨rfl, rfl⟩ ?_
  exact types_nil

theorem Entity.domain_plain : Entity.domain.Plain := by
  refine ⟨fun r => ?_, fun _ _ => recordFromFields_refuses .., fun _ => refuses_malformed _⟩
  repeat refine types_cons ⟨rfl, rfl⟩ ?_
  exact types_nil

theorem filterEqBy_refuses (indexed : FieldRef → Option ValueKind) (known : FieldRef → Bool)
    (ids : FieldRef → ScanValue → List RecordId) (field : FieldRef) (value : ScanValue) :
    Refuses (·.since ≤ 1) (filterEqBy indexed known ids field value) := by
  unfold filterEqBy
  split
  · split
    · trivial
    · exact UInt32.le_refl 1
  · show ErrorCode.since (if known field then _ else _) ≤ 1
    split <;> exact UInt32.le_refl 1

theorem scanField_sound {R V : Type} (D : Domain R V) (schema : DomainSchema)
    {toScan : V → ScanValue}
    (hOld : ∀ v, (toScan v).since ≤ 1) (values : List V) (field : FieldRef) :
    Read.Sound schema (.scanField field) (D.scanField toScan values field) := by
  unfold Domain.scanField
  split
  · refine ⟨trivial, fun found hFound value hMem => ?_⟩
    cases hFound
    obtain ⟨v, -, rfl⟩ := List.mem_map.mp hMem
    exact hOld v
  · refine ⟨?_, nofun⟩
    show ErrorCode.since (if field ∈ D.readOnly then _ else _) ≤ 1
    split <;> exact UInt32.le_refl 1

theorem underLabel_refuses {α : Type} (found : Option α) :
    Refuses (·.since ≤ 1) (underLabel found) := by
  cases found with
  | none => exact UInt32.le_refl 1
  | some a => trivial

theorem Read.nothing_sound (schema : DomainSchema) (r : Read) : Read.Sound schema r r.nothing := by
  cases r with
  | get id => exact nofun
  | scanField field => exact ⟨UInt32.le_refl 1, nofun⟩
  | allIds | listRelationKinds | pageBy => trivial
  | _ => exact UInt32.le_refl 1

theorem DogRecord.reads_sound (L : Layers DogRecord UInt32) (r : Read) (s : Stack DogRecord) :
    Read.Sound DogRecord.domain.schema r (DogRecord.reads L r s) := by
  cases r with
  | scanField field =>
    apply scanField_sound
    exact fun _ => UInt32.le_refl 1
  | neighborsByRelation id relation =>
    show Refuses _ (if relation = "littermate_of" then
      (.ok (L.allNeighbors id s) : Except ErrorCode (List RecordId)) else .error .malformed)
    split
    · trivial
    · exact UInt32.le_refl 1
  | get | validateOp | pageBy => exact Read.nothing_sound _ _
  | allIds | neighbors | listRelationKinds => trivial
  | _ => exact UInt32.le_refl 1

theorem Reminder.reads_sound (L : Layers Reminder ReminderStatus) (r : Read) (s : Stack Reminder) :
    Read.Sound Reminder.domain.schema r (Reminder.reads L r s) := by
  cases r with
  | filterEq field value =>
    unfold reads
    exact filterEqBy_refuses ..
  | scanField field =>
    apply scanField_sound
    exact fun _ => UInt32.le_refl 1
  | get | validateOp | pageBy => exact Read.nothing_sound _ _
  | allIds | listRelationKinds => trivial
  | _ => exact UInt32.le_refl 1

theorem Relation.reads_sound (L : Layers Relation Int64) (r : Read) (s : Stack Relation) :
    Read.Sound Relation.domain.schema r (Relation.reads L r s) := by
  cases r with
  | filterEq field value =>
    unfold reads
    exact filterEqBy_refuses ..
  | scanField field =>
    apply scanField_sound
    exact fun _ => UInt32.le_refl 1
  | get | validateOp => exact Read.nothing_sound _ _
  | allIds | listRelationKinds | pageBy => trivial
  | _ => exact UInt32.le_refl 1

theorem Memory.reads_sound (L : Layers Memory Int64) (r : Read) (s : Stack Memory) :
    Read.Sound Memory.domain.schema r (Memory.reads L r s) := by
  cases r with
  | filterEq field value =>
    unfold reads
    exact filterEqBy_refuses ..
  | scanField field =>
    apply scanField_sound
    exact fun _ => UInt32.le_refl 1
  | neighborsByRelation | countEdges => exact underLabel_refuses _
  | get | validateOp => exact Read.nothing_sound _ _
  | allIds | neighbors | listRelationKinds | pageBy => trivial
  | _ => exact UInt32.le_refl 1

theorem Entity.reads_sound (L : Layers Entity Int64) (r : Read) (s : Stack Entity) :
    Read.Sound Entity.domain.schema r (Entity.reads L r s) := by
  cases r with
  | filterEq field value =>
    unfold reads
    exact filterEqBy_refuses ..
  | scanField field =>
    apply scanField_sound
    exact fun _ => UInt32.le_refl 1
  | neighborsByRelation | countEdges => exact underLabel_refuses _
  | get | validateOp | pageBy => exact Read.nothing_sound _ _
  | allIds | neighbors | listRelationKinds => trivial
  | _ => exact UInt32.le_refl 1

theorem Adapter.versioned (journaled : Bool) (adapter : Adapter) :
    (adapter.table journaled).store.Versioned := by
  cases adapter with
  | dog L => exact Table.versioned _ DogRecord.domain_plain (DogRecord.reads_sound L)
  | reminder L report => exact Table.versioned _ Reminder.domain_plain (Reminder.reads_sound L)
  | relation L report => exact Table.versioned _ Relation.domain_plain (Relation.reads_sound L)
  | memory L report => exact Table.versioned _ Memory.domain_plain (Memory.reads_sound L)
  | entity L report => exact Table.versioned _ Entity.domain_plain (Entity.reads_sound L)

theorem Write.storageFails_sound {w : Write} {k : Nat} {reply : w.Reply}
    (h : w.storageFails k = some reply) :
    w.Sound reply := by
  cases w with
  | updateField | applyTransaction | applyTurn => cases h
  | writeAtomic => trivial
  | _ =>
    cases h
    exact UInt32.le_refl 13

/-- Storage that fails is answered with a code as old as the writes. -/
theorem ConnectionStore.Versioned.faulty {τ : Type} {s : ConnectionStore τ} (h : s.Versioned) :
    s.faulty.Versioned := by
  refine ⟨fun r f => h.read r f.content, fun w f => ?_⟩
  show w.Sound (s.faultyWrite w f).1
  unfold faultyWrite
  split
  · split
    · next reply hFails => exact Write.storageFails_sound hFails
    · exact h.write w f.content
  · exact h.write w f.content

end MultimodalDb
