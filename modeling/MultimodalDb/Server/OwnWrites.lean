import MultimodalDb.Server.Reads
import MultimodalDb.Server.ValidatedStages

/-!
# Reading one's own writes

A session that reads its own writes is shown a record with its staged writes laid over it. A commit
that is answered `Ok` leaves the record as it was shown. But a write that the commit would refuse
can be shown as well: the overlay looks at the kind of a staged value, and not at its range.

* `last_log`, `fieldsOf_written`: a batch of accepted writes leaves what the overlay shows.
* `vouched_iff`: when every value shown is a committed one or an accepted one.
* `own_writes`: in every session of every run.
-/

namespace MultimodalDb

open Program

/-! ## The last staged write -/

/-- The last staged write of a field of a record. -/
def lastStaged (staged : Batch) (id : RecordId) (field : FieldRef) : Option TransactionOp :=
  staged.reverse.find? fun op => op.id = id ∧ op.field = field

theorem lastStaged_cons (op : TransactionOp) (staged : Batch) (id : RecordId) (field : FieldRef) :
    lastStaged (op :: staged) id field =
      (lastStaged staged id field).or
        (if op.id = id ∧ op.field = field then some op else none) := by
  unfold lastStaged
  rw [List.reverse_cons, List.find?_append, List.find?_singleton]
  simp only [decide_eq_true_eq]

theorem lastStaged_some {staged : Batch} {id : RecordId} {field : FieldRef} {op : TransactionOp}
    (h : lastStaged staged id field = some op) : op ∈ staged ∧ op.id = id ∧ op.field = field := by
  have hFound := List.find?_some h
  rw [decide_eq_true_eq] at hFound
  exact ⟨List.mem_reverse.mp (List.mem_of_find?_eq_some h), hFound⟩

/-- A field of a record with a staged write laid over it. -/
def laidOver (op : Option TransactionOp) (field : FieldRef × ScanValue) : FieldRef × ScanValue :=
  match op with
  | some op => if sameKind op.value field.2 then (field.1, op.value) else field
  | none => field

/-- With one updatable field, the overlay lays the last staged write over it. -/
theorem overlayStaged_singleton (id : RecordId) (fields : Fields) (staged : Batch)
    (field : FieldRef) :
    overlayStaged id fields staged [field] =
      fields.map fun f => if f.1 = field then laidOver (lastStaged staged id field) f else f := by
  unfold overlayStaged
  apply List.map_congr_left
  rintro ⟨tag, value⟩ -
  simp only [List.mem_singleton]
  split
  · next hTag =>
    subst hTag
    rfl
  · rfl

/-! ## Domains with one updatable field -/

namespace Domain

variable {R V : Type} {D : Domain R V} {InRange : ScanValue → Prop}

/-- The field that a domain writes is its one updatable field, and a write of it changes the wire
shape there only. Its values are those of the kind that the field has which are in range. -/
structure Overlays (D : Domain R V) (InRange : ScanValue → Prop) : Prop where
  updatable : Tables.updatable D.schema = [D.field]
  current : ∀ r, ∃ x, (D.field, x) ∈ D.fieldsOf r
  single : ∀ r x y, (D.field, x) ∈ D.fieldsOf r → (D.field, y) ∈ D.fieldsOf r → x = y
  sets : ∀ r value v, D.ofScan value = some v →
    D.fieldsOf (D.set v r) = (D.fieldsOf r).map fun f => if f.1 = D.field then (f.1, value) else f
  takes : ∀ r x value, (D.field, x) ∈ D.fieldsOf r →
    ((∃ v, D.ofScan value = some v ∧ D.valid v = true) ↔ sameKind value x = true ∧ InRange value)
  other : ∀ r x value, (D.field, x) ∈ D.fieldsOf r → sameKind value x = false → InRange value

theorem checkWrite_ok {field : FieldRef} {value : ScanValue} {found : Bool} {v : V} :
    D.checkWrite field value found = .ok v ↔
      field = D.field ∧ D.ofScan value = some v ∧ D.valid v = true ∧ found = true := by
  unfold checkWrite
  split
  · next hField =>
    cases hScan : D.ofScan value with
    | none => simp
    | some u =>
      dsimp only
      cases hValid : D.valid u <;> cases found <;> simp [hField]
      · rintro rfl
        exact hValid
      · rintro rfl
        exact hValid
  · next hField =>
    split <;> simp [hField]

/-- **The last write decides**, in a batch of writes of the field as in the overlay. -/
theorem last_log {staged : Batch} (id : RecordId)
    (h : ∀ op ∈ staged, op.field = D.field ∧ (D.ofScan op.value).isSome = true) :
    FieldWrites.last (D.log staged) id = (lastStaged staged id D.field).bind fun op =>
      D.ofScan op.value := by
  induction staged with
  | nil => rfl
  | cons op staged ih =>
    rw [List.forall_mem_cons] at h
    obtain ⟨v, hScan⟩ := Option.isSome_iff_exists.mp h.1.2
    rw [D.log_cons, hScan, lastStaged_cons, FieldWrites.last_append, ih h.2]
    cases hLater : lastStaged staged id D.field with
    | none => by_cases hId : op.id = id <;> simp [FieldWrites.last, hId, h.1.1, hScan]
    | some later =>
      obtain ⟨u, hu⟩ := Option.isSome_iff_exists.mp (h.2 later (lastStaged_some hLater).1).2
      simp [hu]

/-- **A batch of accepted writes leaves what the overlay shows.** -/
theorem fieldsOf_written (hD : D.Overlays InRange) {s : Stack R} {staged : Batch} (id : RecordId)
    (h : ∀ op ∈ staged, ∃ v, D.checkWrite op.field op.value (s.rows op.id).isSome = .ok v) :
    D.get (D.written s (D.log staged)) id =
      (D.get s id).map fun fields =>
        overlayStaged id fields staged (Tables.updatable D.schema) := by
  have hScans : ∀ op ∈ staged, op.field = D.field ∧ ∃ v, D.ofScan op.value = some v ∧
      D.valid v = true := by
    intro op hMem
    obtain ⟨v, hCheck⟩ := h op hMem
    obtain ⟨hField, hScan, hValid, -⟩ := checkWrite_ok.mp hCheck
    exact ⟨hField, v, hScan, hValid⟩
  have hLast := last_log id fun op hMem => ⟨(hScans op hMem).1, by
    obtain ⟨v, hScan, -⟩ := (hScans op hMem).2
    rw [hScan]
    rfl⟩
  unfold get written
  dsimp only
  rw [FieldWrites.writes_apply D.set_set, hLast, Option.map_map, Option.map_map]
  congr 1
  funext r
  dsimp only [Function.comp_apply]
  rw [hD.updatable, overlayStaged_singleton]
  cases hOp : lastStaged staged id D.field with
  | none =>
    symm
    apply List.map_id''
    intro f
    exact ite_self f
  | some op =>
    obtain ⟨v, hScan, hValid⟩ := (hScans op (lastStaged_some hOp).1).2
    dsimp only [Option.bind_some]
    rw [hScan]
    dsimp only [Option.elim_some]
    rw [hD.sets r op.value v hScan]
    apply List.map_congr_left
    rintro ⟨tag, value⟩ hMem
    dsimp only
    split
    · next hTag =>
      subst hTag
      rw [laidOver, if_pos ((hD.takes r value op.value hMem).mp ⟨v, hScan, hValid⟩).1]
    · rfl

/-- A field is shown as it is committed, or as a staged write that the batch's validation accepts.
-/
def Vouched (D : Domain R V) (s : Stack R) (id : RecordId) (staged : Batch)
    (committed shown : FieldRef × ScanValue) :
    Prop :=
  shown = committed ∨ ∃ op ∈ staged, op.id = id ∧ shown = (committed.1, op.value) ∧
    op.field = committed.1 ∧ ∃ v, D.checkWrite op.field op.value (s.rows op.id).isSome = .ok v

/-- The last value that is staged for a record's field is in range, or it is the one that is
committed. -/
def KeepsRange (D : Domain R V) (InRange : ScanValue → Prop) (r : R) (id : RecordId)
    (staged : Batch) : Prop :=
  ∀ op, lastStaged staged id D.field = some op → (D.field, op.value) ∈ D.fieldsOf r ∨
    InRange op.value

/-- **What is shown is committed or accepted** exactly when the last value that is staged keeps to
the range. -/
theorem vouched_iff (hD : D.Overlays InRange) {s : Stack R} {id : RecordId} {r : R}
    (hRow : s.rows id = some r) (staged : Batch) :
    List.Forall₂ (D.Vouched s id staged) (D.fieldsOf r)
        (overlayStaged id (D.fieldsOf r) staged (Tables.updatable D.schema)) ↔
      D.KeepsRange InRange r id staged := by
  rw [hD.updatable, overlayStaged_singleton, List.forall₂_map_right_iff, List.forall₂_same]
  constructor
  · intro hVouched op hOp
    obtain ⟨x, hCurrent⟩ := hD.current r
    have hShown := hVouched _ hCurrent
    rw [if_pos rfl, hOp, laidOver] at hShown
    cases hKind : sameKind op.value x with
    | false => exact Or.inr (hD.other r x op.value hCurrent hKind)
    | true =>
      rw [if_pos hKind] at hShown
      rcases hShown with hSame | ⟨op', -, -, hValue, -, v, hCheck⟩
      · rw [hSame]
        exact Or.inl hCurrent
      · obtain ⟨-, hScan, hValid, -⟩ := checkWrite_ok.mp hCheck
        rw [(Prod.mk.inj hValue).2]
        exact Or.inr ((hD.takes r x op'.value hCurrent).mp ⟨v, hScan, hValid⟩).2
  · rintro hRange ⟨tag, value⟩ hMem
    dsimp only
    split
    · next hTag =>
      subst hTag
      cases hOp : lastStaged staged id D.field with
      | none => exact Or.inl rfl
      | some op =>
        rw [laidOver]
        split
        · next hKind =>
          rcases hRange op hOp with hSame | hIn
          · rw [hD.single r _ _ hSame hMem]
            exact Or.inl rfl
          · obtain ⟨hStaged, hId, hField⟩ := lastStaged_some hOp
            obtain ⟨v, hScan, hValid⟩ := (hD.takes r value op.value hMem).mpr ⟨hKind, hIn⟩
            refine Or.inr ⟨op, hStaged, hId, rfl, hField, v,
              checkWrite_ok.mpr ⟨hField, hScan, hValid, ?_⟩⟩
            rw [hId, hRow]
            rfl
        · exact Or.inl rfl
    · exact Or.inl rfl

end Domain

/-! ## The adapters with sessions -/

/-- The values that an age can be: all of them. -/
def DogRecord.InRange (_ : ScanValue) : Prop := True

/-- A counter is not negative. -/
def Memory.InRange : ScanValue → Prop
  | .i64 count => 0 ≤ count
  | _ => True

/-- The four statuses there are. -/
def Reminder.InRange : ScanValue → Prop
  | .u32 raw => raw ≤ 3
  | _ => True

/-- The tables that a session can be on, with the values that are in range for their field. -/
inductive SessionTable : Table → (ScanValue → Prop) → Prop
  | dog (journaled index) : SessionTable (DogRecord.table journaled index) DogRecord.InRange
  | memory (journaled index report) :
      SessionTable (Memory.table journaled index report) Memory.InRange
  | reminder (journaled index report) :
      SessionTable (Reminder.table journaled index report) Reminder.InRange

theorem DogRecord.overlays : DogRecord.domain.Overlays DogRecord.InRange where
  updatable := rfl
  current r := ⟨.u32 r.age, List.mem_cons_of_mem _ List.mem_cons_self⟩
  single r x y hx hy := by
    simp [domain, FIELD_BREED, FIELD_AGE] at hx hy
    rw [hx, hy]
  sets r value v hScan := by
    cases value <;> cases hScan
    rfl
  takes r x value hMem := by
    simp [domain, FIELD_BREED, FIELD_AGE] at hMem
    subst hMem
    cases value <;> simp [domain, ScanValue.u32?, sameKind, InRange]
  other _ _ _ _ _ := trivial

theorem Memory.overlays : Memory.domain.Overlays Memory.InRange where
  updatable := rfl
  current r := ⟨.i64 r.accessCount, by simp [domain, fieldsOf]⟩
  single r x y hx hy := by
    simp [domain, fieldsOf, FIELD_CONTENT, FIELD_CATEGORY, FIELD_TAGS, FIELD_SOURCE,
      FIELD_METADATA_JSON,
      FIELD_CREATED_AT, FIELD_UPDATED_AT, FIELD_MEMORY_TYPE, FIELD_STATUS, FIELD_SENSITIVE,
      FIELD_ACCESS_COUNT, FIELD_DELETED_AT, FIELD_NODE_ID] at hx hy
    rw [hx, hy]
  sets r value v hScan := by
    cases value <;> cases hScan
    rfl
  takes r x value hMem := by
    simp [domain, fieldsOf, FIELD_CONTENT, FIELD_CATEGORY, FIELD_TAGS, FIELD_SOURCE,
      FIELD_METADATA_JSON,
      FIELD_CREATED_AT, FIELD_UPDATED_AT, FIELD_MEMORY_TYPE, FIELD_STATUS, FIELD_SENSITIVE,
      FIELD_ACCESS_COUNT, FIELD_DELETED_AT, FIELD_NODE_ID] at hMem
    subst hMem
    cases value <;> simp [domain, ScanValue.i64?, sameKind, InRange, validAccessCount]
  other r x value hMem hKind := by
    simp [domain, fieldsOf, FIELD_CONTENT, FIELD_CATEGORY, FIELD_TAGS, FIELD_SOURCE,
      FIELD_METADATA_JSON,
      FIELD_CREATED_AT, FIELD_UPDATED_AT, FIELD_MEMORY_TYPE, FIELD_STATUS, FIELD_SENSITIVE,
      FIELD_ACCESS_COUNT, FIELD_DELETED_AT, FIELD_NODE_ID] at hMem
    subst hMem
    cases value with
    | i64 count => cases hKind
    | _ => trivial

theorem statusFromU32_eq_some {raw : UInt32} {status : ReminderStatus} :
    statusFromU32 raw = some status ↔ raw = statusToU32 status := by
  constructor
  · intro h
    unfold statusFromU32 at h
    repeat' split at h
    all_goals grind [statusToU32]
  · rintro rfl
    exact statusFromU32_statusToU32 status

theorem statusFromU32_isSome {raw : UInt32} :
    (∃ status, statusFromU32 raw = some status) ↔ raw ≤ 3 := by
  rw [UInt32.le_iff_toNat_le]
  constructor
  · rintro ⟨status, h⟩
    rw [statusFromU32_eq_some] at h
    subst h
    cases status <;> decide
  · intro hRaw
    have hCases : raw = 0 ∨ raw = 1 ∨ raw = 2 ∨ raw = 3 := by
      simp only [← UInt32.toNat_inj]
      change _ ≤ 3 at hRaw
      change _ = 0 ∨ _ = 1 ∨ _ = 2 ∨ _ = 3
      omega
    rcases hCases with rfl | rfl | rfl | rfl
    · exact ⟨.pending, rfl⟩
    · exact ⟨.done, rfl⟩
    · exact ⟨.snoozed, rfl⟩
    · exact ⟨.cancelled, rfl⟩

theorem Reminder.overlays : Reminder.domain.Overlays Reminder.InRange where
  updatable := rfl
  current r := ⟨.u32 (statusToU32 r.status), by simp [domain, fieldsOf]⟩
  single r x y hx hy := by
    simp [domain, fieldsOf, FIELD_TITLE, FIELD_DUE_AT, FIELD_STATUS] at hx hy
    rw [hx, hy]
  sets r value v hScan := by
    cases value with
    | u32 raw =>
      obtain rfl := statusFromU32_eq_some.mp hScan
      rfl
    | _ => cases hScan
  takes r x value hMem := by
    simp [domain, fieldsOf, FIELD_TITLE, FIELD_DUE_AT, FIELD_STATUS] at hMem
    subst hMem
    cases value <;> simp [domain, ScanValue.u32?, sameKind, InRange, statusFromU32_isSome]
  other r x value hMem hKind := by
    simp [domain, fieldsOf, FIELD_TITLE, FIELD_DUE_AT, FIELD_STATUS] at hMem
    subst hMem
    cases value with
    | u32 raw => cases hKind
    | _ => trivial

theorem SessionTable.overlays {t : Table} {InRange : ScanValue → Prop}
    (h : SessionTable t InRange) :
    t.domain.Overlays InRange := by
  cases h with
  | dog => exact DogRecord.overlays
  | memory => exact Memory.overlays
  | reminder => exact Reminder.overlays

/-! ## A batch that is committed -/

namespace Domain

variable {R V : Type} {D : Domain R V}

theorem accepted_of_validateBatch {found : RecordId → Bool} {i : Nat} {ops : Batch}
    (h : D.validateBatch found i ops = .ok ()) :
    ∀ op ∈ ops, ∃ v, D.checkWrite op.field op.value (found op.id) = .ok v := by
  induction ops generalizing i with
  | nil => exact nofun
  | cons op ops ih =>
    rw [validateBatch] at h
    split at h
    · cases h
    · next v hCheck => exact List.forall_mem_cons.mpr ⟨⟨v, hCheck⟩, ih h⟩

theorem written_of_applyBatch {i : Nat} {ops : Batch} {s : Stack R}
    (h : (D.applyBatch i ops s).1 = .ok ()) :
    (D.applyBatch i ops s).2 = D.written s (D.log ops) := by
  rw [D.applyBatch_of_reaches i ((D.applyBatch_ok i ops s).mp h)]

theorem written_of_takeTurn {c : Txn} {s : Stack R} (h : (D.takeTurn c s).1 = .ok ()) :
    (D.takeTurn c s).2 = D.written s (D.log c.updates) := by
  unfold takeTurn at h ⊢
  split at h
  · cases h
  · exact written_of_applyBatch h

theorem written_of_applyTransaction {c : Txn} {s : Stack R}
    (h : (D.applyTransaction c s).1 = .ok ()) :
    (∀ op ∈ c.updates, ∃ v, D.checkWrite op.field op.value (s.rows op.id).isSome = .ok v) ∧
      (D.applyTransaction c s).2 = D.written s (D.log c.updates) := by
  unfold applyTransaction at h ⊢
  split at h
  · cases h
  · next hValid =>
    refine ⟨accepted_of_validateBatch hValid, ?_⟩
    split at h
    · cases h
    · exact written_of_applyBatch h

end Domain

/-! ## Requests of a session -/

namespace Catalog

variable {n : Nat} (C : Catalog n) (options : ServeOptions) (throttled taken : Bool)

/-- A request served with no other connection in between. -/
def serves (c : Conn n) (req : Request) (w : Contents C.Content) : Served n × Contents C.Content :=
  run (C.tables.answer taken) (C.tables.handle options throttled c req) w

variable {C} {w : Contents C.Content}

@[simp] theorem run_read (i : Fin n) (r : Read) :
    run (C.tables.answer taken) (Tables.read i r) w = ((C.table i).read r (w i), w) := rfl

theorem run_validateBatch (i : Fin n) (k : Nat) (ops : Batch) :
    run (C.tables.answer taken) (Tables.validateBatch i k ops) w =
      ((C.table i).domain.validateBatch (fun id => ((w i).rows id).isSome) k ops, w) := by
  induction ops generalizing k with
  | nil => rfl
  | cons op ops ih =>
    rw [Tables.validateBatch, run_bind, run_read, Domain.validateBatch, Table.read]
    dsimp only
    cases (C.table i).domain.checkWrite op.field op.value ((w i).rows op.id).isSome with
    | error code => rfl
    | ok v => exact ih (k + 1)

/-- **A transaction that is answered `Ok`.** Its writes were accepted, and they are made. -/
theorem run_applyTransaction {i : Fin n} {batch : Batch} {reads : List TrackedRead}
    (h : (run (C.tables.answer taken) (C.tables.applyTransaction i batch reads) w).1 = .ok ()) :
    (∀ op ∈ batch, (C.table i).Accepts (w i) op) ∧
      (run (C.tables.answer taken) (C.tables.applyTransaction i batch reads) w).2 =
        Function.update w i ((C.table i).domain.written (w i) ((C.table i).domain.log batch)) := by
  unfold Tables.applyTransaction at h ⊢
  split at h
  · next hJournaled =>
    rw [if_pos hJournaled]
    rw [run_bind, run_validateBatch] at h ⊢
    dsimp only at h ⊢
    split at h
    · cases h
    · next hValid =>
      cases taken with
      | false => cases h
      | true =>
        refine ⟨Domain.accepted_of_validateBatch hValid, ?_⟩
        exact congrArg (Function.update w i) (Domain.written_of_takeTurn h)
  · next hPlain =>
    rw [if_neg hPlain]
    have hWritten :=
      Domain.written_of_applyTransaction (D := (C.table i).domain) (c := ⟨batch, reads⟩) h
    exact ⟨hWritten.1, congrArg (Function.update w i) hWritten.2⟩

/-- What a read of a record by its id shows on a connection. -/
def answerTo (c : Conn n) (id : RecordId) (fields : Option Fields) : Response :=
  downgradeForVersion (fields.elim .notFound (.record id)) c.negotiated

/-- A connection that is still what it was to a session. -/
structure Alike (c c' : Conn n) : Prop where
  authenticated : c'.authenticated = c.authenticated
  negotiated : c'.negotiated = c.negotiated
  table : c'.table = c.table

theorem serves_getById_inside {c : Conn n} {staged : Batch} {updatable : List FieldRef}
    (id : RecordId) (hAuth : c.authenticated.isSome = true) (hSession : c.session = some staged)
    (hOwn : c.readYourWrites = some updatable) :
    ∃ c', C.serves options throttled taken c (.getById id) w =
        (⟨c', answerTo c id (((C.table c.table).domain.get (w c.table) id).map fun fields =>
          overlayStaged id fields staged updatable), false⟩, w) ∧
      Alike c c' ∧ c'.session = some staged := by
  obtain ⟨cls, hAuth⟩ := Option.isSome_iff_exists.mp hAuth
  unfold serves Tables.handle
  dsimp only
  rw [hAuth]
  dsimp only
  rw [if_neg (by simp [Tables.isWrite])]
  unfold Tables.request
  dsimp only
  rw [hSession]
  dsimp only
  rw [if_pos (by rw [hOwn]; rfl), Tables.getInSession, run_bind, run_bind, run_read]
  dsimp only [Table.read]
  cases (C.table c.table).domain.get (w c.table) id with
  | none => exact ⟨_, rfl, ⟨hAuth.symm, rfl, rfl⟩, rfl⟩
  | some fields =>
    dsimp only
    rw [hOwn]
    exact ⟨_, rfl, ⟨hAuth.symm, rfl, rfl⟩, rfl⟩

theorem serves_getById_outside {c : Conn n} (id : RecordId) (hAuth : c.authenticated.isSome = true)
    (hClosed : c.session = none) :
    (C.serves options throttled taken c (.getById id) w).1.response =
      answerTo c id ((C.table c.table).domain.get (w c.table) id) := by
  obtain ⟨cls, hAuth⟩ := Option.isSome_iff_exists.mp hAuth
  unfold serves Tables.handle
  dsimp only
  rw [hAuth]
  dsimp only
  rw [if_neg (by simp [Tables.isWrite])]
  unfold Tables.request
  dsimp only
  rw [hClosed]
  dsimp only
  unfold Tables.dispatch
  rw [run_bind, run_bind, run_bind, run_read]
  dsimp only [Table.read]
  cases (C.table c.table).domain.get (w c.table) id <;> rfl

/-- **A commit that is answered `Ok`.** -/
theorem serves_commit {c : Conn n} {staged : Batch} (hAuth : c.authenticated.isSome = true)
    (hSession : c.session = some staged)
    (hOk : (C.serves options throttled taken c .commit w).1.response = .ok) :
    ∃ c', C.serves options throttled taken c .commit w = (⟨c', .ok, false⟩,
        Function.update w c.table
          ((C.table c.table).domain.written (w c.table) ((C.table c.table).domain.log staged))) ∧
      Alike c c' ∧ c'.session = none ∧ ∀ op ∈ staged, (C.table c.table).Accepts (w c.table) op := by
  obtain ⟨cls, hAuth⟩ := Option.isSome_iff_exists.mp hAuth
  unfold serves Tables.handle at hOk ⊢
  dsimp only at hOk ⊢
  rw [hAuth] at hOk ⊢
  dsimp only at hOk ⊢
  split at hOk
  · cases hOk
  · next hGate =>
    rw [if_neg hGate]
    unfold Tables.request at hOk ⊢
    dsimp only at hOk ⊢
    split at hOk
    · rw [run_bind] at hOk
      have hRefused := (Tables.downgrade_eq_ok (errResponse .malformed) c.negotiated).mp hOk
      cases hRefused
    · next hVersion =>
      rw [if_neg hVersion]
      unfold Tables.commit at hOk ⊢
      dsimp only at hOk ⊢
      rw [hSession] at hOk ⊢
      dsimp only at hOk ⊢
      rw [run_bind, run_bind] at hOk ⊢
      cases hReply : (run (C.tables.answer taken) (C.tables.applyTransaction c.table staged
          (c.snapshotReads.elim [] trackedReads)) w).1 with
      | error e =>
        rw [hReply] at hOk
        have hFailed := (Tables.downgrade_eq_ok (transactionFailed e) c.negotiated).mp hOk
        cases hFailed
      | ok u =>
        obtain ⟨hAccepted, hWorld⟩ := run_applyTransaction taken hReply
        rw [hWorld]
        exact ⟨_, rfl, ⟨hAuth.symm, rfl, rfl⟩, rfl, hAccepted⟩

end Catalog

/-! ## The overlay of a run -/

namespace Tables

variable {n : Nat} {σ : Fin n → Type} {T : Tables n σ} {options : ServeOptions}

/-- What a session overlays are the updatable fields of its table. -/
def Overlaying (T : Tables n σ) (c : Conn n) : Prop :=
  ∀ fields, c.readYourWrites = some fields → fields = updatable (T.store c.table).describe

theorem request_overlays {c : Conn n} (hTidy : Tidy c) (h : T.Overlaying c) (req : Request) :
    (T.request c req).Meets (fun _ => True) fun r => T.Overlaying r.1 := by
  have hKeep (p : Serving n Response) :
      (do return (c, ← p)).Meets (fun _ => True) fun r : Conn n × Response => T.Overlaying r.1 :=
    p.meets_true.bind fun _ _ => h
  cases req with
  | begin =>
    unfold request
    dsimp only
    split
    · exact h
    · change T.Overlaying (begin c).1
      unfold begin
      split
      · exact h
      · exact nofun
  | beginWith flags =>
    unfold request
    dsimp only
    split
    · exact h
    · change T.Overlaying (T.beginWith c flags).1
      unfold beginWith
      split
      · exact h
      · split
        · exact h
        · intro fields hOwn
          dsimp only at hOwn ⊢
          split at hOwn
          · exact (Option.some.inj hOwn).symm
          · cases hOwn
  | commit =>
    unfold request
    dsimp only
    split
    · exact h
    · unfold commit
      split
      · exact nofun
      · refine (meets_true _).bind fun reply _ => ?_
        cases reply <;> exact nofun
  | rollback =>
    unfold request
    dsimp only
    split
    · exact h
    · exact nofun
  | getById id =>
    unfold request
    dsimp only
    split
    · split
      · refine ⟨trivial, fun reply => ?_⟩
        cases reply <;> exact h
      · exact hKeep _
    · exact hKeep _
  | updateField id field value =>
    unfold request
    dsimp only
    split
    · next staged hStaged =>
      have hPushed : T.Overlaying (pushStaged c staged ⟨id, field, value⟩).1 := by
        unfold pushStaged
        split <;> exact h
      unfold stage
      split
      · refine ⟨trivial, fun reply => ?_⟩
        cases reply with
        | error code => exact h
        | ok _ => exact hPushed
      · exact hPushed
    · exact hKeep _
  | use name =>
    unfold request
    dsimp only
    split
    · exact h
    · split
      · exact h
      · next hClosed =>
        split
        · -- Another table is used with no session open, so nothing is overlaid.
          intro fields hOwn
          exact absurd (hTidy.readYourWrites (Option.isSome_of_eq_some hOwn)) hClosed
        · exact h
  | transaction | insert | link | replace | delete | compact | replaceIf | writeBatch | join
  | describeRelations | page | countEdges | listTables | filterEq | scanField | parent | children
  | neighbors | describeSchema | authenticate | hello | query | aggregate | neighborsByRelation
  | listRelationKinds => exact hKeep _

theorem handle_overlays (throttled : Bool) {c : Conn n} (hTidy : Tidy c) (h : T.Overlaying c)
    (req : Request) :
    (T.handle options throttled c req).Meets (fun _ => True) fun served =>
      T.Overlaying served.conn := by
  unfold handle
  split
  · next v =>
    change T.Overlaying (hello c v).1
    unfold hello
    split <;> exact h
  · next token =>
    change T.Overlaying (authenticate options throttled _ token).1
    unfold authenticate
    split
    · exact h
    · split
      · exact h
      · split <;> exact h
  · dsimp only
    split
    · exact h
    · split
      · exact h
      · exact (request_overlays hTidy.withFirstFrame h req).bind fun _ hAfter => hAfter

/-- What is known of the connection behind a thread. -/
def OwnShown (T : Tables n σ) : Worker n → Prop
  | .idle c => Tidy c ∧ T.Overlaying c
  | .serving _ _ program =>
    program.Meets (fun _ => True) fun served => Tidy served.conn ∧ T.Overlaying served.conn
  | .absent | .closed => True

theorem ownShown_of_reaches {s : Server σ} (h : T.Reaches options s) (k : Nat) :
    T.OwnShown (s.peers k).worker := by
  refine peer_invariant (P := fun peer => T.OwnShown peer.worker) trivial ?_ h k
  intro w peer peer' w' hMoves hShown
  cases hMoves with
  | accept certificate => exact ⟨⟨nofun, nofun, nofun, nofun, nofun, nofun⟩, nofun⟩
  | receive req throttled =>
    exact (T.handle_after options throttled hShown.1 req).and
      (handle_overlays throttled hShown.1 hShown.2 req)
      (fun _ _ _ => trivial) fun _ hAfter hOwn => ⟨hAfter.tidy, hOwn⟩
  | call taken here next => exact hShown.2 _
  | respond served hOpen => exact hShown
  | close | hangUp => trivial

end Tables

namespace Catalog

variable {n : Nat} (C : Catalog n) (options : ServeOptions) (throttled taken : Bool)

/-- A record with what is staged for it. -/
def shownInside (c : Conn n) (staged : Batch) (w : Contents C.Content) (id : RecordId) :
    Option Fields :=
  ((C.table c.table).domain.get (w c.table) id).map fun fields =>
    overlayStaged id fields staged (Tables.updatable (C.table c.table).domain.schema)

/-- What a read of a record owes to the commit of its session. -/
structure ReadsOwn (c : Conn n) (staged : Batch) (w : Contents C.Content)
    (id : RecordId) : Prop where
  answered : (C.serves options throttled taken c (.getById id) w).1.response =
    answerTo c id (C.shownInside c staged w id)
  /-- A commit that is answered `Ok` leaves what was shown, and the next read shows it. -/
  installed : ∀ inside w' committed w'', C.serves options throttled taken c (.getById id) w =
    (inside, w') →
    C.serves options throttled taken inside.conn .commit w' = (committed, w'') →
    committed.response = .ok →
    (C.table c.table).domain.get (w'' c.table) id = C.shownInside c staged w id ∧
      (C.serves options throttled taken committed.conn (.getById id) w'').1.response =
        inside.response
  /-- No value is shown but one that is committed or that a commit accepts. -/
  vouched : ∀ r, (w c.table).rows id = some r →
    List.Forall₂ ((C.table c.table).domain.Vouched (w c.table) id staged)
      ((C.table c.table).domain.fieldsOf r)
      (overlayStaged id ((C.table c.table).domain.fieldsOf r) staged
        (Tables.updatable (C.table c.table).domain.schema))

variable {C} {options throttled taken}

/-- **Commits.** Whatever is staged, a read shows what a commit that is answered `Ok` leaves. -/
theorem installed_of_ok {c : Conn n} {staged : Batch} {InRange : ScanValue → Prop}
    {w : Contents C.Content}
    (hAuth : c.authenticated.isSome = true) (hSession : c.session = some staged)
    (hOwn : c.readYourWrites = some (Tables.updatable (C.table c.table).domain.schema))
    (hTable : (C.table c.table).domain.Overlays InRange) (id : RecordId)
    {inside committed : Served n}
    {w' w'' : Contents C.Content}
    (hInside : C.serves options throttled taken c (.getById id) w = (inside, w'))
    (hCommit : C.serves options throttled taken inside.conn .commit w' = (committed, w''))
    (hOk : committed.response = .ok) :
    (C.table c.table).domain.get (w'' c.table) id = C.shownInside c staged w id ∧
      (C.serves options throttled taken committed.conn (.getById id) w'').1.response =
        inside.response := by
  obtain ⟨c', hRead, hAlike, hSession'⟩ :=
    serves_getById_inside options throttled taken (w := w) id hAuth hSession hOwn
  obtain ⟨rfl, rfl⟩ := Prod.mk.inj (hRead.symm.trans hInside)
  dsimp only at hCommit ⊢
  have hAuth' : c'.authenticated.isSome = true := by
    rw [hAlike.authenticated]
    exact hAuth
  obtain ⟨c'', hCommitted, hAlike', hClosed, hAccepted⟩ :=
    serves_commit options throttled taken (w := w) hAuth' hSession' (by rw [hCommit]; exact hOk)
  obtain ⟨rfl, rfl⟩ := Prod.mk.inj (hCommitted.symm.trans hCommit)
  rw [hAlike.table] at hAccepted ⊢
  have hGet : (C.table c.table).domain.get (Function.update w c.table
      ((C.table c.table).domain.written (w c.table) ((C.table c.table).domain.log staged)) c.table)
        id = C.shownInside c staged w id := by
    rw [Function.update_self]
    exact Domain.fieldsOf_written hTable id hAccepted
  refine ⟨hGet, ?_⟩
  rw [serves_getById_outside options throttled taken id
    (by rw [hAlike'.authenticated]; exact hAuth') hClosed]
  unfold answerTo
  rw [hAlike'.table, hAlike.table, hAlike'.negotiated, hAlike.negotiated, hGet]
  rfl

/-- **Own writes.** In every session of every run that reads its own writes, on a table with
sessions, with no other connection in between: what a read shows is what a commit that is answered
`Ok` leaves; and it is committed or accepted, exactly when the last value that is staged for the
record's field is in range or the committed one. -/
theorem own_writes (C : Catalog n) (options : ServeOptions) {s : Server C.Content}
    (hReach : C.tables.Reaches options s)
    (k : Nat) {c : Conn n} (hIdle : (s.peers k).worker = .idle c) {staged : Batch}
    (hSession : c.session = some staged)
    (hOwn : c.readYourWrites.isSome = true) {InRange : ScanValue → Prop}
    (hTable : SessionTable (C.table c.table) InRange) (throttled taken : Bool) (id : RecordId) :
    C.ReadsOwn options throttled taken c staged s.world id ↔
      ∀ r, (s.world c.table).rows id = some r →
        (C.table c.table).domain.KeepsRange InRange r id staged := by
  have hShown := Tables.ownShown_of_reaches hReach k
  rw [hIdle] at hShown
  obtain ⟨hTidy, hOverlaying⟩ := hShown
  have hAuth := (hTidy.settled (Option.isSome_of_eq_some hSession)).2
  have hOwn : c.readYourWrites = some (Tables.updatable (C.table c.table).domain.schema) := by
    obtain ⟨fields, hFields⟩ := Option.isSome_iff_exists.mp hOwn
    rw [hFields, hOverlaying fields hFields]
    rfl
  constructor
  · intro hReads r hRow
    exact (Domain.vouched_iff hTable.overlays hRow staged).mp (hReads.vouched r hRow)
  · intro hRange
    refine ⟨?_, ?_, fun r hRow =>
      (Domain.vouched_iff hTable.overlays hRow staged).mpr (hRange r hRow)⟩
    · obtain ⟨c', hRead, -⟩ :=
        serves_getById_inside options throttled taken (w := s.world) id hAuth hSession hOwn
      rw [hRead]
      rfl
    · intro inside w' committed w'' hInside hCommit hOk
      exact installed_of_ok hAuth hSession hOwn hTable.overlays id hInside hCommit hOk

end Catalog

/-! ## A count that no commit accepts -/

/-- A session that reads its own writes stages a count. -/
def stagesCount (count : Int64) : List (Nat × ConnEvent) :=
  [(0, .accept none), (0, .receive (.hello 22) false), (0, .respond true),
    (0, .receive (.beginWith SESSION_READ_YOUR_WRITES) false), (0, .respond true),
    (0, .receive (.updateField (Uuid.ofNat 1) Memory.FIELD_ACCESS_COUNT (.i64 count)) false),
      (0, .respond true)]

/-- The session has staged the count, and its record has another. -/
def stagedAnother (count : Int64) (s : Server (memoryServer false).Content) : Bool :=
  match (s.peers 0).worker with
  | .idle c =>
    c.session = some [⟨Uuid.ofNat 1, Memory.FIELD_ACCESS_COUNT, .i64 count⟩] &&
      c.readYourWrites.isSome && c.table = (memoryServer false).primary &&
      ((s.world (memoryServer false).primary : Stack Memory).rows (Uuid.ofNat 1)).any fun r =>
        r.accessCount ≠ count
  | _ => false

/-- A negative count is shown. -/
theorem shows_refused_count :
    ¬ ∀ (options : ServeOptions) (s : Server (memoryServer false).Content) (k : Nat)
    (c : Conn 2) (staged : Batch) (throttled taken : Bool) (id : RecordId),
    (memoryServer false).tables.Reaches options s → (s.peers k).worker = .idle c →
      c.session = some staged → c.readYourWrites.isSome = true → c.table = 0 →
        (memoryServer false).ReadsOwn options throttled taken c staged s.world id := by
  intro hClaim
  have hRun : (Machine.run ((memoryServer false).tables.step ⟨none, none, []⟩)
      (Tables.started (memoryWorld false)) (stagesCount (-5))).any (stagedAnother (-5)) = true := by
        decide +kernel
  obtain ⟨s, hRun, hStaged⟩ := (Option.any_eq_true _ _).mp hRun
  unfold stagedAnother at hStaged
  split at hStaged
  · next c hIdle =>
    simp only [Bool.and_eq_true, decide_eq_true_eq] at hStaged
    obtain ⟨⟨⟨hSession, hOwn⟩, hTable⟩, hRow⟩ := hStaged
    have hReads := hClaim _ s 0 c _ false true (Uuid.ofNat 1) ⟨_, Machine.runs_of_run hRun⟩ hIdle
      hSession hOwn hTable
    obtain ⟨_, _, _, table, _, _, _, _, _⟩ := c
    cases hTable
    obtain ⟨r, hRow, hOther⟩ := (Option.any_eq_true _ _).mp hRow
    rw [decide_eq_true_eq] at hOther
    have hKept := (Domain.vouched_iff Memory.overlays hRow _).mp (hReads.vouched r hRow)
    rcases hKept ⟨Uuid.ofNat 1, Memory.FIELD_ACCESS_COUNT, .i64 (-5)⟩ rfl with hSame | hIn
    · exact hOther (ScanValue.i64.inj
        (Memory.overlays.single r _ _ (by simp [Memory.domain, Memory.fieldsOf]) hSame))
    · exact absurd hIn (by decide : ¬ (0 : Int64) ≤ -5)
  · cases hStaged

/-- A count that is not negative is shown, and it can be committed. -/
theorem own_writes_sample : ∃ s c, Machine.run ((memoryServer false).tables.step ⟨none, none, []⟩)
      (Tables.started (memoryWorld false)) (stagesCount 5) = some s ∧ (s.peers 0).worker = .idle c ∧
    (memoryServer false).ReadsOwn ⟨none, none, []⟩ false true c
      [⟨Uuid.ofNat 1, Memory.FIELD_ACCESS_COUNT, .i64 5⟩] s.world (Uuid.ofNat 1) := by
  have hRun : (Machine.run ((memoryServer false).tables.step ⟨none, none, []⟩)
      (Tables.started (memoryWorld false)) (stagesCount 5)).any (stagedAnother 5) = true := by
        decide +kernel
  obtain ⟨s, hRun, hStaged⟩ := (Option.any_eq_true _ _).mp hRun
  unfold stagedAnother at hStaged
  split at hStaged
  · next c hIdle =>
    simp only [Bool.and_eq_true, decide_eq_true_eq] at hStaged
    obtain ⟨⟨⟨hSession, hOwn⟩, hTable⟩, -⟩ := hStaged
    have hMemory : SessionTable ((memoryServer false).table c.table) Memory.InRange := by
      rw [hTable]
      exact .memory ..
    refine ⟨s, c, hRun, hIdle,
      (Catalog.own_writes (memoryServer false) _ ⟨_, Machine.runs_of_run hRun⟩ 0 hIdle hSession
      hOwn hMemory false true (Uuid.ofNat 1)).mpr ?_⟩
    intro r hRow op hOp
    obtain ⟨_, _, _, table, _, _, _, _, _⟩ := c
    cases hTable
    cases hOp
    exact Or.inr (by decide : (0 : Int64) ≤ 5)
  · cases hStaged

end MultimodalDb
