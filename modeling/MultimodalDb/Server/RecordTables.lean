import MultimodalDb.Server.Adapters

/-!
# Reminders and relations

The tables `reminder` and `relation`. Neither has an edge layer: a relation is a record of its own,
with the names of its subject and its object.
-/

namespace MultimodalDb

/-! ## Reminders -/

inductive ReminderStatus where
  | pending
  | done
  | snoozed
  | cancelled
  deriving DecidableEq

def statusToU32 : ReminderStatus → UInt32
  | .pending => 0
  | .done => 1
  | .snoozed => 2
  | .cancelled => 3

def statusFromU32 (value : UInt32) : Option ReminderStatus :=
  if value = 0 then
    some .pending
  else if value = 1 then
    some .done
  else if value = 2 then
    some .snoozed
  else if value = 3 then
    some .cancelled
  else
    none

theorem statusFromU32_statusToU32 (status : ReminderStatus) :
    statusFromU32 (statusToU32 status) = some status := by
  cases status <;> rfl

structure Reminder where
  id : RecordId
  title : String
  dueAtUnixMs : Int64
  status : ReminderStatus
  deriving DecidableEq

namespace Reminder

def FIELD_TITLE : FieldRef := 0

def FIELD_DUE_AT : FieldRef := 1

def FIELD_STATUS : FieldRef := 2

def fits (tag : FieldRef) : ScanValue → Bool
  | .str _ => tag = FIELD_TITLE
  | .i64 _ => tag = FIELD_DUE_AT
  | .u32 raw => tag = FIELD_STATUS && (statusFromU32 raw).isSome
  | _ => false

def build (id : RecordId) (slots : FieldRef → Option ScanValue) : Option Reminder := do
  let title ← (slots FIELD_TITLE).bind ScanValue.str?
  let dueAtUnixMs ← (slots FIELD_DUE_AT).bind ScanValue.i64?
  let raw ← (slots FIELD_STATUS).bind ScanValue.u32?
  let status ← statusFromU32 raw
  return ⟨id, title, dueAtUnixMs, status⟩

def reminderFromFields (id : RecordId) (fields : Fields) : Except ErrorCode Reminder :=
  recordFromFields (· ∈ [FIELD_TITLE, FIELD_DUE_AT, FIELD_STATUS]) fits (build id) fields

def fieldsOf (reminder : Reminder) : Fields :=
  [(FIELD_TITLE, .str reminder.title),
    (FIELD_DUE_AT, .i64 reminder.dueAtUnixMs),
    (FIELD_STATUS, .u32 (statusToU32 reminder.status))]

theorem id_of_build {id : RecordId} {slots : FieldRef → Option ScanValue} {reminder : Reminder}
    (h : build id slots = some reminder) : reminder.id = id := by
  revert reminder
  unfold build
  repeat apply forall_of_bind; intro _
  intro reminder h
  cases h
  rfl

/-- The value that a status is written with is checked to be one: it is given by the status itself.
-/
def domain : Domain Reminder ReminderStatus where
  id r := r.id
  fieldsOf := fieldsOf
  fromFields := reminderFromFields
  field := FIELD_STATUS
  ofScan value := value.u32?.bind statusFromU32
  valid _ := true
  set v r := { r with status := v }
  readOnly := [FIELD_TITLE, FIELD_DUE_AT]
  schema := {
    fields := [
      readOnlyField FIELD_TITLE "title" .str,
      ⟨FIELD_DUE_AT, "due_at_unix_ms", .i64, ⟨true, false, false⟩⟩,
      ⟨FIELD_STATUS, "status", .u32, ⟨false, true, true⟩⟩]
    relations := ⟨false, false⟩ }
  checkLabel _ := .error .unsupported
  foreign _ := false
  id_set _ _ := rfl
  set_set _ _ _ := rfl
  id_fromFields h := (build_of_recordFromFields h).elim fun _ hBuild => id_of_build hBuild
  valid_checkLabel := @Domain.valid_of_unsupported

end Reminder

/-! ## Relations -/

structure Relation where
  id : RecordId
  subject : String
  relation : String
  object : String
  createdAtUnixMs : Int64
  updatedAtUnixMs : Int64
  nodeId : String
  deletedAtUnixMs : Int64
  deriving DecidableEq

namespace Relation

def FIELD_SUBJECT : FieldRef := 0

def FIELD_RELATION : FieldRef := 1

def FIELD_OBJECT : FieldRef := 2

def FIELD_CREATED_AT : FieldRef := 3

def FIELD_UPDATED_AT : FieldRef := 4

def FIELD_NODE_ID : FieldRef := 5

def FIELD_DELETED_AT : FieldRef := 6

def READ_ONLY_FIELDS : List FieldRef :=
  [FIELD_SUBJECT, FIELD_RELATION, FIELD_OBJECT, FIELD_CREATED_AT, FIELD_NODE_ID, FIELD_DELETED_AT]

def fits (tag : FieldRef) : ScanValue → Bool
  | .str v =>
    (tag ∈ [FIELD_SUBJECT, FIELD_RELATION, FIELD_OBJECT] && !v.isEmpty) || tag = FIELD_NODE_ID
  | .i64 v => tag = FIELD_CREATED_AT || tag = FIELD_UPDATED_AT || (tag = FIELD_DELETED_AT && 0 ≤ v)
  | _ => false

def build (id : RecordId) (slots : FieldRef → Option ScanValue) : Option Relation := do
  let subject ← (slots FIELD_SUBJECT).bind ScanValue.str?
  let relation ← (slots FIELD_RELATION).bind ScanValue.str?
  let object ← (slots FIELD_OBJECT).bind ScanValue.str?
  let createdAtUnixMs ← (slots FIELD_CREATED_AT).bind ScanValue.i64?
  let updatedAtUnixMs ← (slots FIELD_UPDATED_AT).bind ScanValue.i64?
  let nodeId ← (slots FIELD_NODE_ID).bind ScanValue.str?
  let deletedAtUnixMs ← (slots FIELD_DELETED_AT).bind ScanValue.i64?
  return ⟨id, subject, relation, object, createdAtUnixMs, updatedAtUnixMs, nodeId, deletedAtUnixMs⟩

def relationFromFields (id : RecordId) (fields : Fields) : Except ErrorCode Relation :=
  recordFromFields (· ≤ FIELD_DELETED_AT) fits (build id) fields

def fieldsOf (relation : Relation) : Fields :=
  [(FIELD_SUBJECT, .str relation.subject),
    (FIELD_RELATION, .str relation.relation),
    (FIELD_OBJECT, .str relation.object),
    (FIELD_CREATED_AT, .i64 relation.createdAtUnixMs),
    (FIELD_UPDATED_AT, .i64 relation.updatedAtUnixMs),
    (FIELD_NODE_ID, .str relation.nodeId),
    (FIELD_DELETED_AT, .i64 relation.deletedAtUnixMs)]

theorem id_of_build {id : RecordId} {slots : FieldRef → Option ScanValue} {relation : Relation}
    (h : build id slots = some relation) : relation.id = id := by
  revert relation
  unfold build
  repeat apply forall_of_bind; intro _
  intro relation h
  cases h
  rfl

def domain : Domain Relation Int64 where
  id r := r.id
  fieldsOf := fieldsOf
  fromFields := relationFromFields
  field := FIELD_UPDATED_AT
  ofScan := ScanValue.i64?
  valid _ := true
  set v r := { r with updatedAtUnixMs := v }
  readOnly := READ_ONLY_FIELDS
  schema := {
    fields := [
      ⟨FIELD_SUBJECT, "subject", .str, ⟨true, false, false⟩⟩,
      readOnlyField FIELD_RELATION "relation" .str,
      readOnlyField FIELD_OBJECT "object" .str,
      readOnlyField FIELD_CREATED_AT "created_at_unix_ms" .i64,
      ⟨FIELD_UPDATED_AT, "updated_at_unix_ms", .i64, ⟨false, true, true⟩⟩,
      readOnlyField FIELD_NODE_ID "node_id" .str,
      readOnlyField FIELD_DELETED_AT "deleted_at_unix_ms" .i64]
    relations := ⟨false, false⟩ }
  checkLabel _ := .error .unsupported
  foreign _ := false
  id_set _ _ := rfl
  set_set _ _ _ := rfl
  id_fromFields h := (build_of_recordFromFields h).elim fun _ hBuild => id_of_build hBuild
  valid_checkLabel := @Domain.valid_of_unsupported

end Relation

end MultimodalDb
