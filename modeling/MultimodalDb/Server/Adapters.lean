import MultimodalDb.Durability.CanonicalCached
import MultimodalDb.Server.Domain

/-!
# The domains

The tables `dog`, `memory` and `entity`: their records, their wire shapes, and what each adds to the
methods they share. A dog's breed and its litter are fixed when its table is created: the adapter
refuses to insert, replace, delete or link.
-/

namespace MultimodalDb

/-! ## Field lists -/

/-- The loop over the fields of a new record: each field at most once, with a value that fits it. -/
def collectFields (known : FieldRef → Bool) (fits : FieldRef → ScanValue → Bool) :
    Fields → (FieldRef → Option ScanValue) → Except ErrorCode (FieldRef → Option ScanValue)
  | [], slots => .ok slots
  | (tag, value) :: rest, slots =>
    if fits tag value && (slots tag).isNone then
      collectFields known fits rest (Function.update slots tag (some value))
    else if known tag then
      .error .malformed
    else
      .error .unknownField

/-- A record from its whole field list. A field that is missing makes the list malformed. -/
def recordFromFields {R : Type} (known : FieldRef → Bool) (fits : FieldRef → ScanValue → Bool)
    (build : (FieldRef → Option ScanValue) → Option R) (fields : Fields) : Except ErrorCode R :=
  match collectFields known fits fields fun _ => none with
  | .error code => .error code
  | .ok slots =>
    match build slots with
    | none => .error .malformed
    | some r => .ok r

theorem build_of_recordFromFields {R : Type} {known : FieldRef → Bool}
    {fits : FieldRef → ScanValue → Bool} {build : (FieldRef → Option ScanValue) → Option R}
    {fields : Fields} {r : R} (h : recordFromFields known fits build fields = .ok r) :
    ∃ slots, build slots = some r := by
  unfold recordFromFields at h
  split at h
  · cases h
  · next slots _ =>
    split at h
    · cases h
    · next hBuild =>
      cases h
      exact ⟨slots, hBuild⟩

/-- What holds of every result of the continuation holds of the result of the bind. -/
theorem forall_of_bind {α β : Type} {x : Option α} {f : α → Option β} {P : β → Prop}
    (h : ∀ a b, f a = some b → P b) : ∀ b, x >>= f = some b → P b := by
  intro b hBind
  obtain ⟨a, -, ha⟩ := Option.bind_eq_some_iff.mp hBind
  exact h a b ha

namespace ScanValue

def u32? : ScanValue → Option UInt32
  | u32 v => some v
  | _ => none

def i64? : ScanValue → Option Int64
  | i64 v => some v
  | _ => none

def bool? : ScanValue → Option Bool
  | bool v => some v
  | _ => none

def str? : ScanValue → Option String
  | str v => some v
  | _ => none

def strList? : ScanValue → Option (List String)
  | strList v => some v
  | _ => none

end ScanValue

def readOnlyField (tag : FieldRef) (name : String) (kind : ValueKind) : FieldDescriptor :=
  ⟨tag, name, kind, ⟨false, false, false⟩⟩

/-! ## Dogs -/

namespace DogRecord

def FIELD_BREED : FieldRef := 0

def FIELD_AGE : FieldRef := 1

def domain : Domain DogRecord UInt32 where
  id r := r.id
  fieldsOf r := [(FIELD_BREED, .str r.breed), (FIELD_AGE, .u32 r.age)]
  fromFields _ _ := .error .unsupported
  field := FIELD_AGE
  ofScan := ScanValue.u32?
  valid _ := true
  set v r := { r with age := v }
  readOnly := [FIELD_BREED]
  schema := {
    fields := [
      readOnlyField FIELD_BREED "breed" .str,
      ⟨FIELD_AGE, "age", .u32, ⟨false, true, true⟩⟩]
    relations := ⟨false, true⟩ }
  checkLabel _ := .error .unsupported
  foreign _ := false
  id_set _ _ := rfl
  set_set _ _ _ := rfl
  id_fromFields h := nomatch h
  valid_checkLabel := @Domain.valid_of_unsupported

end DogRecord

/-! ## Memories -/

structure Memory where
  id : RecordId
  content : String
  category : String
  tags : List String
  source : String
  metadataJson : String
  createdAtUnixMs : Int64
  updatedAtUnixMs : Int64
  memoryType : String
  status : String
  sensitive : Bool
  accessCount : Int64
  deletedAtUnixMs : Int64
  nodeId : String
  deriving DecidableEq

namespace Memory

def FIELD_CONTENT : FieldRef := 0

def FIELD_CATEGORY : FieldRef := 1

def FIELD_TAGS : FieldRef := 2

def FIELD_SOURCE : FieldRef := 3

def FIELD_METADATA_JSON : FieldRef := 4

def FIELD_CREATED_AT : FieldRef := 5

def FIELD_UPDATED_AT : FieldRef := 6

def FIELD_MEMORY_TYPE : FieldRef := 7

def FIELD_STATUS : FieldRef := 8

def FIELD_SENSITIVE : FieldRef := 9

def FIELD_ACCESS_COUNT : FieldRef := 10

def FIELD_DELETED_AT : FieldRef := 11

def FIELD_NODE_ID : FieldRef := 12

def READ_ONLY_FIELDS : List FieldRef :=
  [FIELD_CONTENT, FIELD_CATEGORY, FIELD_TAGS, FIELD_SOURCE, FIELD_METADATA_JSON, FIELD_CREATED_AT,
    FIELD_UPDATED_AT, FIELD_MEMORY_TYPE, FIELD_STATUS, FIELD_SENSITIVE, FIELD_DELETED_AT,
      FIELD_NODE_ID]

def MEMORY_RELATION_LABELS : List String := ["mentions"]

def MEMORY_FOREIGN_TABLE : String := "entity"

def validAccessCount (value : Int64) : Bool := 0 ≤ value

def fits (tag : FieldRef) : ScanValue → Bool
  | .str _ =>
    tag ∈ [FIELD_CONTENT, FIELD_CATEGORY, FIELD_SOURCE, FIELD_METADATA_JSON, FIELD_MEMORY_TYPE,
      FIELD_STATUS, FIELD_NODE_ID]
  | .strList _ => tag = FIELD_TAGS
  | .i64 v =>
    tag = FIELD_CREATED_AT || tag =
      FIELD_UPDATED_AT || (tag = FIELD_ACCESS_COUNT && validAccessCount v) ||
      (tag = FIELD_DELETED_AT && 0 ≤ v)
  | .bool _ => tag = FIELD_SENSITIVE
  | _ => false

def build (id : RecordId) (slots : FieldRef → Option ScanValue) : Option Memory := do
  let content ← (slots FIELD_CONTENT).bind ScanValue.str?
  let category ← (slots FIELD_CATEGORY).bind ScanValue.str?
  let tags ← (slots FIELD_TAGS).bind ScanValue.strList?
  let source ← (slots FIELD_SOURCE).bind ScanValue.str?
  let metadataJson ← (slots FIELD_METADATA_JSON).bind ScanValue.str?
  let createdAtUnixMs ← (slots FIELD_CREATED_AT).bind ScanValue.i64?
  let updatedAtUnixMs ← (slots FIELD_UPDATED_AT).bind ScanValue.i64?
  let memoryType ← (slots FIELD_MEMORY_TYPE).bind ScanValue.str?
  let status ← (slots FIELD_STATUS).bind ScanValue.str?
  let sensitive ← (slots FIELD_SENSITIVE).bind ScanValue.bool?
  let accessCount ← (slots FIELD_ACCESS_COUNT).bind ScanValue.i64?
  let deletedAtUnixMs ← (slots FIELD_DELETED_AT).bind ScanValue.i64?
  let nodeId ← (slots FIELD_NODE_ID).bind ScanValue.str?
  return ⟨id, content, category, tags, source, metadataJson, createdAtUnixMs,
    updatedAtUnixMs, memoryType, status, sensitive, accessCount, deletedAtUnixMs, nodeId⟩

def memoryFromFields (id : RecordId) (fields : Fields) : Except ErrorCode Memory :=
  recordFromFields (· ≤ FIELD_NODE_ID) fits (build id) fields

def fieldsOf (memory : Memory) : Fields :=
  [(FIELD_CONTENT, .str memory.content),
    (FIELD_CATEGORY, .str memory.category),
    (FIELD_TAGS, .strList memory.tags),
    (FIELD_SOURCE, .str memory.source),
    (FIELD_METADATA_JSON, .str memory.metadataJson),
    (FIELD_CREATED_AT, .i64 memory.createdAtUnixMs),
    (FIELD_UPDATED_AT, .i64 memory.updatedAtUnixMs),
    (FIELD_MEMORY_TYPE, .str memory.memoryType),
    (FIELD_STATUS, .str memory.status),
    (FIELD_SENSITIVE, .bool memory.sensitive),
    (FIELD_ACCESS_COUNT, .i64 memory.accessCount),
    (FIELD_DELETED_AT, .i64 memory.deletedAtUnixMs),
    (FIELD_NODE_ID, .str memory.nodeId)]

theorem id_of_build {id : RecordId} {slots : FieldRef → Option ScanValue} {memory : Memory}
    (h : build id slots = some memory) : memory.id = id := by
  revert memory
  unfold build
  repeat apply forall_of_bind; intro _
  intro memory h
  cases h
  rfl

def domain : Domain Memory Int64 where
  id r := r.id
  fieldsOf := fieldsOf
  fromFields := memoryFromFields
  field := FIELD_ACCESS_COUNT
  ofScan := ScanValue.i64?
  valid := validAccessCount
  set v r := { r with accessCount := v }
  readOnly := READ_ONLY_FIELDS
  schema := {
    fields := [
      readOnlyField FIELD_CONTENT "content" .str,
      ⟨FIELD_CATEGORY, "category", .str, ⟨true, false, false⟩⟩,
      readOnlyField FIELD_TAGS "tags" .strList,
      readOnlyField FIELD_SOURCE "source" .str,
      readOnlyField FIELD_METADATA_JSON "metadata_json" .str,
      readOnlyField FIELD_CREATED_AT "created_at_unix_ms" .i64,
      readOnlyField FIELD_UPDATED_AT "updated_at_unix_ms" .i64,
      readOnlyField FIELD_MEMORY_TYPE "memory_type" .str,
      readOnlyField FIELD_STATUS "status" .str,
      readOnlyField FIELD_SENSITIVE "sensitive" .bool,
      ⟨FIELD_ACCESS_COUNT, "access_count", .i64, ⟨false, true, true⟩⟩,
      readOnlyField FIELD_DELETED_AT "deleted_at_unix_ms" .i64,
      readOnlyField FIELD_NODE_ID "node_id" .str]
    relations := ⟨false, true⟩ }
  checkLabel label := if label ∈ MEMORY_RELATION_LABELS then .ok () else .error .malformed
  foreign label := label ∈ MEMORY_RELATION_LABELS
  id_set _ _ := rfl
  set_set _ _ _ := rfl
  id_fromFields h := (build_of_recordFromFields h).elim fun _ hBuild => id_of_build hBuild
  valid_checkLabel {label} h := by
    split at h
    · next hMem =>
      rw [List.mem_singleton.mp hMem]
      decide +kernel
    · cases h

end Memory

/-! ## Entities -/

structure Entity where
  id : RecordId
  label : String
  kind : String
  mentionCount : Int64
  aliases : List String
  deriving DecidableEq

namespace Entity

def FIELD_LABEL : FieldRef := 0

def FIELD_KIND : FieldRef := 1

def FIELD_MENTION_COUNT : FieldRef := 2

def FIELD_ALIASES : FieldRef := 3

def fits (tag : FieldRef) : ScanValue → Bool
  | .str _ => tag = FIELD_LABEL || tag = FIELD_KIND
  | .i64 _ => tag = FIELD_MENTION_COUNT
  | .strList _ => tag = FIELD_ALIASES
  | _ => false

def build (id : RecordId) (slots : FieldRef → Option ScanValue) : Option Entity := do
  let label ← (slots FIELD_LABEL).bind ScanValue.str?
  let kind ← (slots FIELD_KIND).bind ScanValue.str?
  let mentionCount ← (slots FIELD_MENTION_COUNT).bind ScanValue.i64?
  let aliases ← (slots FIELD_ALIASES).bind ScanValue.strList?
  return ⟨id, label, kind, mentionCount, aliases⟩

def entityFromFields (id : RecordId) (fields : Fields) : Except ErrorCode Entity :=
  recordFromFields (· ∈ [FIELD_LABEL, FIELD_KIND, FIELD_MENTION_COUNT, FIELD_ALIASES])
    fits (build id) fields

def fieldsOf (entity : Entity) : Fields :=
  [(FIELD_LABEL, .str entity.label),
    (FIELD_KIND, .str entity.kind),
    (FIELD_MENTION_COUNT, .i64 entity.mentionCount),
    (FIELD_ALIASES, .strList entity.aliases)]

theorem id_of_build {id : RecordId} {slots : FieldRef → Option ScanValue} {entity : Entity}
    (h : build id slots = some entity) : entity.id = id := by
  revert entity
  unfold build
  repeat apply forall_of_bind; intro _
  intro entity h
  cases h
  rfl

def domain : Domain Entity Int64 where
  id r := r.id
  fieldsOf := fieldsOf
  fromFields := entityFromFields
  field := FIELD_MENTION_COUNT
  ofScan := ScanValue.i64?
  valid _ := true
  set v r := { r with mentionCount := v }
  readOnly := [FIELD_LABEL, FIELD_KIND, FIELD_ALIASES]
  schema := {
    fields := [
      ⟨FIELD_LABEL, "label", .str, ⟨true, false, false⟩⟩,
      ⟨FIELD_KIND, "kind", .str, ⟨true, false, false⟩⟩,
      ⟨FIELD_MENTION_COUNT, "mention_count", .i64, ⟨false, true, true⟩⟩,
      readOnlyField FIELD_ALIASES "aliases" .strList]
    relations := ⟨false, true⟩ }
  checkLabel label := if validRelationLabel label then .ok () else .error .malformed
  foreign _ := false
  id_set _ _ := rfl
  set_set _ _ _ := rfl
  id_fromFields h := (build_of_recordFromFields h).elim fun _ hBuild => id_of_build hBuild
  valid_checkLabel h := by
    split at h
    · next hValid => exact hValid
    · cases h

end Entity

end MultimodalDb
