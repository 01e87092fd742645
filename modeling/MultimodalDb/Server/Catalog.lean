import MultimodalDb.Server.Serving
import MultimodalDb.Server.WriteBatch

/-!
# Servers of domains

The tables of a server whose adapters are those of the domains. What an adapter answers from an
index of its own (the ids there are, a filter, a scan, a count) is left open: no write depends on
it.
-/

namespace MultimodalDb

namespace Domain

variable {R V : Type} (D : Domain R V)

/-- A journaled transaction in its turn: the reads are checked and the batch is applied. -/
def takeTurn (c : Txn) (s : Stack R) : Except (Nat × ErrorCode) Unit × Stack R :=
  match D.checkReadSet c.readSet s with
  | .error e => (.error e, s)
  | .ok () => D.applyBatch 0 c.updates s

end Domain

/-- A domain's adapter over its stack. -/
structure Table where
  R : Type
  V : Type
  domain : Domain R V
  tableName : String
  relations : Option (List RelationDescriptor)
  orderedBy : Option FieldRef
  journaled : Bool
  exclusiveBatches : Bool
  /-- The table can be deleted from and compacted. -/
  deletes : Bool
  index : (r : Read) → Stack R → r.Reply
  report : Stack R → CompactionReport
  /-- The far endpoint of a relation into another table is not looked for here. -/
  foreign : ∀ {rs r}, relations = some rs → r ∈ rs → r.targetTable.isSome = true →
    domain.foreign r.name = true ∧ domain.checkLabel r.name = .ok ()

namespace Table

variable (t : Table)

def read (r : Read) (s : Stack t.R) : r.Reply :=
  match r with
  | .get id => t.domain.get s id
  | .validateOp op => (t.domain.checkWrite op.field op.value (s.rows op.id).isSome).map fun _ => ()
  | r => t.index r s

def write (w : Write) (s : Stack t.R) : w.Reply × Stack t.R :=
  match w with
  | .updateField id field value => t.domain.updateField s id field value
  | .insertRecord id fields => t.domain.insertRecord .works s id fields
  | .replaceRecord id fields => t.domain.replaceRecord .works s id fields
  | .replaceRecordIf id fields guard => t.domain.replaceRecordIf .works s id fields guard
  | .deleteRecord id => if t.deletes then Domain.deleteRecord .works s id
      else (.error .unsupported, s)
  | .linkRecords left right relation => t.domain.linkRecords .works s left right relation
  | .detachRecord relation id => t.domain.detachRecord .works s relation id
  | .writeAtomic ops => t.domain.writeAtomic [] ops s
  | .compact => if t.deletes then (.ok (t.report s), s) else (.error .unsupported, s)
  | .applyTransaction updates readSet => t.domain.applyTransaction ⟨updates, readSet⟩ s
  | .applyTurn updates readSet => t.domain.takeTurn ⟨updates, readSet⟩ s

def store : ConnectionStore (Stack t.R) where
  tableName := t.tableName
  describe := t.domain.schema
  relations := t.relations
  orderedBy := t.orderedBy
  journaled := t.journaled
  exclusiveBatches := t.exclusiveBatches
  read := t.read
  write := t.write

end Table

/-- The tables of a server, each under its name. -/
structure Catalog (n : Nat) where
  name : Fin n → String
  table : Fin n → Table
  primary : Fin n

namespace Catalog

variable {n : Nat} (C : Catalog n)

abbrev Content (i : Fin n) : Type := Stack (C.table i).R

def tables : Tables n C.Content := ⟨C.name, fun i => (C.table i).store, C.primary⟩

end Catalog

/-! ## The tables of the domains -/

/-- Indexes of a table that has nothing to answer from them. -/
def Read.nothing : (r : Read) → r.Reply
  | .get _ => none
  | .allIds | .listRelationKinds | .pageBy .. => []
  | .filterEq .. | .scanField _ | .parent _ | .children _ | .neighbors _ | .neighborsByRelation ..
  | .countEdges _ | .validateOp _ => .error .unsupported

def DogRecord.table (journaled : Bool)
    (index : (r : Read) → Stack DogRecord → r.Reply) : Table where
  R := DogRecord
  V := UInt32
  domain := DogRecord.domain
  tableName := "dog"
  relations := none
  orderedBy := none
  journaled := journaled
  exclusiveBatches := false
  deletes := false
  index := index
  report _ := ⟨0, 0, 0, 0⟩
  foreign := nofun

def Memory.table (journaled : Bool) (index : (r : Read) → Stack Memory → r.Reply)
    (report : Stack Memory → CompactionReport) : Table where
  R := Memory
  V := Int64
  domain := Memory.domain
  tableName := "memory"
  relations := some (MEMORY_RELATION_LABELS.map fun label =>
    ⟨label, .neighbors (some label), some MEMORY_FOREIGN_TABLE⟩)
  orderedBy := some FIELD_UPDATED_AT
  journaled := journaled
  exclusiveBatches := true
  deletes := true
  index := index
  report := report
  foreign := by
    intro rs r hRelations hMem _
    cases hRelations
    obtain ⟨label, hLabel, rfl⟩ := List.mem_map.mp hMem
    exact ⟨decide_eq_true hLabel, if_pos hLabel⟩

def Entity.table (journaled : Bool) (index : (r : Read) → Stack Entity → r.Reply)
    (report : Stack Entity → CompactionReport) : Table where
  R := Entity
  V := Int64
  domain := Entity.domain
  tableName := "entity"
  relations := none
  orderedBy := none
  journaled := journaled
  exclusiveBatches := true
  deletes := true
  index := index
  report := report
  foreign := nofun

/-- A server of memories and the entities they mention. -/
def memoryServer (journaled : Bool) : Catalog 2 where
  name
    | 0 => "memory"
    | 1 => "entity"
  table
    | 0 => Memory.table journaled (fun r _ => r.nothing) fun _ => ⟨0, 0, 0, 0⟩
    | 1 => Entity.table journaled (fun r _ => r.nothing) fun _ => ⟨0, 0, 0, 0⟩
  primary := 0

/-- Two memories, and no entity. -/
def memoryWorld (journaled : Bool) : Contents (memoryServer journaled).Content
  | 0 => Memory.sampleStack
  | 1 => Stack.empty

end MultimodalDb
