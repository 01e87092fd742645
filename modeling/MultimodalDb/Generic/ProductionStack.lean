import MultimodalDb.Generic.MultiSymmetric

/-!
# The durable stack of a table

A table's records are in a store on mapped files, and its edges in a layer over it whose files lie
beside them. A process creates the stack, or opens it from the files alone; the labels it names then
are those it was compiled with, and the manifest has the others. The indexes above the layer hold no
file.
-/

namespace MultimodalDb

/-- The labels a table is compiled with, and those of them whose far end is another table's record.
-/
structure Relations where
  labels : List String
  foreign : List String

def entityRelations : Relations := ⟨["relates_to", "mentioned_with"], []⟩

abbrev ProductionStack (R Id IV SV : Type) : Type := MultiSymmetric (GenericMmapStore R Id IV SV) Id

namespace ProductionStack

open MultiSymmetric

variable {R Id IV SV S : Type} [StoredRecord R Id IV SV] [MmapFieldValue Id] [MmapFieldValue SV]
variable [LinearOrder Id] [DecidableEq IV] [Serde R] [Serde Id]

/-- `create_…_production_stack`. -/
def create (relations : Relations) (records : List R) (edges : String → List (Id × Id))
    (path : Path) :
    Method S DurabilityError (ProductionStack R Id IV SV) := do
  let core ← GenericMmapStore.create records path
  let layer ← MultiSymmetric.create R core
    (relations.labels.map fun label => (label, edges label)) path
  return layer.withForeignLabels relations.foreign

/-- `open_…_production_stack_portable`. -/
def openPortable (relations : Relations) (path : Path) :
    Method S DurabilityError (ProductionStack R Id IV SV) := do
  let core ← GenericMmapStore.openPortable path
  let layer ← MultiSymmetric.openPortable R core path relations.labels
  return layer.withForeignLabels relations.foreign

/-! ## Calls -/

/-- A call on a stack. -/
inductive Call (R Id SV : Type) where
  | insert (record : R)
  | replace (record : R)
  | update (id : Id) (value : SV)
  | delete (id : Id)
  | link (relation : String) (a b : Id)
  | detach (relation : String) (id : Id)
  | compact

inductive CallError (Id : Type) where
  | insert (e : InsertError Id)
  | replace (e : ReplaceError Id)
  | update (e : NotFound Id)
  | delete (e : DeleteError Id)
  | link (e : EdgeLayer.LinkError Id)
  | compact (e : DurabilityError)

inductive CallValue where
  | done
  | linked (outcome : LinkOutcome)
  | detached (edges : Nat)
  | compacted (report : CompactionReport)

/-- The call itself, with its value or its error. -/
def Call.method : Call R Id SV → Method (ProductionStack R Id IV SV) (CallError Id) CallValue
  | .insert record => do
    Method.mapError .insert (MultiSymmetric.insert record)
    return .done
  | .replace record => do
    Method.mapError .replace (MultiSymmetric.replace record)
    return .done
  | .update id value => do
    Method.mapError .update (MultiSymmetric.update id value)
    return .done
  | .delete id => do
    Method.mapError .delete (MultiSymmetric.delete id)
    return .done
  | .link relation a b => do
    let outcome ← Method.mapError .link (MultiSymmetric.link relation a b)
    return .linked outcome
  | .detach relation id => do
    let edges ← Method.mapError .delete (MultiSymmetric.detach R relation id)
    return .detached edges
  | .compact => do
    let report ← Method.mapError .compact MultiSymmetric.compact
    return .compacted report

/-! ## Histories -/

/-- What happens to a stack, and what storage does at each of its file calls. -/
inductive Event (R Id SV : Type) where
  | call (call : Call R Id SV) (plan : List Outcome)
  | reopen (plan : List Outcome)

/-- What the caller is told. There is no answer from a process that panicked or crashed. -/
inductive Reply (Id : Type) where
  | value (value : CallValue)
  | refused (e : CallError Id)
  | opened
  | unopened (e : DurabilityError)
  | silence

/-- The stack of a process that has one, and the files. -/
abbrev Process (R Id IV SV : Type) : Type := Option (ProductionStack R Id IV SV) × Disk

/-- One event: what it is answered and what is left. A process that panics or crashes has no stack.
-/
def step (relations : Relations) (path : Path) (st : Process R Id IV SV) :
    Event R Id SV → Reply Id × Process R Id IV SV
  | .call call plan =>
    match st.1 with
    | none => (.silence, st)
    | some s =>
      match call.method ⟨s, st.2, plan⟩ with
      | .ok value p => (.value value, some p.self, p.disk)
      | .error (.error e) p => (.refused e, some p.self, p.disk)
      | .error _ p => (.silence, none, p.disk)
  | .reopen plan =>
    match openPortable relations path ⟨(), st.2, plan⟩ with
    | .ok s p => (.opened, some s, p.disk)
    | .error (.error e) p => (.unopened e, none, p.disk)
    | .error _ p => (.silence, none, p.disk)

/-- What a history is answered, and what it leaves. -/
def run (relations : Relations) (path : Path) :
    Process R Id IV SV → List (Event R Id SV) → List (Reply Id) × Process R Id IV SV
  | st, [] => ([], st)
  | st, event :: events =>
    let r := step relations path st event
    let rest := run relations path r.2 events
    (r.1 :: rest.1, rest.2)

end ProductionStack

end MultimodalDb
