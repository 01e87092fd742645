import MultimodalDb.Server.Client
import MultimodalDb.Server.SqlQueries

/-!
# Joins at the client

How the client compiles a parsed `JOIN` query to a request and names the fields of the rows that
come back. Each name is resolved against one side, chosen by its qualifier; `designates` is the side
that the parser's check takes a qualifier for, and `resolvedSide` the one that the client resolves
it against.

The two differ for the name of a `FROM` table that has an alias (`Hidden`): the parser accepts it,
and the client resolves it against the other table.
-/

namespace MultimodalDb

open Sql

/-- `{kind:?}`. -/
def ValueKind.debug : ValueKind → String
  | .u32 => "U32"
  | .i64 => "I64"
  | .bool => "Bool"
  | .str => "Str"
  | .strList => "StrList"

inductive Side where
  | left
  | right
  deriving DecidableEq

/-- Of two things, that of a side. -/
def Side.of {α : Type} (left right : α) : Side → α
  | .left => left
  | .right => right

structure JoinedRowNamed where
  leftId : RecordId
  rightId : RecordId
  fields : List (String × ScanValue)
  deriving DecidableEq

/-- One column of the output: its side, its tag and its label. -/
abbrev PlanEntry := Side × FieldRef × String

namespace Sql.ParsedQuery

variable (query : ParsedQuery)

/-- The side that a qualifier is resolved against. -/
def resolvedSide (qualifier : String) : Side :=
  if eqIgnoreAsciiCase qualifier (query.tableAlias.getD query.table) then .left else .right

/-- The side that the check of the qualifiers takes a qualifier for. -/
def designates (qualifier : String) : Option Side :=
  match query.leftNames.any (eqIgnoreAsciiCase · qualifier),
    query.rightNames.any (eqIgnoreAsciiCase · qualifier) with
  | true, false => some .left
  | false, true => some .right
  | _, _ => none

/-- The qualifiers of the columns and of the conditions. -/
def qualifiers : List String :=
  (query.items.filterMap fun item =>
    match item with
    | .qualified qualifier _ => some qualifier
    | _ => none) ++ query.conditions.filterMap ParsedCondition.qualifier

/-- The name of the `FROM` table, where that has an alias of another name. -/
def Hidden (qualifier : String) : Prop :=
  eqIgnoreAsciiCase query.table qualifier = true ∧
    ∃ other, query.tableAlias = some other ∧ eqIgnoreAsciiCase other qualifier = false

end Sql.ParsedQuery

namespace SchemaDrivenClient

open ClientM

/-! ## Names and literals -/

def fieldIn (schema : DomainSchema) (name : String) : Except ClientError FieldDescriptor :=
  match schema.fields.find? (·.name = name) with
  | some field => .ok field
  | none => .error (.unknownField name)

def resolveLiteral (fieldName : String) (kind : ValueKind) (literal : Literal) :
    Except ClientError ScanValue :=
  match kind, literal with
  | .u32, .number n =>
    if 0 ≤ n.toInt ∧ n.toInt < 2 ^ 32 then .ok (.u32 (UInt32.ofNat n.toInt.toNat))
    else .error (.sql (fieldName ++ ": " ++ toString n.toInt ++
      " does not fit in this field's u32 type"))
  | .i64, .number n => .ok (.i64 n)
  | .bool, .bool b => .ok (.bool b)
  | .str, .str s => .ok (.str s)
  | kind, _ => .error (.sql (fieldName ++ ": this literal does not match the field's type (" ++
      kind.debug ++ ")"))

def resolveCondition (schema : DomainSchema) (condition : ParsedCondition) :
    Except ClientError Predicate := do
  let field ← fieldIn schema condition.name
  if condition.op.isOrdering && !(field.valueKind = .u32 || field.valueKind = .i64) then
    throw (.sql (condition.name ++
      ": an ordering comparator (<, <=, >, >=) needs a U32 or I64 field, not " ++
      field.valueKind.debug))
  let value ← resolveLiteral condition.name field.valueKind condition.value
  return ⟨field.tag, condition.op, value⟩

def resolveFilterIn (schema : DomainSchema) (conditions : List ParsedCondition) :
    Except ClientError (List Predicate) :=
  conditions.mapM (resolveCondition schema)

/-! ## The relation -/

/-- The relation that `ON` names, and the other table that it joins, if any. -/
def joinTarget (relations : List RelationDescriptor) (query : ParsedQuery) (join : ParsedJoin) :
    Except ClientError (JoinRelation × Option String) :=
  let crossTable := !eqIgnoreAsciiCase join.table query.table
  match relations.find? (·.name = join.relation) with
  | none => .error (.sql ("ON " ++ join.relation ++
      ": not a relation this domain lists (see SchemaDrivenClient::relations)"))
  | some descriptor =>
    match descriptor.targetTable, crossTable with
    | none, false => .ok (descriptor.kind, none)
    | none, true => .error (.sql ("JOIN " ++ join.table ++ ": ON " ++ join.relation ++
        " joins rows of the FROM table (" ++ query.table ++ "), not another table"))
    | some target, false => .error (.sql ("ON " ++ join.relation ++
        ": this relation's rows live in another table (" ++ target ++ ") — JOIN " ++ target ++
        " to reach them"))
    | some target, true =>
      if target = join.table then .ok (descriptor.kind, some target)
      else
        .error (.sql ("JOIN " ++ join.table ++ ": ON " ++ join.relation ++ " joins rows of the " ++
        target ++ " table, not " ++ join.table))

/-! ## The plan -/

section Plan

variable (schema rightSchema : DomainSchema) (query : ParsedQuery) (join : ParsedJoin)

/-- The plan of `SELECT *`. -/
def planAll : List PlanEntry :=
  let leftAlias := query.tableAlias.getD query.table
  let rightAlias := join.tableAlias.getD join.table
  schema.fields.map (fun f => (.left, f.tag, leftAlias ++ "." ++ f.name)) ++
    rightSchema.fields.map fun f => (.right, f.tag, rightAlias ++ "." ++ f.name)

/-- The plan of one column. The parser lets only qualified ones into a join. -/
def planItem : ParsedColumnItem → Except ClientError (List PlanEntry)
  | .qualified qualifier name => do
    let side := query.resolvedSide qualifier
    let field ← fieldIn (side.of schema rightSchema) name
    return [(side, field.tag, qualifier ++ "." ++ name)]
  | _ => return []

/-- The tags of a side, in the order of the plan. -/
def tagsOf (side : Side) (plan : List PlanEntry) : List FieldRef :=
  (plan.filter (·.1 = side)).map (·.2.1)

def planColumns : Except ClientError (Selection × Selection × List PlanEntry) :=
  match query.columns with
  | .all => return (.all, .all, planAll schema rightSchema query join)
  | .named items => do
    let plan := (← items.mapM (planItem schema rightSchema query)).flatten
    return (.fields (tagsOf .left plan), .fields (tagsOf .right plan), plan)

/-- The side of a condition. -/
def conditionSide (condition : ParsedCondition) : Side :=
  match condition.qualifier with
  | some qualifier => query.resolvedSide qualifier
  | none => .right

/-- The request of a join, with the plan of its rows. -/
def compileJoin (relation : JoinRelation) (rightTable : Option String) :
    Except ClientError (JoinSpec × List PlanEntry) := do
  let (left, right, plan) ← planColumns schema rightSchema query join
  let leftFilter ← resolveFilterIn schema (query.conditions.filter (conditionSide query · = .left))
  let rightFilter ← resolveFilterIn rightSchema
    (query.conditions.filter (conditionSide query · = .right))
  return (⟨relation, rightTable, left, right, leftFilter, rightFilter, query.limit⟩, plan)

end Plan

/-- The row with its fields named as the plan says. -/
def nameRow (plan : List PlanEntry) (row : JoinedRow) : JoinedRowNamed where
  leftId := row.leftId
  rightId := row.rightId
  fields := plan.filterMap fun (side, tag, label) =>
    ((side.of row.left row.right).find? (·.1 = tag)).map fun field => (label, field.2)

/-- A part that makes no request. -/
def ofExcept {α : Type} : Except ClientError α → ClientM α
  | .ok a => return a
  | .error e => throw e

/-- The schema of the right side. -/
def rightSchemaOf (rightTable : Option String) : ClientM DomainSchema := do
  match rightTable with
  | some table => schemaOf table
  | none => return (← get).schema

/-- Compile and run a `JOIN` query; `join` is its `JOIN` part. -/
def queryJoin (query : ParsedQuery) (join : ParsedJoin) : ClientM (List JoinedRowNamed) := do
  let c ← get
  if c.serverProtocolVersion < 12 then throw (.unsupported "sql join")
  let (relation, rightTable) ← ofExcept (joinTarget c.relations query join)
  let rightSchema ← rightSchemaOf rightTable
  let (spec, plan) ← ofExcept (compileJoin c.schema rightSchema query join relation rightTable)
  match ← roundtrip (.join spec) with
  | .joinedRows rows => return rows.map (nameRow plan)
  | .err code message => throw (.server code message)
  | _ => throw (.unexpectedResponse "JoinedRows")

end SchemaDrivenClient

/-! ## Sides -/

namespace Sql

theorem eqIgnoreAsciiCase_comm (a b : String) : eqIgnoreAsciiCase a b = eqIgnoreAsciiCase b a := by
  simp only [eqIgnoreAsciiCase, eq_comm]

/-- What the parser accepts keeps the rules of the qualifiers. -/
theorem rules_of_parse [CharTables] {fuel : Nat} {sql : String} {query : ParsedQuery}
    (h : parse fuel sql = some (.ok query)) : query.QualifierRules := by
  rw [parse] at h
  cases hTokens : tokenize fuel sql with
  | none =>
    rw [hTokens] at h
    cases h
  | some tokens =>
    rw [hTokens] at h
    cases tokens with
    | error e => cases h
    | ok tokens =>
      change (SqlParser.query fuel tokens).bind _ = _ at h
      obtain ⟨found, -, h⟩ := Option.bind_eq_some_iff.mp h
      cases found with
      | error e => cases h
      | ok found =>
        obtain ⟨found, rest⟩ := found
        change some (found.validateQualifiers.map fun _ => found) = _ at h
        cases hValid : found.validateQualifiers with
        | error e =>
          rw [hValid] at h
          cases h
        | ok u =>
          rw [hValid] at h
          cases h
          exact ParsedQuery.validateQualifiers_ok.mp hValid

namespace ParsedQuery

variable {query : ParsedQuery} {qualifier : String}

/-- **The client resolves a name against the side it designates**, unless it is the hidden name of
the `FROM` table. -/
theorem designates_eq_iff (h : query.NamesOneSide qualifier) :
    query.designates qualifier = some (query.resolvedSide qualifier) ↔
      ¬ query.Hidden qualifier := by
  rw [NamesOneSide, ← any_among, ← any_among] at h
  rw [designates, resolvedSide, Hidden, eqIgnoreAsciiCase_comm qualifier]
  generalize query.rightNames.any (eqIgnoreAsciiCase · qualifier) = atRight at h ⊢
  rw [leftNames] at h ⊢
  cases hAlias : query.tableAlias with
  | none =>
    rw [hAlias] at h
    cases hTable : eqIgnoreAsciiCase query.table qualifier <;> cases atRight <;> simp_all [Xor]
  | some other =>
    rw [hAlias] at h
    cases hTable : eqIgnoreAsciiCase query.table qualifier <;>
      cases hOther : eqIgnoreAsciiCase other qualifier <;> cases atRight <;> simp_all [Xor]

theorem namesOneSide_of_mem (hRules : query.QualifierRules) (h : qualifier ∈ query.qualifiers) :
    query.NamesOneSide qualifier := by
  rcases List.mem_append.mp h with hItem | hCondition
  · obtain ⟨item, hMem, hQualifier⟩ := List.mem_filterMap.mp hItem
    cases item with
    | qualified other name =>
      obtain rfl : other = qualifier := by simpa using hQualifier
      exact hRules.qualified _ name hMem
    | plain name => cases hQualifier
    | aggregate func arg => cases hQualifier
  · obtain ⟨condition, hMem, hQualifier⟩ := List.mem_filterMap.mp hCondition
    exact hRules.condition condition hMem qualifier hQualifier

end ParsedQuery

end Sql

namespace SchemaDrivenClient

open ClientM

/-! ## What a join comes to -/

/-- A column is read from the field of its name at its qualifier's side. -/
def ColumnReads (side : String → Side) (schema rightSchema : DomainSchema) (item : ParsedColumnItem)
    (entry : PlanEntry) : Prop :=
  ∃ qualifier name field, item = .qualified qualifier name ∧
    fieldIn ((side qualifier).of schema rightSchema) name = .ok field ∧
    entry = (side qualifier, field.tag, qualifier ++ "." ++ name)

/-- The conditions of a side, each resolved against its schema. -/
def FilterOf (side : String → Side) (schema : DomainSchema) (here : Side)
    (conditions : List ParsedCondition) (filter : List Predicate) : Prop :=
  List.Forall₂ (fun condition p => resolveCondition schema condition = .ok p)
    (conditions.filter fun condition => condition.qualifier.any fun q => side q = here) filter

/-- A request and the plan of its rows that resolve every name against the side of its qualifier. -/
structure Resolves (side : String → Side) (query : ParsedQuery) (schema rightSchema : DomainSchema)
    (spec : JoinSpec) (plan : List PlanEntry) : Prop where
  columns : ∀ items, query.columns = .named items →
    List.Forall₂ (ColumnReads side schema rightSchema) items plan ∧
      spec.left = .fields (tagsOf .left plan) ∧ spec.right = .fields (tagsOf .right plan)
  leftFilter : FilterOf side schema .left query.conditions spec.leftFilter
  rightFilter : FilterOf side rightSchema .right query.conditions spec.rightFilter

variable {query : ParsedQuery} {join : ParsedJoin} {schema rightSchema : DomainSchema}

theorem columnReads_of_planItems {items : List ParsedColumnItem} {lists : List (List PlanEntry)}
    (hAll : ∀ item ∈ items, ∃ qualifier name, item = .qualified qualifier name)
    (h : List.Forall₂ (fun item entries => planItem schema rightSchema query item = .ok entries)
      items lists) :
    List.Forall₂ (ColumnReads query.resolvedSide schema rightSchema) items lists.flatten := by
  induction h with
  | nil => exact .nil
  | @cons item entries items lists hItem _ ih =>
    obtain ⟨hFirst, hRest⟩ := List.forall_mem_cons.mp hAll
    obtain ⟨qualifier, name, rfl⟩ := hFirst
    obtain ⟨field, hField, hEntries⟩ := exists_of_bind hItem
    cases hEntries
    exact .cons ⟨qualifier, name, field, rfl, hField, rfl⟩ (ih hRest)

/-- Every column of a join is qualified. -/
theorem qualified_of_rules (hRules : query.QualifierRules) (hJoin : query.join = some join) :
    ∀ item ∈ query.items, ∃ qualifier name, item = .qualified qualifier name := by
  intro item hMem
  have hSome : query.join.isSome := by rw [hJoin]; rfl
  cases item with
  | qualified qualifier name => exact ⟨qualifier, name, rfl⟩
  | plain name =>
    rw [hRules.plain name hMem] at hJoin
    cases hJoin
  | aggregate func arg => exact absurd trivial ((hRules.noAggregates hSome).1 _ hMem)

/-- The conditions that the client takes to a side are those whose qualifier it resolves there. -/
theorem conditions_of_rules (hRules : query.QualifierRules) (hJoin : query.join = some join)
    (here : Side) : (query.conditions.filter (conditionSide query · = here)) =
      query.conditions.filter fun condition =>
        condition.qualifier.any fun q => query.resolvedSide q = here := by
  refine List.filter_congr fun condition hMem => ?_
  rw [conditionSide]
  cases hQualifier : condition.qualifier with
  | some qualifier => rfl
  | none =>
    rw [hRules.bare condition hMem hQualifier] at hJoin
    cases hJoin

theorem resolves_of_compileJoin (hRules : query.QualifierRules) (hJoin : query.join = some join)
    {relation : JoinRelation} {rightTable : Option String} {spec : JoinSpec} {plan : List PlanEntry}
    (h : compileJoin schema rightSchema query join relation rightTable = .ok (spec, plan)) :
    spec.rightTable = rightTable ∧
      Resolves query.resolvedSide query schema rightSchema spec plan := by
  obtain ⟨⟨left, right, plan'⟩, hColumns, h⟩ := exists_of_bind h
  obtain ⟨leftFilter, hLeft, h⟩ := exists_of_bind h
  obtain ⟨rightFilter, hRight, h⟩ := exists_of_bind h
  cases h
  refine ⟨rfl, fun items hItems => ?_, ?_, ?_⟩
  · rw [planColumns, hItems] at hColumns
    obtain ⟨lists, hLists, hColumns⟩ := exists_of_bind hColumns
    cases hColumns
    have hAll := qualified_of_rules hRules hJoin
    rw [ParsedQuery.items, hItems] at hAll
    exact ⟨columnReads_of_planItems hAll (forall₂_of_mapM hLists), rfl, rfl⟩
  · rw [FilterOf, ← conditions_of_rules hRules hJoin]
    exact forall₂_of_mapM hLeft
  · rw [FilterOf, ← conditions_of_rules hRules hJoin]
    exact forall₂_of_mapM hRight

/-- Where the schema of the right side came from. -/
def RightSchema (c : SchemaDrivenClient) (made : Program.Trace Request ClientReply)
    (rightTable : Option String) (rightSchema : DomainSchema) : Prop :=
  match rightTable with
  | none => rightSchema = c.schema
  | some table => Learned c made table rightSchema

/-- A run that returned rows: its last request was a join that resolves every name of the query as
`side` says, and the rows are those of the answer, named by the plan. -/
def JoinedBy (side : String → Side) (query : ParsedQuery) (c : SchemaDrivenClient)
    (made : Program.Trace Request ClientReply) (rows : List JoinedRowNamed) : Prop :=
  ∃ spec plan rightSchema received earlier,
    made = ⟨.join spec, .ok (.joinedRows received)⟩ :: earlier ∧
      RightSchema c earlier spec.rightTable rightSchema ∧
      Resolves side query c.schema rightSchema spec plan ∧ rows = received.map (nameRow plan)

theorem tells_queryJoin (hRules : query.QualifierRules) (hJoin : query.join = some join)
    (c : SchemaDrivenClient) (made : Program.Trace Request ClientReply) :
    Tells (fun made r _ => ∀ rows, r = .ok rows → JoinedBy query.resolvedSide query c made rows)
      (queryJoin query join) c made := by
  refine tells_get ?_
  split
  · exact tells_throw nofun
  cases hTarget : joinTarget c.relations query join with
  | error e => exact tells_throw nofun
  | ok target =>
    obtain ⟨relation, rightTable⟩ := target
    have hSchema : Tells (fun made r _ => ∀ rightSchema, r = .ok rightSchema →
        RightSchema c made rightTable rightSchema) (rightSchemaOf rightTable) c made := by
      cases rightTable with
      | none =>
        refine tells_get (tells_pure ?_)
        rintro _ ⟨rfl⟩
        rfl
      | some table => exact Program.Yields.mono (tells_schemaOf table) fun _ _ h => h.2
    refine tells_bind (tells_pure ?_)
    refine tells_bind (Program.Yields.mono hSchema ?_)
    rintro made₁ ⟨e | rightSchema, c₁⟩ hRight
    · exact nofun
    dsimp only
    cases hCompile : compileJoin c.schema rightSchema query join relation rightTable with
    | error e => exact tells_throw nofun
    | ok compiled =>
      obtain ⟨spec, plan⟩ := compiled
      obtain ⟨hTable, hResolves⟩ := resolves_of_compileJoin hRules hJoin hCompile
      refine tells_bind (tells_pure ?_)
      refine tells_roundtrip fun reply => ?_
      cases reply with
      | error e => exact nofun
      | ok response =>
        cases response
        case joinedRows received =>
          refine tells_pure ?_
          rintro _ ⟨rfl⟩
          exact ⟨spec, plan, rightSchema, received, made₁, rfl, hTable ▸ hRight rightSchema rfl,
            hResolves, rfl⟩
        all_goals exact tells_throw nofun

/-- **Qualified names in a join.** For a `JOIN` query that the parser accepts: whenever the client
returns rows it has resolved every column and every condition against the side that `resolvedSide`
gives its qualifier; and that is the side that the qualifier designates, for all of them, exactly
when none is the hidden name of the `FROM` table. -/
theorem join_names [CharTables] {fuel : Nat} {sql : String}
    (hParse : parse fuel sql = some (.ok query)) (hJoin : query.join = some join) :
    (∀ c, Tells (fun made r _ => ∀ rows, r = .ok rows →
      JoinedBy query.resolvedSide query c made rows) (queryJoin query join) c []) ∧
    ((∀ qualifier ∈ query.qualifiers,
        query.designates qualifier = some (query.resolvedSide qualifier)) ↔
      ∀ qualifier ∈ query.qualifiers, ¬ query.Hidden qualifier) := by
  have hRules := rules_of_parse hParse
  refine ⟨fun c => tells_queryJoin hRules hJoin c [], ?_⟩
  exact forall₂_congr fun qualifier hMem =>
    ParsedQuery.designates_eq_iff (ParsedQuery.namesOneSide_of_mem hRules hMem)

/-- A table with a `name`. -/
def nameSchema : DomainSchema := ⟨[⟨0, "name", .str, ⟨true, true, true⟩⟩], ⟨false, true⟩⟩

/-- A server with one pair that gives both names as far as it is asked for them. -/
def answerPair (leftName rightName : String) (req : Request) (s : Unit) : ClientReply req × Unit :=
  match req with
  | .join spec =>
    let named (selection : Selection) (name : String) : Fields :=
      if selection = .fields [0] then [(0, .str name)] else []
    (.ok (.joinedRows [⟨Uuid.ofNat 1, named spec.left leftName, Uuid.ofNat 2,
      named spec.right rightName⟩]), s)
  | _ => (.error .frame, s)

/-- A join of a table with itself. -/
def selfJoin : ParsedQuery where
  columns := .named [.qualified "a" "name", .qualified "b" "name"]
  table := "person"
  tableAlias := some "a"
  join := some ⟨"person", some "b", "knows"⟩
  conditions := [⟨some "b", "name", .ne, .str "ann"⟩]
  groupBy := []
  limit := none

def selfClient : SchemaDrivenClient where
  schema := nameSchema
  relations := [⟨"knows", .neighbors (some "knows"), none⟩]
  serverProtocolVersion := 22
  currentTable := none
  tableSchemas := ∅

/-- Each column is that of the side it is qualified with, and so is the condition. -/
theorem join_names_self : letI := asciiTables
    ∃ made rows, (Program.run (answerPair "ann" "bob")
        (queryJoin selfJoin ⟨"person", some "b", "knows"⟩ selfClient) ()).1.1 = .ok rows ∧
      rows = [⟨Uuid.ofNat 1, Uuid.ofNat 2, [("a.name", .str "ann"), ("b.name", .str "bob")]⟩] ∧
      JoinedBy selfJoin.resolvedSide selfJoin selfClient made rows ∧
      ∀ qualifier ∈ selfJoin.qualifiers,
        selfJoin.designates qualifier = some (selfJoin.resolvedSide qualifier) := by
  let _ := asciiTables
  have hParse :
      parse 90 "SELECT a.name, b.name FROM person a JOIN person b ON knows WHERE b.name != 'ann'" =
      some (.ok selfJoin) := by decide +kernel
  have hRows : (Program.run (answerPair "ann" "bob")
      (queryJoin selfJoin ⟨"person", some "b", "knows"⟩ selfClient) ()).1.1 =
        .ok [⟨Uuid.ofNat 1, Uuid.ofNat 2, [("a.name", .str "ann"), ("b.name", .str "bob")]⟩] := by
    decide +kernel
  obtain ⟨hTells, hSides⟩ := join_names hParse rfl
  obtain ⟨made, hMade⟩ : ∃ made, ∀ rows, (Program.run (answerPair "ann" "bob")
      (queryJoin selfJoin ⟨"person", some "b", "knows"⟩ selfClient) ()).1.1 = .ok rows →
        JoinedBy selfJoin.resolvedSide selfJoin selfClient made rows := (hTells selfClient).run ()
  refine ⟨made, _, hRows, rfl, hMade _ hRows, hSides.mpr ?_⟩
  rintro qualifier hMem ⟨hTable, -⟩
  have hNames : qualifier = "a" ∨ qualifier = "b" := by
    simpa [selfJoin, ParsedQuery.qualifiers, ParsedQuery.items] using hMem
  rcases hNames with rfl | rfl
  · exact absurd hTable (by decide)
  · exact absurd hTable (by decide)

/-- A cross-table join that names its first table by the table's name, which has an alias. -/
def hiddenJoin : ParsedQuery :=
  ⟨.named [.qualified "memory" "name"], "memory", some "m",
    some ⟨"entity", some "e", "mentions"⟩, [], [], none⟩

def hiddenClient : SchemaDrivenClient where
  schema := nameSchema
  relations := [⟨"mentions", .neighbors (some "mentions"), some "entity"⟩]
  serverProtocolVersion := 22
  currentTable := none
  tableSchemas := AList.singleton "entity" nameSchema

/-- The parser takes `memory.name` for the `FROM` table, and the client reads it from the other. -/
theorem hidden_reads_right : letI := asciiTables
    parse 80 "SELECT memory.name FROM memory m JOIN entity e ON mentions" = some (.ok hiddenJoin) ∧
      hiddenJoin.designates "memory" = some .left ∧ hiddenJoin.resolvedSide "memory" = .right ∧
      (Program.run (answerPair "of memory" "of entity")
          (queryJoin hiddenJoin ⟨"entity", some "e", "mentions"⟩ hiddenClient) ()).1.1 =
        .ok [⟨Uuid.ofNat 1, Uuid.ofNat 2, [("memory.name", .str "of entity")]⟩] := by
  let _ := asciiTables
  refine ⟨by decide +kernel, by decide, by decide, ?_⟩
  decide +kernel

end SchemaDrivenClient

end MultimodalDb
