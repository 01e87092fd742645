import MultimodalDb.Lib.Checks
import MultimodalDb.Server.SqlGrammar
import Mathlib.Logic.Basic

/-!
# The queries that are accepted

`Renders q sql` says that `sql` is some way to write `q`: a sequence of tokens that the grammar
derives for it, laid out with any white space. The trees with a rendering are the well formed ones
(`renders_iff`), and `parse` accepts the renderings of the queries whose qualifiers keep the rules,
and no other text (`parse_spec`).
-/

namespace MultimodalDb.Sql

/-! ## The rules of the qualifiers -/

namespace ParsedQuery

variable (query : ParsedQuery)

/-- A name of the query's tables, in any case. -/
def Among (names : List String) (qualifier : String) : Prop :=
  ∃ name ∈ names, eqIgnoreAsciiCase name qualifier = true

/-- The qualifier names one side, and not both. -/
def NamesOneSide (qualifier : String) : Prop :=
  Xor (Among query.leftNames qualifier) (Among query.rightNames qualifier)

def IsAggregate : ParsedColumnItem → Prop
  | .aggregate _ _ => True
  | _ => False

structure QualifierRules : Prop where
  noAggregates : query.join.isSome → (∀ item ∈ query.items, ¬ IsAggregate item) ∧ query.groupBy = []
  distinct : ∀ join, query.join = some join →
    eqIgnoreAsciiCase (query.tableAlias.getD query.table) (join.tableAlias.getD join.table) = false
  plain : ∀ name, .plain name ∈ query.items → query.join = none
  qualified : ∀ qualifier name, .qualified qualifier name ∈ query.items →
    query.NamesOneSide qualifier
  bare : ∀ condition ∈ query.conditions, condition.qualifier = none → query.join = none
  condition : ∀ condition ∈ query.conditions, ∀ qualifier, condition.qualifier = some qualifier →
    query.NamesOneSide qualifier

variable {query}

theorem any_among {names : List String} {qualifier : String} :
    names.any (eqIgnoreAsciiCase · qualifier) = true ↔ Among names qualifier := List.any_eq_true

theorem checkQualifier_ok {qualifier : String} :
    query.checkQualifier qualifier = .ok () ↔ query.NamesOneSide qualifier := by
  rw [NamesOneSide, ← any_among, ← any_among, checkQualifier]
  cases query.leftNames.any (eqIgnoreAsciiCase · qualifier) <;>
    cases query.rightNames.any (eqIgnoreAsciiCase · qualifier) <;> simp [Xor]

/-- The item is an aggregate call. -/
theorem any_aggregate {items : List ParsedColumnItem} :
    (items.any fun item => item matches .aggregate ..) = false ↔
      ∀ item ∈ items, ¬ IsAggregate item := by
  rw [List.any_eq_false]
  refine forall₂_congr fun item _ => ?_
  cases item <;> simp [IsAggregate]

theorem checkSides_ok : query.checkSides = .ok () ↔ ∀ join, query.join = some join →
    ((∀ item ∈ query.items, ¬ IsAggregate item) ∧ query.groupBy = []) ∧
      eqIgnoreAsciiCase (query.tableAlias.getD query.table) (join.tableAlias.getD join.table) =
        false := by
  rw [checkSides, ← any_aggregate]
  cases query.join with
  | none => simp
  | some join =>
    cases (query.items.any fun item => item matches .aggregate ..) <;>
      cases hSame : eqIgnoreAsciiCase (query.tableAlias.getD query.table)
        (join.tableAlias.getD join.table) <;>
      cases query.groupBy <;> simp [hSame]

theorem checkItem_ok {item : ParsedColumnItem} : query.checkItem item = .ok () ↔
    (∀ name, item = .plain name → query.join = none) ∧
      ∀ qualifier name, item = .qualified qualifier name → query.NamesOneSide qualifier := by
  cases item with
  | plain name => cases hJoin : query.join <;> simp [checkItem, hJoin]
  | qualified qualifier name => simp [checkItem, checkQualifier_ok]
  | aggregate func arg => simp [checkItem]

theorem checkCondition_ok {condition : ParsedCondition} : query.checkCondition condition = .ok () ↔
    (condition.qualifier = none → query.join = none) ∧
      ∀ qualifier, condition.qualifier = some qualifier → query.NamesOneSide qualifier := by
  rw [checkCondition]
  cases condition.qualifier with
  | none => cases query.join <;> simp
  | some qualifier => simp [checkQualifier_ok]

/-- **The check lets a query through where its qualifiers keep the rules.** -/
theorem validateQualifiers_ok : query.validateQualifiers = .ok () ↔ query.QualifierRules := by
  rw [validateQualifiers, bind_eq_ok, bind_eq_ok, forM_eq_ok, forM_eq_ok, checkSides_ok]
  simp only [checkItem_ok, checkCondition_ok]
  constructor
  · rintro ⟨hSides, hItems, hConditions⟩
    refine ⟨fun hJoin => ?_, fun join hJoin => (hSides join hJoin).2,
      fun name hMem => (hItems _ hMem).1 name rfl, fun qualifier name hMem =>
        (hItems _ hMem).2 _ _ rfl,
      fun condition hMem => (hConditions condition hMem).1,
      fun condition hMem => (hConditions condition hMem).2⟩
    obtain ⟨join, hJoin⟩ := Option.isSome_iff_exists.mp hJoin
    exact (hSides join hJoin).1
  · intro h
    refine ⟨fun join hJoin => ⟨h.noAggregates (by simp [hJoin]), h.distinct join hJoin⟩,
      fun item hMem => ⟨?_, ?_⟩, fun condition hMem =>
        ⟨h.bare condition hMem, h.condition condition hMem⟩⟩
    · rintro name rfl
      exact h.plain name hMem
    · rintro qualifier name rfl
      exact h.qualified qualifier name hMem

end ParsedQuery

/-! ## The trees that can be written -/

variable [CharTables]

def Spellable (t : Token) : Prop := ∃ text, Spells t text

def ValidName (name : String) : Prop := IsIdent name.toList

theorem spellable_ident {name : String} : Spellable (.ident name) ↔ ValidName name := by
  constructor
  · rintro ⟨_, h⟩
    cases h with
    | ident hIdent => exact hIdent
  · exact fun hIdent => ⟨_, .ident hIdent⟩

theorem spellable_str {s : String} : Spellable (.str s) ↔ '\'' ∉ s.toList := by
  constructor
  · rintro ⟨_, h⟩
    cases h with
    | str hQuote => exact hQuote
  · exact fun hQuote => ⟨_, .str hQuote⟩

omit [CharTables] in
theorem decimalValue_append (digits : List Char) (d : Char) :
    decimalValue (digits ++ [d]) = 10 * decimalValue digits + (d.toNat - '0'.toNat) := by
  rw [decimalValue, List.foldl_append]
  rfl

omit [CharTables] in
/-- Every natural number has a decimal text. -/
theorem exists_digits (m : Nat) : ∃ digits, IsDigits digits ∧ decimalValue digits = m := by
  have hDigit (k : Fin 10) : (Char.ofNat (48 + k)).isDigit = true ∧
      (Char.ofNat (48 + k)).toNat - '0'.toNat = k := by
    revert k
    decide
  induction m using Nat.strongRecOn with
  | ind m ih =>
    obtain ⟨hIs, hValue⟩ := hDigit ⟨m % 10, Nat.mod_lt m (by decide)⟩
    by_cases hSmall : m < 10
    · refine ⟨[Char.ofNat (48 + m % 10)], ⟨List.cons_ne_nil _ _, ?_⟩, ?_⟩
      · intro c hc
        obtain rfl := List.mem_singleton.mp hc
        exact hIs
      · have h := decimalValue_append [] (Char.ofNat (48 + m % 10))
        rw [List.nil_append, hValue] at h
        rw [h]
        change 10 * 0 + m % 10 = m
        omega
    · obtain ⟨digits, hDigits, hRest⟩ := ih (m / 10) (by omega)
      refine ⟨digits ++ [Char.ofNat (48 + m % 10)], ⟨by simp, ?_⟩, ?_⟩
      · intro c hc
        rcases List.mem_append.mp hc with hc | hc
        · exact hDigits.2 c hc
        · obtain rfl := List.mem_singleton.mp hc
          exact hIs
      · rw [decimalValue_append, hRest, hValue]
        change 10 * (m / 10) + m % 10 = m
        omega

theorem spellable_number (n : Int64) : Spellable (.number n) := by
  obtain ⟨digits, hDigits, hValue⟩ := exists_digits n.toInt.natAbs
  rcases Int.le_total 0 n.toInt with hNonneg | hNegative
  · exact ⟨digits, .number hDigits (by omega)⟩
  · exact ⟨'-' :: digits, .negative hDigits (by omega)⟩

theorem isIdent_alpha {name : String} (hNonempty : name.toList ≠ [])
    (hAlpha : ∀ c ∈ name.toList, c.isAlpha = true) : IsIdent name.toList := by
  have hStart (c : Char) (hc : c ∈ name.toList) : IsIdentStart c := by
    have hLetter := hAlpha c hc
    have hAscii : c.toNat < 128 := by
      have := Ascii.isAlpha_iff.mp hLetter
      omega
    exact .inl ((CharTables.isAlphabetic_ascii c hAscii).trans hLetter)
  exact ⟨fun c hc => hStart c (List.mem_of_mem_head? hc), hNonempty,
    fun c hc => isIdentChar_of_start (hStart c hc)⟩

/-- A keyword of letters can be written. -/
theorem exists_keyword (keyword : String) (hNonempty : keyword.toList ≠ [])
    (hAlpha : keyword.toList.all Char.isAlpha = true) :
    ∃ t, isKeywordToken keyword t = true ∧ Spellable t :=
  ⟨.ident keyword, decide_eq_true rfl,
    spellable_ident.mpr (isIdent_alpha hNonempty (List.all_eq_true.mp hAlpha))⟩

/-- Tokens that can each be written can be laid out one after another. -/
theorem exists_layout {ts : List Token} (h : ∀ t ∈ ts, Spellable t) : ∃ text, Layout ts text := by
  have hSpace : isWhitespace ' ' = true := by decide
  suffices ∃ text, Layout ts text ∧ ∀ c ∈ text.head?, c = ' ' by
    obtain ⟨text, hLayout, -⟩ := this
    exact ⟨text, hLayout⟩
  induction ts with
  | nil => exact ⟨[], layout_nil.mpr rfl, by simp⟩
  | cons t ts ih =>
    obtain ⟨rest, hRest, hHead⟩ := ih fun u hu => h u (List.mem_cons_of_mem t hu)
    obtain ⟨text, hSpells⟩ := h t List.mem_cons_self
    have hApart : NotAhead t.runsInto rest := by
      intro c hc
      obtain rfl := hHead c hc
      exact not_runsInto_white t hSpace
    have hGap : IsWhite [' '] := by
      intro c hc
      obtain rfl := List.mem_singleton.mp hc
      exact hSpace
    exact ⟨[' '] ++ (text ++ rest), .token hGap hSpells hApart hRest, by simp⟩

theorem Layout.spellable {ts : List Token} {text : List Char} (h : Layout ts text) :
    ∀ t ∈ ts, Spellable t := by
  induction h with
  | done => exact nofun
  | token _ hSpells _ _ ih =>
    intro u hu
    obtain rfl | hu := List.mem_cons.mp hu
    · exact ⟨_, hSpells⟩
    · exact ih u hu

/-- The value has a sequence of the grammar whose tokens can each be written. -/
def Writable {α : Type} (grammar : List Token → α → Prop) (a : α) : Prop :=
  ∃ ts, grammar ts a ∧ ∀ t ∈ ts, Spellable t

theorem writable_sepBy {α : Type} {sep : Token → Bool} {item : List Token → α → Prop}
    (hSep : ∃ t, sep t = true ∧ Spellable t) {as : List α} :
    Writable (SepBy sep item) as ↔ as ≠ [] ∧ ∀ a ∈ as, Writable item a := by
  constructor
  · rintro ⟨ts, hList, hSpellable⟩
    refine ⟨hList.ne_nil, ?_⟩
    induction hList with
    | @one ts a hItem =>
      intro b hb
      obtain rfl := List.mem_singleton.mp hb
      exact ⟨ts, hItem, hSpellable⟩
    | @more ts us s a as hItem _ _ ih =>
      simp only [List.forall_mem_append, List.forall_mem_cons] at hSpellable
      obtain ⟨hTs, -, hUs⟩ := hSpellable
      exact List.forall_mem_cons.mpr ⟨⟨ts, hItem, hTs⟩, ih hUs⟩
  · rintro ⟨hNonempty, hAll⟩
    obtain ⟨mark, hMark, hSpellable⟩ := hSep
    induction as with
    | nil => exact absurd rfl hNonempty
    | cons a as ih =>
      obtain ⟨⟨ts, hItem, hTs⟩, hRest⟩ := List.forall_mem_cons.mp hAll
      cases as with
      | nil => exact ⟨ts, .one hItem, hTs⟩
      | cons b bs =>
        obtain ⟨us, hList, hUs⟩ := ih (List.cons_ne_nil b bs) hRest
        refine ⟨ts ++ mark :: us, .more hItem hMark hList, ?_⟩
        simp only [List.forall_mem_append, List.forall_mem_cons]
        exact ⟨hTs, hSpellable, hUs⟩

theorem writable_ident {name : String} : Writable Grammar.Ident name ↔ ValidName name := by
  constructor
  · rintro ⟨ts, rfl, h⟩
    exact spellable_ident.mp (h _ List.mem_cons_self)
  · exact fun h => ⟨_, rfl, by simpa using spellable_ident.mpr h⟩

/-- A column item whose names are valid, and whose argument is one that its function takes. -/
inductive ValidItem : ParsedColumnItem → Prop where
  | plain {name : String} : ValidName name → ValidItem (.plain name)
  | qualified {qualifier name : String} :
      ValidName qualifier → ValidName name → ValidItem (.qualified qualifier name)
  | count : ValidItem (.aggregate .count .star)
  | field {f : AggregateFn} {field : String} :
      f ≠ .count → ValidName field → ValidItem (.aggregate f (.field field))

theorem validName_aggregate (f : AggregateFn) : ValidName (aggregateName f) := by
  have hAlpha : (aggregateName f).toList.all Char.isAlpha = true := by cases f <;> decide
  refine isIdent_alpha ?_ (List.all_eq_true.mp hAlpha)
  cases f <;> decide

theorem writable_columnItem {item : ParsedColumnItem} :
    Writable Grammar.ColumnItem item ↔ ValidItem item := by
  have hMarks : Spellable .dot ∧ Spellable .lParen ∧ Spellable .rParen ∧ Spellable .star :=
    ⟨⟨_, .dot⟩, ⟨_, .lParen⟩, ⟨_, .rParen⟩, ⟨_, .star⟩⟩
  have hName (f : AggregateFn) : Spellable (.ident (aggregateName f)) :=
    spellable_ident.mpr (validName_aggregate f)
  constructor
  · rintro ⟨ts, hItem, h⟩
    cases hItem with
    | plain =>
      simp only [List.forall_mem_cons, spellable_ident] at h
      exact .plain h.1
    | qualified =>
      simp only [List.forall_mem_cons, spellable_ident] at h
      exact .qualified h.1 h.2.2.1
    | count => exact .count
    | field hField =>
      simp only [List.forall_mem_cons, spellable_ident] at h
      exact .field hField h.2.2.1
  · intro h
    cases h with
    | plain h => exact ⟨_, .plain, by simpa [spellable_ident] using h⟩
    | qualified hQualifier hField =>
      exact ⟨_, .qualified, by simpa [spellable_ident, hMarks] using ⟨hQualifier, hField⟩⟩
    | count => exact ⟨_, .count (decide_eq_true rfl), by simp [hMarks, hName]⟩
    | field hField hValid =>
      exact ⟨_, .field hField (decide_eq_true rfl),
        by simpa [hMarks, hName, spellable_ident] using hValid⟩

def ValidColumns (columns : ParsedColumns) : Prop :=
  ∀ items, columns = .named items → items ≠ [] ∧ ∀ item ∈ items, ValidItem item

theorem writable_columns {columns : ParsedColumns} :
    Writable Grammar.Columns columns ↔ ValidColumns columns := by
  have hComma : ∃ t, isComma t = true ∧ Spellable t := ⟨.comma, rfl, _, .comma⟩
  constructor
  · rintro ⟨ts, hColumns, h⟩ items rfl
    cases hColumns with
    | named hList =>
      have hWritable := (writable_sepBy hComma).mp ⟨ts, hList, h⟩
      simpa only [writable_columnItem] using hWritable
  · intro h
    cases columns with
    | all => exact ⟨_, .all, by simpa using ⟨_, Spells.star⟩⟩
    | named items =>
      have hWritable := h items rfl
      simp only [← writable_columnItem] at hWritable
      obtain ⟨ts, hList, hTs⟩ := (writable_sepBy hComma).mpr hWritable
      exact ⟨ts, .named hList, hTs⟩

def ValidAlias (tableAlias : Option String) : Prop :=
  ∀ name, tableAlias = some name → ValidName name

theorem writable_tableRef {table : String} {tableAlias : Option String} :
    Writable Grammar.TableRef (table, tableAlias) ↔ ValidName table ∧ ValidAlias tableAlias := by
  constructor
  · rintro ⟨ts, hTable, h⟩
    cases hTable with
    | plain =>
      simp only [List.forall_mem_cons, spellable_ident] at h
      exact ⟨h.1, nofun⟩
    | as =>
      simp only [List.forall_mem_cons, spellable_ident] at h
      exact ⟨h.1, by rintro _ ⟨⟩; exact h.2.2.1⟩
    | bare =>
      simp only [List.forall_mem_cons, spellable_ident] at h
      exact ⟨h.1, by rintro _ ⟨⟩; exact h.2.1⟩
  · rintro ⟨hTable, hAlias⟩
    cases tableAlias with
    | none => exact ⟨_, .plain, by simpa [spellable_ident] using hTable⟩
    | some name =>
      obtain ⟨as, hAs, hSpellable⟩ := exists_keyword "AS" (by decide) (by decide)
      refine ⟨_, .as hAs, ?_⟩
      simpa [spellable_ident, hSpellable] using ⟨hTable, hAlias name rfl⟩

theorem writable_name {qualifier : Option String} {name : String} :
    Writable Grammar.Name (qualifier, name) ↔ ValidAlias qualifier ∧ ValidName name := by
  constructor
  · rintro ⟨ts, hName, h⟩
    cases hName with
    | bare =>
      simp only [List.forall_mem_cons, spellable_ident] at h
      exact ⟨nofun, h.1⟩
    | qualified =>
      simp only [List.forall_mem_cons, spellable_ident] at h
      exact ⟨by rintro _ ⟨⟩; exact h.1, h.2.2.1⟩
  · rintro ⟨hQualifier, hName⟩
    cases qualifier with
    | none => exact ⟨_, .bare, by simpa [spellable_ident] using hName⟩
    | some qualifier =>
      have hDot : Spellable .dot := ⟨_, .dot⟩
      exact ⟨_, .qualified,
        by simpa [spellable_ident, hDot] using ⟨hQualifier qualifier rfl, hName⟩⟩

/-- A literal with no quote within its text. -/
def ValidLiteral (value : Literal) : Prop := ∀ s, value = .str s → '\'' ∉ s.toList

theorem writable_literal {value : Literal} :
    (∃ t, Grammar.Lit t value ∧ Spellable t) ↔ ValidLiteral value := by
  constructor
  · rintro ⟨t, hLit, hSpellable⟩ s rfl
    cases hLit with
    | str => exact spellable_str.mp hSpellable
  · intro h
    cases value with
    | number n => exact ⟨_, .number, spellable_number n⟩
    | str s => exact ⟨_, .str, spellable_str.mpr (h s rfl)⟩
    | bool b =>
      cases b with
      | true =>
        obtain ⟨t, hTrue, hSpellable⟩ := exists_keyword "true" (by decide) (by decide)
        exact ⟨t, .true hTrue, hSpellable⟩
      | false =>
        obtain ⟨t, hFalse, hSpellable⟩ := exists_keyword "false" (by decide) (by decide)
        exact ⟨t, .false hFalse, hSpellable⟩

def ValidCondition (condition : ParsedCondition) : Prop :=
  (ValidAlias condition.qualifier ∧ ValidName condition.name) ∧ ValidLiteral condition.value

theorem spellable_comparator (op : CompareOp) : Spellable (comparatorToken op) := by
  cases op
  · exact ⟨_, .eq⟩
  · exact ⟨_, .ne⟩
  · exact ⟨_, .lt⟩
  · exact ⟨_, .le⟩
  · exact ⟨_, .gt⟩
  · exact ⟨_, .ge⟩

theorem writable_condition {condition : ParsedCondition} :
    Writable Grammar.Condition condition ↔ ValidCondition condition := by
  rw [ValidCondition, ← writable_name, ← writable_literal]
  constructor
  · rintro ⟨ts, hCondition, h⟩
    cases hCondition with
    | @mk ts qualifier name op t value hName hLit =>
      simp only [List.forall_mem_append, List.forall_mem_cons] at h
      exact ⟨⟨ts, hName, h.1⟩, t, hLit, h.2.2.1⟩
  · rintro ⟨⟨ts, hName, hTs⟩, t, hLit, hSpellable⟩
    refine ⟨_, .mk hName hLit, ?_⟩
    simp only [List.forall_mem_append, List.forall_mem_cons]
    exact ⟨hTs, spellable_comparator _, hSpellable, nofun⟩

theorem writable_joinClause {join : Option ParsedJoin} : Writable Grammar.JoinClause join ↔
    ∀ j, join = some j → (ValidName j.table ∧ ValidAlias j.tableAlias) ∧ ValidName j.relation := by
  constructor
  · rintro ⟨ts, hJoin, h⟩ j rfl
    cases hJoin with
    | join hJoin hTable hOn =>
      simp only [List.cons_append, List.forall_mem_append, List.forall_mem_cons, spellable_ident]
        at h
      exact ⟨writable_tableRef.mp ⟨_, hTable, h.2.1⟩, h.2.2.2.1⟩
  · intro h
    cases join with
    | none => exact ⟨_, .absent, nofun⟩
    | some j =>
      obtain ⟨hTable, hRelation⟩ := h j rfl
      obtain ⟨ts, hTable, hTs⟩ := writable_tableRef.mpr hTable
      obtain ⟨k, hJoin, hk⟩ := exists_keyword "JOIN" (by decide) (by decide)
      obtain ⟨on, hOn, ho⟩ := exists_keyword "ON" (by decide) (by decide)
      refine ⟨_, .join hJoin hTable hOn, ?_⟩
      simp only [List.cons_append, List.forall_mem_append, List.forall_mem_cons, spellable_ident]
      exact ⟨hk, hTs, ho, hRelation, nofun⟩

theorem writable_whereClause {conditions : List ParsedCondition} :
    Writable Grammar.WhereClause conditions ↔ ∀ c ∈ conditions, ValidCondition c := by
  have hAnd := exists_keyword "AND" (by decide) (by decide)
  constructor
  · rintro ⟨ts, hWhere, h⟩
    cases hWhere with
    | absent => exact nofun
    | conditions _ hList =>
      have hWritable := (writable_sepBy hAnd).mp ⟨_, hList, (List.forall_mem_cons.mp h).2⟩
      exact fun c hc => writable_condition.mp (hWritable.2 c hc)
  · intro h
    cases conditions with
    | nil => exact ⟨_, .absent, nofun⟩
    | cons c cs =>
      obtain ⟨ts, hList, hTs⟩ := (writable_sepBy hAnd).mpr
        ⟨List.cons_ne_nil c cs, fun c hc => writable_condition.mpr (h c hc)⟩
      obtain ⟨w, hWhere, hw⟩ := exists_keyword "WHERE" (by decide) (by decide)
      exact ⟨_, .conditions hWhere hList, List.forall_mem_cons.mpr ⟨hw, hTs⟩⟩

theorem writable_groupByClause {fields : List String} :
    Writable Grammar.GroupByClause fields ↔ ∀ field ∈ fields, ValidName field := by
  have hComma : ∃ t, isComma t = true ∧ Spellable t := ⟨.comma, rfl, _, .comma⟩
  constructor
  · rintro ⟨ts, hGroup, h⟩
    cases hGroup with
    | absent => exact nofun
    | fields _ _ hList =>
      simp only [List.forall_mem_cons] at h
      have hWritable := (writable_sepBy hComma).mp ⟨_, hList, h.2.2⟩
      exact fun field hMem => writable_ident.mp (hWritable.2 field hMem)
  · intro h
    cases fields with
    | nil => exact ⟨_, .absent, nofun⟩
    | cons f fs =>
      obtain ⟨ts, hList, hTs⟩ := (writable_sepBy hComma).mpr
        ⟨List.cons_ne_nil f fs, fun field hMem => writable_ident.mpr (h field hMem)⟩
      obtain ⟨g, hGroup, hg⟩ := exists_keyword "GROUP" (by decide) (by decide)
      obtain ⟨b, hBy, hb⟩ := exists_keyword "BY" (by decide) (by decide)
      refine ⟨_, .fields hGroup hBy hList, ?_⟩
      simp only [List.forall_mem_cons]
      exact ⟨hg, hb, hTs⟩

theorem writable_limitClause {limit : Option Nat} :
    Writable Grammar.LimitClause limit ↔ ∀ n, limit = some n → n < 2 ^ 63 := by
  constructor
  · rintro ⟨ts, hLimit, -⟩ n rfl
    cases hLimit with
    | @limit t n hLimit hNonneg =>
      have := n.toInt_lt
      omega
  · intro h
    cases limit with
    | none => exact ⟨_, .absent, nofun⟩
    | some n =>
      have hRange := h n rfl
      obtain ⟨l, hLimit, hl⟩ := exists_keyword "LIMIT" (by decide) (by decide)
      have hInt : (Int64.ofInt n).toInt = n := Int64.toInt_ofInt_of_le (by omega) (by omega)
      have hClause := Grammar.LimitClause.limit (n := Int64.ofInt n) hLimit (by omega)
      rw [hInt, Int.toNat_natCast] at hClause
      refine ⟨_, hClause, ?_⟩
      simp only [List.forall_mem_cons]
      exact ⟨hl, spellable_number _, nofun⟩

/-- A query of the grammar: its names are valid, its texts hold no quote, its limit is an `i64`. -/
structure WellFormed (query : ParsedQuery) : Prop where
  columns : ValidColumns query.columns
  table : ValidName query.table
  tableAlias : ValidAlias query.tableAlias
  join : ∀ join, query.join = some join →
    (ValidName join.table ∧ ValidAlias join.tableAlias) ∧ ValidName join.relation
  conditions : ∀ condition ∈ query.conditions, ValidCondition condition
  groupBy : ∀ field ∈ query.groupBy, ValidName field
  limit : ∀ limit, query.limit = some limit → limit < 2 ^ 63

theorem writable_query {query : ParsedQuery} : Writable Grammar.Query query ↔ WellFormed query := by
  constructor
  · rintro ⟨ts, hQuery, h⟩
    cases hQuery with
    | mk _ hColumns _ hTable hJoin hWhere hGroup hLimit =>
      simp only [List.forall_mem_append, List.forall_mem_cons] at h
      obtain ⟨-, hCs, -, hTs, hJs, hWs, hGs, hLs⟩ := h
      have hNames := writable_tableRef.mp ⟨_, hTable, hTs⟩
      exact ⟨writable_columns.mp ⟨_, hColumns, hCs⟩, hNames.1, hNames.2,
        writable_joinClause.mp ⟨_, hJoin, hJs⟩, writable_whereClause.mp ⟨_, hWhere, hWs⟩,
        writable_groupByClause.mp ⟨_, hGroup, hGs⟩, writable_limitClause.mp ⟨_, hLimit, hLs⟩⟩
  · intro h
    obtain ⟨cs, hColumns, hCs⟩ := writable_columns.mpr h.columns
    obtain ⟨ts, hTable, hTs⟩ := writable_tableRef.mpr ⟨h.table, h.tableAlias⟩
    obtain ⟨js, hJoin, hJs⟩ := writable_joinClause.mpr h.join
    obtain ⟨ws, hWhere, hWs⟩ := writable_whereClause.mpr h.conditions
    obtain ⟨gs, hGroup, hGs⟩ := writable_groupByClause.mpr h.groupBy
    obtain ⟨ls, hLimit, hLs⟩ := writable_limitClause.mpr h.limit
    obtain ⟨s, hSelect, hs⟩ := exists_keyword "SELECT" (by decide) (by decide)
    obtain ⟨f, hFrom, hf⟩ := exists_keyword "FROM" (by decide) (by decide)
    refine ⟨_, .mk hSelect hColumns hFrom hTable hJoin hWhere hGroup hLimit, ?_⟩
    simp only [List.forall_mem_append, List.forall_mem_cons]
    exact ⟨hs, hCs, hf, hTs, hJs, hWs, hGs, hLs⟩

/-! ## The front end -/

/-- The text is a way to write the query. -/
def Renders (query : ParsedQuery) (sql : String) : Prop :=
  ∃ ts, Grammar.Query ts query ∧ Layout ts sql.toList

theorem renders_iff {query : ParsedQuery} : (∃ sql, Renders query sql) ↔ WellFormed query := by
  rw [← writable_query]
  constructor
  · rintro ⟨sql, ts, hQuery, hLayout⟩
    exact ⟨ts, hQuery, hLayout.spellable⟩
  · rintro ⟨ts, hQuery, hSpellable⟩
    obtain ⟨text, hLayout⟩ := exists_layout hSpellable
    exact ⟨String.ofList text, ts, hQuery, by rwa [String.toList_ofList]⟩

theorem parse_spec {fuel : Nat} {sql : String} (hFuel : sql.toList.length + 1 < fuel) :
    (∃ r, parse fuel sql = some r) ∧ ∀ query, parse fuel sql = some (.ok query) ↔
      Renders query sql ∧ query.QualifierRules := by
  obtain ⟨r, hTokens⟩ := tokenize_ends hFuel
  rw [parse, hTokens]
  cases r with
  | error e =>
    refine ⟨⟨_, rfl⟩, fun query => ⟨(by simp), ?_⟩⟩
    rintro ⟨⟨ts, -, hLayout⟩, -⟩
    rw [(tokenize_iff hFuel).mpr hLayout] at hTokens
    cases hTokens
  | ok ts =>
    have hLayout := (tokenize_iff hFuel).mp hTokens
    have hLength := hLayout.length_le
    have hRenders {query : ParsedQuery} : Renders query sql ↔ Grammar.Query ts query := by
      refine ⟨?_, fun h => ⟨ts, h, hLayout⟩⟩
      rintro ⟨us, hQuery, hOther⟩
      rw [(tokenize_iff hFuel).mpr hOther] at hTokens
      cases hTokens
      exact hQuery
    have hTakes {found : ParsedQuery} {rest : List Token} :
        (SqlParser.query fuel).Takes ts found rest ↔ rest = [] ∧ Grammar.Query ts found :=
      SqlParser.takes_query (show sql.toList.length < fuel by omega) hLength
    obtain ⟨r, hQuery⟩ := SqlParser.query_ends (show sql.toList.length < fuel by omega) hLength
    simp only [Option.bind_eq_bind, Option.bind_some, hQuery]
    cases r with
    | error e =>
      refine ⟨⟨_, rfl⟩, fun query => ⟨(by simp), fun h => ?_⟩⟩
      have hTaken := hTakes.mpr ⟨rfl, hRenders.mp h.1⟩
      rw [Parser.Takes, hQuery] at hTaken
      cases hTaken
    | ok out =>
      obtain ⟨found, rest⟩ := out
      have hFound := (hTakes.mp hQuery).2
      have hOnly {query : ParsedQuery} (h : Renders query sql) : found = query := by
        have hTaken := hTakes.mpr ⟨rfl, hRenders.mp h⟩
        rw [Parser.Takes, hQuery] at hTaken
        cases hTaken
        rfl
      refine ⟨⟨_, rfl⟩, fun query => ?_⟩
      rw [← ParsedQuery.validateQualifiers_ok]
      change some (found.validateQualifiers.map fun _ => found) = some (.ok query) ↔ _
      cases hValid : found.validateQualifiers with
      | error e =>
        refine ⟨(by intro h; cases h), fun h => ?_⟩
        obtain rfl := hOnly h.1
        rw [hValid] at h
        cases h.2
      | ok u =>
        constructor
        · rintro ⟨⟩
          exact ⟨hRenders.mpr hFound, hValid⟩
        · rintro ⟨hQuery, -⟩
          rw [← hOnly hQuery]
          rfl

/-- **The front end reads the grammar.** Every well formed query whose qualifiers keep the rules can
be written, and is what `parse` returns for every way to write it; what `parse` accepts tokenizes to
a sequence that the grammar derives for the query it returns; and it returns on every text. -/
theorem front_end :
    (∀ query, WellFormed query → query.QualifierRules →
      (∃ sql, Renders query sql) ∧ ∀ sql fuel, Renders query sql → sql.toList.length + 1 < fuel →
        parse fuel sql = some (.ok query)) ∧
    ∀ sql fuel, sql.toList.length + 1 < fuel →
      ∃ r, parse fuel sql = some r ∧ ∀ query, r = .ok query →
        (WellFormed query ∧ query.QualifierRules) ∧
          ∃ ts, tokenize fuel sql = some (.ok ts) ∧ Grammar.Query ts query := by
  constructor
  · intro query hWellFormed hRules
    refine ⟨renders_iff.mpr hWellFormed, fun sql fuel hRenders hFuel => ?_⟩
    exact ((parse_spec hFuel).2 query).mpr ⟨hRenders, hRules⟩
  · intro sql fuel hFuel
    obtain ⟨⟨r, hParse⟩, hIff⟩ := parse_spec hFuel
    refine ⟨r, hParse, ?_⟩
    rintro query rfl
    obtain ⟨⟨ts, hQuery, hLayout⟩, hRules⟩ := (hIff query).mp hParse
    exact ⟨⟨renders_iff.mp ⟨sql, ts, hQuery, hLayout⟩, hRules⟩, ts,
      (tokenize_iff hFuel).mpr hLayout, hQuery⟩

/-- A join with two conditions and a limit. -/
def sampleQuery : ParsedQuery where
  columns := .named [.qualified "m" "content", .qualified "e" "label"]
  table := "memory"
  tableAlias := some "m"
  join := some ⟨"entity", some "e", "mentions"⟩
  conditions := [⟨some "m", "access_count", .ge, .number 2⟩, ⟨some "e", "kind", .ne, .str "person"⟩]
  groupBy := []
  limit := some 5

def sampleSql : String :=
  "select m.content, e.label FROM memory m JOIN entity e ON mentions\n" ++
    "  WHERE m.access_count >= 2 AND e.kind != 'person' LIMIT 5"

omit [CharTables] in
/-- The query is read from one text, and then from every other one of it, under the ASCII tables. -/
theorem front_end_sample : letI := asciiTables
    (∃ ts, tokenize 130 sampleSql = some (.ok ts) ∧ Grammar.Query ts sampleQuery) ∧
      ∀ sql fuel, Renders sampleQuery sql → sql.toList.length + 1 < fuel →
        parse fuel sql = some (.ok sampleQuery) := by
  let _ := asciiTables
  have hParse : parse 130 sampleSql = some (.ok sampleQuery) := by decide +kernel
  obtain ⟨r, hFound, hAccepted⟩ := front_end.2 sampleSql 130 (by decide +kernel)
  obtain ⟨⟨hWellFormed, hRules⟩, hTokens⟩ :=
    hAccepted sampleQuery (Option.some.inj (hFound.symm.trans hParse))
  exact ⟨hTokens, (front_end.1 sampleQuery hWellFormed hRules).2⟩

end MultimodalDb.Sql
