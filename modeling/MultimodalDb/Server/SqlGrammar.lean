import MultimodalDb.Server.SqlTokens

/-!
# The grammar of a query

The grammar of the front end, one relation for each of its productions, between a sequence of tokens
and the tree it derives; and the parser's functions, each of which takes exactly what its production
derives, before what may follow it (`Parses`).
-/

namespace MultimodalDb.Sql

/-- The name of an aggregate function. -/
def aggregateName : AggregateFn → String
  | .count => "COUNT"
  | .sum => "SUM"
  | .avg => "AVG"
  | .min => "MIN"
  | .max => "MAX"

def comparatorToken : CompareOp → Token
  | .eq => .eq
  | .ne => .ne
  | .lt => .lt
  | .le => .le
  | .gt => .gt
  | .ge => .ge

namespace Grammar

def Ident (ts : List Token) (name : String) : Prop := ts = [.ident name]

/-- `qualified | ident`. -/
inductive Name : List Token → Option String × String → Prop where
  | bare {name : String} : Name [.ident name] (none, name)
  | qualified {qualifier name : String} :
      Name [.ident qualifier, .dot, .ident name] (some qualifier, name)

inductive TableRef : List Token → String × Option String → Prop where
  | plain {table : String} : TableRef [.ident table] (table, none)
  | as {table tableAlias : String} {as : Token} : isKeywordToken "AS" as = true →
      TableRef [.ident table, as, .ident tableAlias] (table, some tableAlias)
  | bare {table tableAlias : String} : isKeyword tableAlias = false →
      TableRef [.ident table, .ident tableAlias] (table, some tableAlias)

inductive ColumnItem : List Token → ParsedColumnItem → Prop where
  | plain {name : String} : ColumnItem [.ident name] (.plain name)
  | qualified {qualifier name : String} :
      ColumnItem [.ident qualifier, .dot, .ident name] (.qualified qualifier name)
  | count {func : String} : eqIgnoreAsciiCase func (aggregateName .count) = true →
      ColumnItem [.ident func, .lParen, .star, .rParen] (.aggregate .count .star)
  | field {func field : String} {f : AggregateFn} :
      f ≠ .count → eqIgnoreAsciiCase func (aggregateName f) = true →
      ColumnItem [.ident func, .lParen, .ident field, .rParen] (.aggregate f (.field field))

theorem ColumnItem.head {ts : List Token} {item : ParsedColumnItem} (h : ColumnItem ts item) :
    ∃ t more, ts = t :: more ∧ ∃ s, t = .ident s := by
  cases h <;> exact ⟨_, _, rfl, _, rfl⟩

inductive Columns : List Token → ParsedColumns → Prop where
  | all : Columns [.star] .all
  | named {ts : List Token} {items : List ParsedColumnItem} :
      SepBy isComma ColumnItem ts items → Columns ts (.named items)

inductive Lit : Token → Literal → Prop where
  | number {n : Int64} : Lit (.number n) (.number n)
  | str {s : String} : Lit (.str s) (.str s)
  | true {t : Token} : isKeywordToken "true" t = true → Lit t (.bool true)
  | false {t : Token} : isKeywordToken "false" t = true → Lit t (.bool false)

inductive Condition : List Token → ParsedCondition → Prop where
  | mk {ts : List Token} {qualifier : Option String} {name : String} {op : CompareOp} {t : Token}
      {value : Literal} : Name ts (qualifier, name) → Lit t value →
      Condition (ts ++ [comparatorToken op, t]) ⟨qualifier, name, op, value⟩

inductive JoinClause : List Token → Option ParsedJoin → Prop where
  | absent : JoinClause [] none
  | join {ts : List Token} {join on : Token} {table : String} {tableAlias : Option String}
      {relation : String} : isKeywordToken "JOIN" join = true → TableRef ts (table, tableAlias) →
      isKeywordToken "ON" on = true →
      JoinClause (join :: ts ++ [on, .ident relation]) (some ⟨table, tableAlias, relation⟩)

inductive WhereClause : List Token → List ParsedCondition → Prop where
  | absent : WhereClause [] []
  | conditions {ts : List Token} {where_ : Token} {conditions : List ParsedCondition} :
      isKeywordToken "WHERE" where_ = true →
      SepBy (isKeywordToken "AND") Condition ts conditions → WhereClause (where_ :: ts) conditions

inductive GroupByClause : List Token → List String → Prop where
  | absent : GroupByClause [] []
  | fields {ts : List Token} {group by_ : Token} {fields : List String} :
      isKeywordToken "GROUP" group = true → isKeywordToken "BY" by_ = true →
      SepBy isComma Ident ts fields → GroupByClause (group :: by_ :: ts) fields

inductive LimitClause : List Token → Option Nat → Prop where
  | absent : LimitClause [] none
  | limit {limit : Token} {n : Int64} : isKeywordToken "LIMIT" limit = true → 0 ≤ n.toInt →
      LimitClause [limit, .number n] (some n.toInt.toNat)

inductive Query : List Token → ParsedQuery → Prop where
  | mk {select from_ : Token} {cs ts js ws gs ls : List Token} {columns : ParsedColumns}
      {table : String} {tableAlias : Option String} {join : Option ParsedJoin}
      {conditions : List ParsedCondition} {groupBy : List String} {limit : Option Nat} :
      isKeywordToken "SELECT" select = true → Columns cs columns →
      isKeywordToken "FROM" from_ = true → TableRef ts (table, tableAlias) → JoinClause js join →
      WhereClause ws conditions → GroupByClause gs groupBy → LimitClause ls limit →
      Query (select :: (cs ++ from_ :: (ts ++ (js ++ (ws ++ (gs ++ ls))))))
        ⟨columns, table, tableAlias, join, conditions, groupBy, limit⟩

end Grammar

/-! ## The functions that read one token -/

namespace SqlParser

variable [CharTables] {ts rest : List Token}

theorem total_unexpected {α : Type} (what : String) (o : Option Token) :
    (unexpected what o : SqlParser α).Total := by
  cases o with
  | none => exact .fail _
  | some t => exact .fail _

@[simp] theorem not_takes_unexpected {α : Type} {what : String} {o : Option Token} {a : α} :
    ¬ (unexpected what o : SqlParser α).Takes ts a rest := by
  cases o <;> exact Parser.takes_fail

omit [CharTables] in
theorem total_peekKeyword (keyword : String) : (peekKeyword keyword).Total :=
  .bind .peek fun _ => .pure _

omit [CharTables] in
@[simp] theorem takes_peekKeyword_bind {β : Type} {keyword : String} {f : Bool → SqlParser β}
    {b : β} : (peekKeyword keyword >>= f).Takes ts b rest ↔
      (f (ts.head?.any (isKeywordToken keyword))).Takes ts b rest := by
  simp only [peekKeyword, Parser.takes_bind, Parser.takes_peek, Parser.takes_pure]
  constructor
  · rintro ⟨_, _, ⟨_, _, ⟨rfl, rfl⟩, rfl, rfl⟩, h⟩
    exact h
  · exact fun h => ⟨_, _, ⟨_, _, ⟨rfl, rfl⟩, rfl, rfl⟩, h⟩

omit [CharTables] in
@[simp] theorem ends_peekKeyword_bind {β : Type} {keyword : String} {f : Bool → SqlParser β} :
    (peekKeyword keyword >>= f).Ends ts ↔ (f (ts.head?.any (isKeywordToken keyword))).Ends ts :=
  Iff.rfl

theorem total_expectKeyword (keyword : String) : (expectKeyword keyword).Total := by
  refine .bind .advance fun o => ?_
  split
  · split
    · exact .pure ()
    · exact total_unexpected _ _
  · exact total_unexpected _ _

@[simp] theorem takes_expectKeyword {keyword : String} {u : Unit} :
    (expectKeyword keyword).Takes ts u rest ↔
      ∃ t, isKeywordToken keyword t = true ∧ ts = t :: rest := by
  rw [expectKeyword, Parser.takes_advance_bind]
  cases ts with
  | nil => simp
  | cons t ts =>
    cases t with
    | ident s =>
      simp only [List.head?_cons, List.tail_cons, List.cons.injEq]
      split <;> simp_all [isKeywordToken]
    | _ => simp [isKeywordToken]

theorem total_ident : ident.Total := by
  refine .bind .advance fun o => ?_
  split
  · exact .pure _
  · exact total_unexpected _ _

@[simp] theorem takes_ident {name : String} :
    ident.Takes ts name rest ↔ ts = .ident name :: rest := by
  rw [ident, Parser.takes_advance_bind]
  cases ts with
  | nil => simp
  | cons t ts => cases t <;> simp

@[simp] theorem takes_ident_bind {β : Type} {f : String → SqlParser β} {b : β} :
    (ident >>= f).Takes ts b rest ↔ ∃ name mid, ts = .ident name :: mid ∧
      (f name).Takes mid b rest := by
  simp only [Parser.takes_bind, takes_ident]

@[simp] theorem takes_expectKeyword_bind {β : Type} {keyword : String} {f : Unit → SqlParser β}
    {b : β} : (expectKeyword keyword >>= f).Takes ts b rest ↔
      ∃ t mid, isKeywordToken keyword t = true ∧ ts = t :: mid ∧ (f ()).Takes mid b rest := by
  simp only [Parser.takes_bind, takes_expectKeyword]
  constructor
  · rintro ⟨_, mid, ⟨t, hKeyword, rfl⟩, h⟩
    exact ⟨t, mid, hKeyword, rfl, h⟩
  · rintro ⟨t, mid, hKeyword, rfl, h⟩
    exact ⟨(), mid, ⟨t, hKeyword, rfl⟩, h⟩

theorem total_comparator : comparator.Total := by
  refine .bind .advance fun o => ?_
  split <;> first | exact .pure _ | exact total_unexpected _ _

@[simp] theorem takes_comparator {op : CompareOp} :
    comparator.Takes ts op rest ↔ ts = comparatorToken op :: rest := by
  rw [comparator, Parser.takes_advance_bind]
  cases ts with
  | nil => simp
  | cons t ts => cases t <;> cases op <;> simp [comparatorToken]

theorem total_literal : literal.Total := by
  refine .bind .advance fun o => ?_
  split
  · exact .pure _
  · exact .pure _
  · split
    · exact .pure _
    · split
      · exact .pure _
      · exact total_unexpected _ _
  · exact total_unexpected _ _

omit [CharTables] in
theorem not_true_and_false {s : String} (h : eqIgnoreAsciiCase s "false" = true) :
    eqIgnoreAsciiCase s "true" = false := by
  simp only [eqIgnoreAsciiCase, decide_eq_true_eq, decide_eq_false_iff_not] at h ⊢
  rw [h]
  decide

@[simp] theorem takes_literal {value : Literal} :
    literal.Takes ts value rest ↔ ∃ t, Grammar.Lit t value ∧ ts = t :: rest := by
  rw [literal, Parser.takes_advance_bind]
  cases ts with
  | nil => simp
  | cons t ts =>
    simp only [List.head?_cons, List.tail_cons, List.cons.injEq]
    constructor
    · intro h
      refine ⟨t, ?_⟩
      split at h
      · next n hToken =>
        cases hToken
        obtain ⟨rfl, rfl⟩ := Parser.takes_pure.mp h
        exact ⟨.number, rfl, rfl⟩
      · next s hToken =>
        cases hToken
        obtain ⟨rfl, rfl⟩ := Parser.takes_pure.mp h
        exact ⟨.str, rfl, rfl⟩
      · next s hToken =>
        cases hToken
        split at h
        · next hTrue =>
          obtain ⟨rfl, rfl⟩ := Parser.takes_pure.mp h
          exact ⟨.true hTrue, rfl, rfl⟩
        · split at h
          · next hFalse =>
            obtain ⟨rfl, rfl⟩ := Parser.takes_pure.mp h
            exact ⟨.false hFalse, rfl, rfl⟩
          · exact absurd h not_takes_unexpected
      · exact absurd h not_takes_unexpected
    · rintro ⟨t', hLit, rfl, rfl⟩
      cases hLit with
      | number => exact Parser.takes_pure.mpr ⟨rfl, rfl⟩
      | str => exact Parser.takes_pure.mpr ⟨rfl, rfl⟩
      | true hTrue =>
        cases t with
        | ident s =>
          have hTrue : eqIgnoreAsciiCase s "true" = true := hTrue
          change (if eqIgnoreAsciiCase s "true" = true then _ else _ : SqlParser Literal).Takes _ _
            _
          rw [if_pos hTrue]
          exact Parser.takes_pure.mpr ⟨rfl, rfl⟩
        | _ => cases hTrue
      | false hFalse =>
        cases t with
        | ident s =>
          have hFalse : eqIgnoreAsciiCase s "false" = true := hFalse
          change (if eqIgnoreAsciiCase s "true" = true then _ else _ : SqlParser Literal).Takes _ _
            _
          rw [not_true_and_false hFalse, if_neg Bool.false_ne_true, if_pos hFalse]
          exact Parser.takes_pure.mpr ⟨rfl, rfl⟩
        | _ => cases hFalse

/-! ## The functions that read a few tokens -/

theorem total_maybeQualified : maybeQualified.Total := by
  refine .bind total_ident fun first => .bind .peek fun next => ?_
  split
  · exact .bind .advance fun _ => .bind total_ident fun name => .pure _
  · exact .pure _

theorem parses_maybeQualified (n : Nat) :
    Parses n maybeQualified Grammar.Name (fun rest => rest.head? ≠ some .dot) where
  ends ts _ := total_maybeQualified ts
  sound hTakes := by
    simp only [maybeQualified, takes_ident_bind, Parser.takes_peek_bind] at hTakes
    obtain ⟨first, mid, rfl, hTakes⟩ := hTakes
    split at hTakes
    · next hDot =>
      obtain ⟨mid, rfl⟩ := List.head?_eq_some_iff.mp hDot
      simp only [Parser.takes_advance_bind, takes_ident_bind, List.tail_cons, Parser.takes_pure]
        at hTakes
      obtain ⟨name, mid, rfl, rfl, rfl⟩ := hTakes
      exact ⟨_, rfl, .qualified⟩
    · obtain ⟨rfl, rfl⟩ := Parser.takes_pure.mp hTakes
      exact ⟨_, rfl, .bare⟩
  complete hName hRest _ := by
    cases hName with
    | bare => simp [maybeQualified, hRest]
    | qualified => simp [maybeQualified]

theorem total_condition : condition.Total :=
  .bind total_maybeQualified fun _ => .bind total_comparator fun _ => .bind total_literal fun _ =>
    .pure _

theorem parses_condition (n : Nat) :
    Parses n condition Grammar.Condition (fun _ => True) where
  ends ts _ := total_condition ts
  sound hTakes := by
    simp only [condition, Parser.takes_bind, takes_comparator, takes_literal,
      Parser.takes_pure] at hTakes
    obtain ⟨⟨qualifier, name⟩, mid, hName, op, _, rfl, value, _, ⟨t, hLit, rfl⟩, rfl, rfl⟩ := hTakes
    obtain ⟨used, rfl, hUsed⟩ := (parses_maybeQualified n).sound hName
    exact ⟨used ++ [comparatorToken op, t], by simp, .mk hUsed hLit⟩
  complete {used a rest} hCondition _ _ := by
    cases hCondition with
    | @mk ts qualifier name op t value hName hLit =>
      have hNotDot : (comparatorToken op :: t :: rest).head? ≠ some .dot := by
        cases op <;> simp [comparatorToken]
      have hTakes := (parses_maybeQualified _).complete hName hNotDot (Nat.le_refl _)
      simp only [condition, Parser.takes_bind, takes_comparator, takes_literal, Parser.takes_pure,
        List.append_assoc, List.cons_append, List.nil_append]
      exact ⟨_, _, hTakes, op, _, rfl, value, _, ⟨t, hLit, rfl⟩, rfl, rfl⟩

/-- The end, or a keyword of a clause. -/
def ClauseAhead (keywords : List String) (rest : List Token) : Prop :=
  ∀ t ∈ rest.head?, ∃ keyword ∈ keywords, isKeywordToken keyword t = true

omit [CharTables] in
theorem ClauseAhead.mono {keywords more : List String} {rest : List Token}
    (h : ClauseAhead keywords rest) (hMore : ∀ k ∈ keywords, k ∈ more) : ClauseAhead more rest := by
  intro t ht
  obtain ⟨keyword, hMem, hKeyword⟩ := h t ht
  exact ⟨keyword, hMore keyword hMem, hKeyword⟩

omit [CharTables] in
theorem isKeywordToken_iff {keyword : String} {t : Token} :
    isKeywordToken keyword t = true ↔ ∃ s, t = .ident s ∧ asciiLower s = asciiLower keyword := by
  cases t <;> simp [isKeywordToken, eqIgnoreAsciiCase]

omit [CharTables] in
/-- A token is not two keywords. -/
theorem ClauseAhead.not_keyword {keywords : List String} {rest : List Token}
    (h : ClauseAhead keywords rest) (keyword : String)
    (hOther : ∀ k ∈ keywords, asciiLower k ≠ asciiLower keyword) :
    rest.head?.any (isKeywordToken keyword) = false := by
  cases hHead : rest.head? with
  | none => rfl
  | some t =>
    obtain ⟨other, hMem, hKeyword⟩ := h t hHead
    obtain ⟨s, rfl, hLower⟩ := isKeywordToken_iff.mp hKeyword
    rw [Option.any_some, isKeywordToken, eqIgnoreAsciiCase, decide_eq_false_iff_not]
    exact fun hSame => hOther other hMem (hLower.symm.trans hSame)

omit [CharTables] in
theorem isKeyword_of_lower {s keyword : String} (hMem : keyword ∈ keywords)
    (h : asciiLower s = asciiLower keyword) : isKeyword s = true :=
  List.any_eq_true.mpr ⟨keyword, hMem, decide_eq_true h⟩

omit [CharTables] in
theorem total_bareAlias (table : String) : (bareAlias table).Total := by
  refine .bind .peek fun next => ?_
  split
  · split
    · exact .pure _
    · exact .bind .advance fun _ => .pure _
  · exact .pure _

theorem total_tableRef : tableRef.Total := by
  refine .bind total_ident fun table => .bind (total_peekKeyword "AS") fun isAs => ?_
  split
  · exact .bind .advance fun _ => .bind total_ident fun _ => .pure _
  · exact total_bareAlias table

/-- The clauses that may follow a table. -/
def tableFollow : List String := ["JOIN", "ON", "WHERE", "GROUP", "LIMIT"]

omit [CharTables] in
theorem bareAlias_sound {table : String} {a : String × Option String}
    (hTakes : (bareAlias table).Takes ts a rest) :
    ∃ used, ts = used ++ rest ∧ Grammar.TableRef (.ident table :: used) a := by
  rw [bareAlias, Parser.takes_peek_bind] at hTakes
  split at hTakes
  · next s hHead =>
    obtain ⟨mid, rfl⟩ := List.head?_eq_some_iff.mp hHead
    split at hTakes
    · obtain ⟨rfl, rfl⟩ := Parser.takes_pure.mp hTakes
      exact ⟨[], rfl, .plain⟩
    · next hKeyword =>
      simp only [Parser.takes_advance_bind, List.tail_cons, Parser.takes_pure] at hTakes
      obtain ⟨rfl, rfl⟩ := hTakes
      exact ⟨_, rfl, .bare (Bool.eq_false_iff.mpr hKeyword)⟩
  · obtain ⟨rfl, rfl⟩ := Parser.takes_pure.mp hTakes
    exact ⟨[], rfl, .plain⟩

omit [CharTables] in
theorem bareAlias_absent {table : String} (hRest : ClauseAhead tableFollow rest) :
    (bareAlias table).Takes rest (table, none) rest := by
  rw [bareAlias, Parser.takes_peek_bind]
  split
  · next s hHead =>
    obtain ⟨keyword, hMem, hKeyword⟩ := hRest _ hHead
    obtain ⟨s', hs, hLower⟩ := isKeywordToken_iff.mp hKeyword
    cases hs
    have hAll : ∀ k ∈ tableFollow, k ∈ keywords := by decide
    rw [if_pos (isKeyword_of_lower (hAll keyword hMem) hLower)]
    exact Parser.takes_pure.mpr ⟨rfl, rfl⟩
  · exact Parser.takes_pure.mpr ⟨rfl, rfl⟩

theorem parses_tableRef (n : Nat) :
    Parses n tableRef Grammar.TableRef (ClauseAhead tableFollow) where
  ends ts _ := total_tableRef ts
  sound hTakes := by
    simp only [tableRef, takes_ident_bind, takes_peekKeyword_bind] at hTakes
    obtain ⟨table, mid, rfl, hTakes⟩ := hTakes
    split at hTakes
    · next hAs =>
      cases mid with
      | nil => cases hAs
      | cons as mid =>
        simp only [Parser.takes_advance_bind, takes_ident_bind, List.tail_cons,
          Parser.takes_pure] at hTakes
        obtain ⟨tableAlias, mid, rfl, rfl, rfl⟩ := hTakes
        exact ⟨_, rfl, .as hAs⟩
    · obtain ⟨used, rfl, hTable⟩ := bareAlias_sound hTakes
      exact ⟨_, rfl, hTable⟩
  complete {used a rest} hTable hRest _ := by
    cases hTable with
    | @plain table =>
      have hNotAs := hRest.not_keyword "AS" (by decide)
      simp only [tableRef, takes_ident_bind, takes_peekKeyword_bind]
      refine ⟨table, rest, rfl, ?_⟩
      rw [hNotAs, if_neg Bool.false_ne_true]
      exact bareAlias_absent hRest
    | @as table tableAlias as hAs => simp [tableRef, hAs]
    | @bare table tableAlias hKeyword =>
      have hNotAs : isKeywordToken "AS" (.ident tableAlias) = false := by
        by_contra hAs
        obtain ⟨_, hs, hLower⟩ := isKeywordToken_iff.mp (Bool.of_not_eq_false hAs)
        cases hs
        rw [isKeyword_of_lower (by decide) hLower] at hKeyword
        cases hKeyword
      simp [tableRef, bareAlias, hNotAs, hKeyword]

/-! ## The columns -/

omit [CharTables] in
/-- The upper case of a text is that of a name in upper case where it is the name, in any case. -/
theorem upper_eq_iff {s name : String} (hName : name.toList.map Char.toUpper = name.toList) :
    s.toList.map Char.toUpper = name.toList ↔ eqIgnoreAsciiCase s name = true := by
  rw [eqIgnoreAsciiCase, decide_eq_true_eq, asciiLower, asciiLower]
  constructor
  · intro h
    rw [← h, List.map_map]
    exact List.map_congr_left fun c _ => (Ascii.toLower_toUpper c).symm
  · intro h
    have hUpper := congrArg (List.map Char.toUpper) h
    simp only [List.map_map, Function.comp_def, Ascii.toUpper_toLower] at hUpper
    rw [hUpper, hName]

omit [CharTables] in
theorem aggFn_eq_ok {name : String} {func : AggregateFn} :
    aggFn name = .ok func ↔ eqIgnoreAsciiCase name (aggregateName func) = true := by
  have hUpper (f : AggregateFn) : name.toList.map Char.toUpper = (aggregateName f).toList ↔
      eqIgnoreAsciiCase name (aggregateName f) = true := upper_eq_iff (by cases f <;> decide)
  rw [← hUpper]
  generalize hName : name.toList.map Char.toUpper = upper
  simp only [aggFn, hName]
  constructor
  · intro h
    split_ifs at h with hCount hSum hAvg hMin hMax
    all_goals
      cases h
      assumption
  · rintro rfl
    cases func <;> rfl

theorem total_expectRParen : expectRParen.Total := by
  refine .bind .advance fun o => ?_
  split
  · exact .pure ()
  · exact total_unexpected _ _

@[simp] theorem takes_expectRParen_bind {β : Type} {f : Unit → SqlParser β} {b : β} :
    (expectRParen >>= f).Takes ts b rest ↔
      ∃ mid, ts = .rParen :: mid ∧ (f ()).Takes mid b rest := by
  have hTakes {ts mid : List Token} {u : Unit} :
      expectRParen.Takes ts u mid ↔ ts = .rParen :: mid := by
    rw [expectRParen, Parser.takes_advance_bind]
    cases ts with
    | nil => simp
    | cons t ts => cases t <;> simp
  simp only [Parser.takes_bind, hTakes]
  exact ⟨fun ⟨_, mid, h⟩ => ⟨mid, h⟩, fun ⟨mid, h⟩ => ⟨(), mid, h⟩⟩

theorem total_aggregateArg : aggregateArg.Total := by
  refine .bind .peek fun next => ?_
  split
  · exact .bind .advance fun _ => .pure _
  · exact .bind total_ident fun _ => .pure _

theorem takes_aggregateArg {arg : AggregateArg} : aggregateArg.Takes ts arg rest ↔
    (arg = .star ∧ ts = .star :: rest) ∨ ∃ name, arg = .field name ∧ ts = .ident name :: rest := by
  rw [aggregateArg, Parser.takes_peek_bind]
  cases ts with
  | nil => simp
  | cons t ts => cases t <;> simp [eq_comm, and_comm]

theorem total_columnItem : columnItem.Total := by
  refine .bind total_ident fun name => .bind .peek fun next => ?_
  split
  · exact .bind .advance fun _ => .bind total_ident fun _ => .pure _
  · split
    · exact .pure _
    · exact .bind .advance fun _ => .bind (.ofExcept _) fun _ => .bind total_aggregateArg fun _ =>
        .bind total_expectRParen fun _ => .bind (.ofExcept _) fun _ => .pure _

theorem columnItem_call {name : String} {func : AggregateFn} {arg : AggregateArg}
    (hName : eqIgnoreAsciiCase name (aggregateName func) = true)
    (hArg : aggregateArg.Takes ts arg (.rParen :: rest))
    (hCheck : checkArg name func arg = .ok ()) :
    columnItem.Takes (.ident name :: .lParen :: ts) (.aggregate func arg) rest := by
  simp only [columnItem, takes_ident_bind, Parser.takes_peek_bind]
  refine ⟨name, .lParen :: ts, rfl, ?_⟩
  rw [if_neg (by simp), if_neg (by simp), Parser.takes_advance_bind, List.tail_cons,
    Parser.takes_ofExcept_bind]
  refine ⟨func, aggFn_eq_ok.mpr hName, Parser.takes_bind.mpr ⟨arg, .rParen :: rest, hArg, ?_⟩⟩
  simp [hCheck]

/-- What would make a column item of a plain name something else. -/
def ItemFollow (rest : List Token) : Prop := rest.head? ≠ some .dot ∧ rest.head? ≠ some .lParen

theorem parses_columnItem (n : Nat) : Parses n columnItem Grammar.ColumnItem ItemFollow where
  ends ts _ := total_columnItem ts
  sound hTakes := by
    simp only [columnItem, takes_ident_bind, Parser.takes_peek_bind] at hTakes
    obtain ⟨name, mid, rfl, hTakes⟩ := hTakes
    split at hTakes
    · next hDot =>
      obtain ⟨mid, rfl⟩ := List.head?_eq_some_iff.mp hDot
      simp only [Parser.takes_advance_bind, takes_ident_bind, List.tail_cons,
        Parser.takes_pure] at hTakes
      obtain ⟨field, mid, rfl, rfl, rfl⟩ := hTakes
      exact ⟨_, rfl, .qualified⟩
    · split at hTakes
      · obtain ⟨rfl, rfl⟩ := Parser.takes_pure.mp hTakes
        exact ⟨_, rfl, .plain⟩
      · next hParen =>
        obtain ⟨mid, rfl⟩ := List.head?_eq_some_iff.mp (not_not.mp hParen)
        rw [Parser.takes_advance_bind, List.tail_cons, Parser.takes_ofExcept_bind] at hTakes
        obtain ⟨func, hName, hTakes⟩ := hTakes
        rw [aggFn_eq_ok] at hName
        rw [Parser.takes_bind] at hTakes
        obtain ⟨arg, _, hArg, hTakes⟩ := hTakes
        simp only [takes_expectRParen_bind, Parser.takes_ofExcept_bind, Parser.takes_pure] at hTakes
        obtain ⟨_, rfl, _, hCheck, rfl, rfl⟩ := hTakes
        rcases takes_aggregateArg.mp hArg with ⟨rfl, rfl⟩ | ⟨field, rfl, rfl⟩
        · have hCount : func = .count := by cases func <;> simp_all [checkArg]
          subst hCount
          exact ⟨_, rfl, .count hName⟩
        · have hField : func ≠ .count := by
            rintro rfl
            simp [checkArg] at hCheck
          exact ⟨_, rfl, .field hField hName⟩
  complete {used a rest} hItem hRest _ := by
    cases hItem with
    | plain => simp [columnItem, hRest.1, hRest.2]
    | qualified => simp [columnItem]
    | count hName =>
      exact columnItem_call hName (takes_aggregateArg.mpr (.inl ⟨rfl, rfl⟩)) rfl
    | @field func field f hField hName =>
      have hCheck : checkArg func f (.field field) = .ok () := by
        cases f with
        | count => exact absurd rfl hField
        | _ => rfl
      exact columnItem_call hName (takes_aggregateArg.mpr (.inr ⟨field, rfl, rfl⟩)) hCheck

/-- What follows the columns: the keyword `FROM`. -/
def FromAhead (rest : List Token) : Prop :=
  ∃ t mid, isKeywordToken "FROM" t = true ∧ rest = t :: mid

omit [CharTables] in
theorem FromAhead.not_ahead (h : FromAhead rest) {t : Token} (ht : ∀ s, t ≠ .ident s) :
    rest.head? ≠ some t := by
  obtain ⟨u, mid, hFrom, rfl⟩ := h
  obtain ⟨s, rfl, -⟩ := isKeywordToken_iff.mp hFrom
  intro hHead
  cases hHead
  exact ht s rfl

omit [CharTables] in
theorem itemFollow_comma {t : Token} {rest : List Token} (h : isComma t = true) :
    ItemFollow (t :: rest) := by
  obtain rfl : t = .comma := of_decide_eq_true h
  simp [ItemFollow]

theorem parses_columns {n fuel : Nat} (hFuel : n < fuel) :
    Parses n (columns fuel) Grammar.Columns FromAhead := by
  have hItems := (parses_columnItem n).listOf isComma (fun _ _ => itemFollow_comma) hFuel
  refine ⟨fun ts hLength => ?_, fun hTakes => ?_, fun {used a rest} hColumns hRest hLength => ?_⟩
  · rw [columns, Parser.ends_peek_bind]
    split
    · exact Parser.ends_pure
    · exact Parser.ends_bind (hItems.ends ts hLength) fun _ _ _ => Parser.ends_pure
  · rw [columns, Parser.takes_peek_bind] at hTakes
    split at hTakes
    · next hStar =>
      obtain ⟨mid, rfl⟩ := List.head?_eq_some_iff.mp hStar
      simp only [Parser.takes_advance_bind, List.tail_cons, Parser.takes_pure] at hTakes
      obtain ⟨rfl, rfl⟩ := hTakes
      exact ⟨_, rfl, .all⟩
    · obtain ⟨items, mid, hList, hTakes⟩ := Parser.takes_bind.mp hTakes
      obtain ⟨rfl, rfl⟩ := Parser.takes_pure.mp hTakes
      obtain ⟨used, rfl, hUsed⟩ := hItems.sound hList
      exact ⟨used, rfl, .named hUsed⟩
  · rw [columns, Parser.takes_peek_bind]
    cases hColumns with
    | all =>
      rw [if_pos (by rfl), Parser.takes_advance_bind]
      exact Parser.takes_pure.mpr ⟨rfl, rfl⟩
    | @named _ items hList =>
      have hNoStar : (used ++ rest).head? ≠ some .star := by
        obtain ⟨t, more, rfl, s, rfl⟩ := hList.head fun _ _ hItem => hItem.head
        simp
      have hFollow : ItemFollow rest :=
        ⟨hRest.not_ahead fun s => by simp, hRest.not_ahead fun s => by simp⟩
      have hStop : NotAhead isComma rest := by
        obtain ⟨t, mid, hFrom, rfl⟩ := hRest
        obtain ⟨s, rfl, -⟩ := isKeywordToken_iff.mp hFrom
        exact notAhead_cons.mpr rfl
      rw [if_neg hNoStar]
      exact Parser.takes_bind.mpr ⟨items, rest, hItems.complete hList ⟨hFollow, hStop⟩ hLength,
        Parser.takes_pure.mpr ⟨rfl, rfl⟩⟩

/-! ## The clauses -/

omit [CharTables] in
theorem clauseAhead_nil : ClauseAhead [] rest ↔ rest = [] := by
  cases rest with
  | nil => simp [ClauseAhead]
  | cons t rest => simp [ClauseAhead]

omit [CharTables] in
theorem clauseAhead_cons {keyword : String} {keywords : List String} {t : Token}
    (h : isKeywordToken keyword t = true) (hMem : keyword ∈ keywords) :
    ClauseAhead keywords (t :: rest) := by
  rintro _ ⟨⟩
  exact ⟨keyword, hMem, h⟩

omit [CharTables] in
/-- The keyword of a clause that may be left out. -/
theorem clauseAhead_append {keyword : String} {keywords : List String} (clause : List Token)
    (hClause : clause = [] ∨ ∃ t more, clause = t :: more ∧ isKeywordToken keyword t = true)
    (hRest : ClauseAhead keywords rest) : ClauseAhead (keyword :: keywords) (clause ++ rest) := by
  rcases hClause with rfl | ⟨t, more, rfl, hKeyword⟩
  · exact hRest.mono fun k hk => List.mem_cons_of_mem keyword hk
  · exact clauseAhead_cons hKeyword List.mem_cons_self

omit [CharTables] in
theorem parses_clause {α : Type} {n : Nat} {keyword : String} {p : SqlParser α} {absent : α}
    {grammar : List Token → α → Prop} {body : List Token → α → Prop} {keywords : List String}
    (hGrammar : ∀ ts a, grammar ts a ↔ (ts = [] ∧ a = absent) ∨
      ∃ t more, ts = t :: more ∧ isKeywordToken keyword t = true ∧ body more a)
    (hBody : Parses n p body (ClauseAhead keywords))
    (hOther : ∀ k ∈ keywords, asciiLower k ≠ asciiLower keyword) :
    Parses n (clause keyword absent p) grammar (ClauseAhead keywords) := by
  refine ⟨fun ts hLength => ?_, fun {ts a rest} hTakes => ?_,
    fun {used a rest} hUsed hRest hLength => ?_⟩
  · rw [clause, ends_peekKeyword_bind]
    split
    · rw [Parser.ends_advance_bind]
      exact hBody.ends ts.tail (by rw [List.length_tail]; omega)
    · exact Parser.ends_pure
  · rw [clause, takes_peekKeyword_bind] at hTakes
    split at hTakes
    · next hKeyword =>
      cases ts with
      | nil => cases hKeyword
      | cons t ts =>
        rw [Parser.takes_advance_bind, List.tail_cons] at hTakes
        obtain ⟨more, rfl, hMore⟩ := hBody.sound hTakes
        exact ⟨t :: more, rfl, (hGrammar _ _).mpr (.inr ⟨t, more, rfl, hKeyword, hMore⟩)⟩
    · obtain ⟨rfl, rfl⟩ := Parser.takes_pure.mp hTakes
      exact ⟨[], rfl, (hGrammar _ _).mpr (.inl ⟨rfl, rfl⟩)⟩
  · rw [clause, takes_peekKeyword_bind]
    rcases (hGrammar _ _).mp hUsed with ⟨rfl, rfl⟩ | ⟨t, more, rfl, hKeyword, hMore⟩
    · rw [List.nil_append, hRest.not_keyword _ hOther, if_neg Bool.false_ne_true]
      exact Parser.takes_pure.mpr ⟨rfl, rfl⟩
    · rw [List.cons_append, List.length_cons] at hLength
      rw [List.cons_append, List.head?_cons, Option.any_some, if_pos hKeyword,
        Parser.takes_advance_bind, List.tail_cons]
      exact hBody.complete hMore hRest (by omega)

/-- The body of a join. -/
def JoinBody (ts : List Token) (join : Option ParsedJoin) : Prop :=
  ∃ used on table tableAlias relation, Grammar.TableRef used (table, tableAlias) ∧
    isKeywordToken "ON" on = true ∧ ts = used ++ [on, .ident relation] ∧
    join = some ⟨table, tableAlias, relation⟩

theorem parses_joined (n : Nat) (keywords : List String) :
    Parses n joined JoinBody (ClauseAhead keywords) where
  ends ts _ := Parser.Total.bind total_tableRef (fun _ => .bind (total_expectKeyword "ON") fun _ =>
    .bind total_ident fun _ => .pure _) ts
  sound hTakes := by
    rw [joined, Parser.takes_bind] at hTakes
    obtain ⟨⟨table, tableAlias⟩, mid, hTable, hTakes⟩ := hTakes
    simp only [takes_expectKeyword_bind, takes_ident_bind, Parser.takes_pure] at hTakes
    obtain ⟨on, _, hOn, rfl, relation, _, rfl, rfl, rfl⟩ := hTakes
    obtain ⟨used, rfl, hUsed⟩ := (parses_tableRef n).sound hTable
    exact ⟨used ++ [on, .ident relation], by simp,
      used, on, table, tableAlias, relation, hUsed, hOn, rfl, rfl⟩
  complete {ts join rest} hBody _ hLength := by
    obtain ⟨used, on, table, tableAlias, relation, hUsed, hOn, rfl, rfl⟩ := hBody
    have hFollow : ClauseAhead tableFollow (on :: .ident relation :: rest) :=
      clauseAhead_cons hOn (by decide)
    rw [List.append_assoc] at hLength ⊢
    have hTable := (parses_tableRef n).complete hUsed hFollow hLength
    rw [joined, Parser.takes_bind]
    refine ⟨_, _, hTable, ?_⟩
    simp [hOn]

theorem parses_joinClause (n : Nat) :
    Parses n joinClause Grammar.JoinClause (ClauseAhead ["WHERE", "GROUP", "LIMIT"]) := by
  refine parses_clause (fun ts join => ⟨fun h => ?_, ?_⟩) (parses_joined n _) (by decide)
  · cases h with
    | absent => exact .inl ⟨rfl, rfl⟩
    | join hJoin hTable hOn => exact .inr ⟨_, _, rfl, hJoin, _, _, _, _, _, hTable, hOn, rfl, rfl⟩
  · rintro (⟨rfl, rfl⟩ | ⟨_, _, rfl, hJoin, _, _, _, _, _, hTable, hOn, rfl, rfl⟩)
    · exact .absent
    · exact .join hJoin hTable hOn

theorem parses_whereClause {n fuel : Nat} (hFuel : n < fuel) :
    Parses n (whereClause fuel) Grammar.WhereClause (ClauseAhead ["GROUP", "LIMIT"]) := by
  have hList := (parses_condition n).listOf (isKeywordToken "AND") (fun _ _ _ => trivial) hFuel
  have hBody : Parses n (Parser.listOf (isKeywordToken "AND") condition fuel)
      (SepBy (isKeywordToken "AND") Grammar.Condition) (ClauseAhead ["GROUP", "LIMIT"]) := by
    refine hList.follow_of fun rest hRest => ⟨trivial, fun t ht => ?_⟩
    have := hRest.not_keyword "AND" (by decide)
    rwa [ht, Option.any_some] at this
  refine parses_clause (fun ts conditions => ⟨fun h => ?_, ?_⟩) hBody (by decide)
  · cases h with
    | absent => exact .inl ⟨rfl, rfl⟩
    | conditions hWhere hConditions => exact .inr ⟨_, _, rfl, hWhere, hConditions⟩
  · rintro (⟨rfl, rfl⟩ | ⟨_, _, rfl, hWhere, hConditions⟩)
    · exact .absent
    · exact .conditions hWhere hConditions

theorem parses_ident (n : Nat) : Parses n ident Grammar.Ident (fun _ => True) where
  ends ts _ := total_ident ts
  sound hTakes := ⟨_, takes_ident.mp hTakes, rfl⟩
  complete hIdent _ _ := by
    obtain rfl := hIdent
    exact takes_ident.mpr rfl

def GroupByBody (ts : List Token) (fields : List String) : Prop :=
  ∃ by_ used, isKeywordToken "BY" by_ = true ∧ ts = by_ :: used ∧
    SepBy isComma Grammar.Ident used fields

theorem parses_grouped {n fuel : Nat} (hFuel : n < fuel) :
    Parses n (grouped fuel) GroupByBody (ClauseAhead ["LIMIT"]) := by
  have hList := (parses_ident n).listOf isComma (fun _ _ _ => trivial) hFuel
  refine ⟨fun ts hLength => ?_, fun {ts fields rest} hTakes => ?_,
    fun {ts fields rest} hBody hRest hLength => ?_⟩
  · refine Parser.ends_bind (total_expectKeyword "BY" ts) fun _ mid hBy => ?_
    obtain ⟨by_, -, rfl⟩ := takes_expectKeyword.mp hBy
    rw [List.length_cons] at hLength
    exact hList.ends mid (by omega)
  · rw [grouped, takes_expectKeyword_bind] at hTakes
    obtain ⟨by_, mid, hBy, rfl, hTakes⟩ := hTakes
    obtain ⟨used, rfl, hUsed⟩ := hList.sound hTakes
    exact ⟨by_ :: used, rfl, by_, used, hBy, rfl, hUsed⟩
  · obtain ⟨by_, used, hBy, rfl, hUsed⟩ := hBody
    have hStop : NotAhead isComma rest := by
      intro t ht
      obtain ⟨_, _, hKeyword⟩ := hRest t ht
      obtain ⟨s, rfl, -⟩ := isKeywordToken_iff.mp hKeyword
      rfl
    rw [List.cons_append, List.length_cons] at hLength
    rw [grouped, takes_expectKeyword_bind]
    exact ⟨by_, used ++ rest, hBy, rfl, hList.complete hUsed ⟨trivial, hStop⟩ (by omega)⟩

theorem parses_groupByClause {n fuel : Nat} (hFuel : n < fuel) :
    Parses n (groupByClause fuel) Grammar.GroupByClause (ClauseAhead ["LIMIT"]) := by
  refine parses_clause (fun ts fields => ⟨fun h => ?_, ?_⟩) (parses_grouped hFuel) (by decide)
  · cases h with
    | absent => exact .inl ⟨rfl, rfl⟩
    | fields hGroup hBy hFields => exact .inr ⟨_, _, rfl, hGroup, _, _, hBy, rfl, hFields⟩
  · rintro (⟨rfl, rfl⟩ | ⟨_, _, rfl, hGroup, _, _, hBy, rfl, hFields⟩)
    · exact .absent
    · exact .fields hGroup hBy hFields

theorem total_limitNumber : limitNumber.Total := by
  refine .bind .advance fun o => ?_
  split
  · split
    · exact .pure _
    · exact .fail _
  · exact total_unexpected _ _

theorem takes_limitNumber {limit : Nat} : limitNumber.Takes ts limit rest ↔
    ∃ n : Int64, 0 ≤ n.toInt ∧ limit = n.toInt.toNat ∧ ts = .number n :: rest := by
  rw [limitNumber, Parser.takes_advance_bind]
  cases ts with
  | nil => simp
  | cons t ts =>
    cases t with
    | number n =>
      simp only [List.head?_cons, List.tail_cons, List.cons.injEq, Token.number.injEq]
      split
      · next hNonneg =>
        rw [Parser.takes_pure]
        constructor
        · rintro ⟨rfl, rfl⟩
          exact ⟨n, hNonneg, rfl, rfl, rfl⟩
        · rintro ⟨_, _, rfl, rfl, rfl⟩
          exact ⟨rfl, rfl⟩
      · next hNegative =>
        constructor
        · exact fun h => absurd h Parser.takes_fail
        · rintro ⟨_, hNonneg, -, rfl, -⟩
          exact absurd hNonneg hNegative
    | _ => simp

def LimitBody (ts : List Token) (limit : Option Nat) : Prop :=
  ∃ n : Int64, 0 ≤ n.toInt ∧ ts = [.number n] ∧ limit = some n.toInt.toNat

theorem parses_limitClause (n : Nat) :
    Parses n limitClause Grammar.LimitClause (ClauseAhead []) := by
  have hBody : Parses n limited LimitBody (ClauseAhead []) := by
    refine ⟨fun ts _ => Parser.Total.bind total_limitNumber (fun _ => .pure _) ts,
      fun hTakes => ?_, fun hBody _ _ => ?_⟩
    · rw [limited, Parser.takes_bind] at hTakes
      obtain ⟨_, _, hNumber, hTakes⟩ := hTakes
      obtain ⟨rfl, rfl⟩ := Parser.takes_pure.mp hTakes
      obtain ⟨n, hNonneg, rfl, rfl⟩ := takes_limitNumber.mp hNumber
      exact ⟨[.number n], rfl, n, hNonneg, rfl, rfl⟩
    · obtain ⟨n, hNonneg, rfl, rfl⟩ := hBody
      rw [limited, Parser.takes_bind]
      exact ⟨_, _, takes_limitNumber.mpr ⟨n, hNonneg, rfl, rfl⟩, Parser.takes_pure.mpr ⟨rfl, rfl⟩⟩
  refine parses_clause (fun ts limit => ⟨fun h => ?_, ?_⟩) hBody (by decide)
  · cases h with
    | absent => exact .inl ⟨rfl, rfl⟩
    | limit hLimit hNonneg => exact .inr ⟨_, _, rfl, hLimit, _, hNonneg, rfl, rfl⟩
  · rintro (⟨rfl, rfl⟩ | ⟨_, _, rfl, hLimit, _, hNonneg, rfl, rfl⟩)
    · exact .absent
    · exact .limit hLimit hNonneg

/-! ## The whole query -/

theorem total_expectEnd : expectEnd.Total := by
  refine .bind .peek fun o => ?_
  split
  · exact .fail _
  · exact .pure _

theorem takes_expectEnd {u : Unit} : expectEnd.Takes ts u rest ↔ ts = [] ∧ rest = [] := by
  rw [expectEnd, Parser.takes_peek_bind]
  cases ts with
  | nil => simp [eq_comm]
  | cons t ts => simp

theorem query_ends {n fuel : Nat} (hFuel : n < fuel) (hLength : ts.length ≤ n) :
    (query fuel).Ends ts := by
  refine Parser.ends_bind (total_expectKeyword _ ts) fun _ ts₁ h => ?_
  obtain ⟨_, -, rfl⟩ := takes_expectKeyword.mp h
  rw [List.length_cons] at hLength
  refine Parser.ends_bind ((parses_columns hFuel).ends ts₁ (by omega)) fun _ ts₂ h => ?_
  have h₂ := (parses_columns hFuel).length_le h
  refine Parser.ends_bind (total_expectKeyword _ ts₂) fun _ ts₃ h => ?_
  obtain ⟨_, -, rfl⟩ := takes_expectKeyword.mp h
  rw [List.length_cons] at h₂
  refine Parser.ends_bind (total_tableRef ts₃) fun _ ts₄ h => ?_
  have h₄ := (parses_tableRef n).length_le h
  refine Parser.ends_bind ((parses_joinClause n).ends ts₄ (by omega)) fun _ ts₅ h => ?_
  have h₅ := (parses_joinClause n).length_le h
  refine Parser.ends_bind ((parses_whereClause hFuel).ends ts₅ (by omega)) fun _ ts₆ h => ?_
  have h₆ := (parses_whereClause hFuel).length_le h
  refine Parser.ends_bind ((parses_groupByClause hFuel).ends ts₆ (by omega)) fun _ ts₇ h => ?_
  have h₇ := (parses_groupByClause hFuel).length_le h
  refine Parser.ends_bind ((parses_limitClause n).ends ts₇ (by omega)) fun _ ts₈ h => ?_
  exact Parser.ends_bind (total_expectEnd ts₈) fun _ _ _ => Parser.ends_pure

/-- **The parser takes what the grammar derives, and all of it.** -/
theorem takes_query {n fuel : Nat} (hFuel : n < fuel) (hLength : ts.length ≤ n) {q : ParsedQuery} :
    (query fuel).Takes ts q rest ↔ rest = [] ∧ Grammar.Query ts q := by
  simp only [query, Parser.takes_bind, takes_expectKeyword, takes_expectEnd, Parser.takes_pure]
  constructor
  · rintro ⟨_, _, ⟨select, hSelect, rfl⟩, columns, _, hColumns, _, _, ⟨from_, hFrom, rfl⟩,
      ⟨table, tableAlias⟩, _, hTable, join, _, hJoin, conditions, _, hWhere, groupBy, _, hGroup,
      limit, _, hLimit, _, _, ⟨rfl, rfl⟩, rfl, rfl⟩
    obtain ⟨cs, rfl, dColumns⟩ := (parses_columns hFuel).sound hColumns
    obtain ⟨us, rfl, dTable⟩ := (parses_tableRef n).sound hTable
    obtain ⟨js, rfl, dJoin⟩ := (parses_joinClause n).sound hJoin
    obtain ⟨ws, rfl, dWhere⟩ := (parses_whereClause hFuel).sound hWhere
    obtain ⟨gs, rfl, dGroup⟩ := (parses_groupByClause hFuel).sound hGroup
    obtain ⟨ls, rfl, dLimit⟩ := (parses_limitClause n).sound hLimit
    rw [List.append_nil]
    exact ⟨rfl, .mk hSelect dColumns hFrom dTable dJoin dWhere dGroup dLimit⟩
  · rintro ⟨rfl, hQuery⟩
    cases hQuery with
    | @mk select from_ cs us js ws gs ls columns table tableAlias join conditions groupBy limit
        hSelect hColumns hFrom hTable hJoin hWhere hGroup hLimit =>
      -- what may follow each clause, from the last one on
      have hLimitAhead : ClauseAhead ["LIMIT"] ls := by
        have := clauseAhead_append ls (by
          cases hLimit with
          | absent => exact .inl rfl
          | limit hLimit _ => exact .inr ⟨_, _, rfl, hLimit⟩) (clauseAhead_nil.mpr rfl)
        rwa [List.append_nil] at this
      have hGroupAhead : ClauseAhead ["GROUP", "LIMIT"] (gs ++ ls) :=
        clauseAhead_append _ (by
          cases hGroup with
          | absent => exact .inl rfl
          | fields hGroup _ _ => exact .inr ⟨_, _, rfl, hGroup⟩) hLimitAhead
      have hWhereAhead : ClauseAhead ["WHERE", "GROUP", "LIMIT"] (ws ++ (gs ++ ls)) :=
        clauseAhead_append _ (by
          cases hWhere with
          | absent => exact .inl rfl
          | conditions hWhere _ => exact .inr ⟨_, _, rfl, hWhere⟩) hGroupAhead
      have hJoinAhead : ClauseAhead tableFollow (js ++ (ws ++ (gs ++ ls))) :=
        (clauseAhead_append _ (by
          cases hJoin with
          | absent => exact .inl rfl
          | join hJoin _ _ => exact .inr ⟨_, _, rfl, hJoin⟩) hWhereAhead).mono (by decide)
      simp only [List.length_cons, List.length_append] at hLength
      have hLs := (parses_limitClause n).complete hLimit (clauseAhead_nil.mpr rfl)
        (by rw [List.append_nil]; omega)
      rw [List.append_nil] at hLs
      refine ⟨(), _, ⟨select, hSelect, rfl⟩, columns, _,
        (parses_columns hFuel).complete hColumns ⟨from_, _, hFrom, rfl⟩ ?_, (), _,
        ⟨from_, hFrom, rfl⟩, _, _,
        (parses_tableRef n).complete hTable hJoinAhead ?_, join, _,
        (parses_joinClause n).complete hJoin hWhereAhead ?_, conditions, _,
        (parses_whereClause hFuel).complete hWhere hGroupAhead ?_, groupBy, _,
        (parses_groupByClause hFuel).complete hGroup hLimitAhead ?_, limit, _, hLs, (), [],
        ⟨rfl, rfl⟩, rfl, rfl⟩
      all_goals
        simp only [List.length_cons, List.length_append]
        omega

end SqlParser

end MultimodalDb.Sql
