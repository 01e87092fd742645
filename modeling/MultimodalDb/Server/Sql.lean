import MultimodalDb.Lib.Ascii
import MultimodalDb.Lib.Parsing
import MultimodalDb.Server.Protocol

/-!
# The SQL front end

The client's `SELECT` parser: a tokenizer that walks the characters by position, a parser over the
tokens, and the check of the qualifiers. Loops take a bound on their rounds. A result is `none` when
a bound does not suffice, and where the source would index outside of the text.

What the language's library knows of Unicode beyond its white space comes as `CharTables`.
-/

namespace MultimodalDb.Sql

/-- The characters of Unicode's `White_Space`. -/
def isWhitespace (c : Char) : Bool :=
  (9 ≤ c.toNat && c.toNat ≤ 13) || c.toNat = 0x20 || c.toNat = 0x85 || c.toNat = 0xA0 ||
    c.toNat = 0x1680 || (0x2000 ≤ c.toNat && c.toNat ≤ 0x200A) || c.toNat = 0x2028 ||
    c.toNat = 0x2029 || c.toNat = 0x202F || c.toNat = 0x205F || c.toNat = 0x3000

/-- The tables of letters and numbers, as Unicode promises them, and what `{:?}` shows of a text. -/
class CharTables where
  isAlphabetic : Char → Bool
  isNumeric : Char → Bool
  debug : String → String
  isAlphabetic_ascii : ∀ c : Char, c.toNat < 128 → isAlphabetic c = c.isAlpha
  isNumeric_ascii : ∀ c : Char, c.toNat < 128 → isNumeric c = c.isDigit
  not_whitespace : ∀ c, isWhitespace c = true → isAlphabetic c = false ∧ isNumeric c = false

export CharTables (isAlphabetic isNumeric debug)

theorem isWhitespace_range {c : Char} (h : isWhitespace c = true) :
    (9 ≤ c.toNat ∧ c.toNat ≤ 13) ∨ c.toNat = 32 ∨ 128 ≤ c.toNat := by
  simp only [isWhitespace, Bool.or_eq_true, Bool.and_eq_true, decide_eq_true_eq] at h
  omega

/-- The tables of a language library that knows the ASCII letters and digits only. -/
@[reducible] def asciiTables : CharTables where
  isAlphabetic c := c.isAlpha
  isNumeric c := c.isDigit
  debug s := "\"" ++ s ++ "\""
  isAlphabetic_ascii _ _ := rfl
  isNumeric_ascii _ _ := rfl
  not_whitespace c h := by
    have hRange := isWhitespace_range h
    constructor
    · by_contra hAlpha
      have := Ascii.isAlpha_iff.mp (Bool.of_not_eq_false hAlpha)
      omega
    · by_contra hDigit
      have := Ascii.isDigit_iff.mp (Bool.of_not_eq_false hDigit)
      omega

variable [CharTables]

def isAlphanumeric (c : Char) : Bool := isAlphabetic c || isNumeric c

/-- What an identifier goes on with. -/
def isIdentChar (c : Char) : Bool := isAlphanumeric c || c = '_'

def asciiLower (s : String) : List Char := s.toList.map Char.toLower

def eqIgnoreAsciiCase (a b : String) : Bool := asciiLower a = asciiLower b

/-! ## The parsed query -/

inductive Literal where
  | number (n : Int64)
  | str (s : String)
  | bool (b : Bool)
  deriving DecidableEq

structure ParsedCondition where
  qualifier : Option String
  name : String
  op : CompareOp
  value : Literal
  deriving DecidableEq

inductive AggregateArg where
  | star
  | field (name : String)
  deriving DecidableEq

inductive ParsedColumnItem where
  | plain (name : String)
  | qualified (qualifier name : String)
  | aggregate (func : AggregateFn) (arg : AggregateArg)
  deriving DecidableEq

inductive ParsedColumns where
  | all
  | named (items : List ParsedColumnItem)
  deriving DecidableEq

structure ParsedJoin where
  table : String
  tableAlias : Option String
  relation : String
  deriving DecidableEq

structure ParsedQuery where
  columns : ParsedColumns
  table : String
  tableAlias : Option String
  join : Option ParsedJoin
  conditions : List ParsedCondition
  groupBy : List String
  limit : Option Nat
  deriving DecidableEq

inductive SqlParseError where
  | expected (what found : String)
  | unexpectedEnd
  | invalidNumber (text : String)
  | negativeLimit (n : Int64)
  | trailingInput (text : String)
  | unterminatedString
  | unexpectedCharacter (c : Char)
  | unknownAggregateFunction (name : String)
  | countRequiresStar
  | aggregateRequiresField (func : String)
  | joinWithAggregate
  | unqualifiedInJoin (name : String)
  | unknownQualifier (qualifier : String)
  | ambiguousQualifiers (name : String)
  deriving DecidableEq

/-! ## Tokens -/

inductive Token where
  | ident (s : String)
  | number (n : Int64)
  | str (s : String)
  | star
  | comma
  | eq
  | ne
  | lt
  | le
  | gt
  | ge
  | lParen
  | rParen
  | dot
  deriving DecidableEq

namespace Token

/-- The token as an error names it. -/
def display : Token → String
  | ident s => debug s
  | number n => toString n.toInt
  | str s => "'" ++ s ++ "'"
  | star => "*"
  | comma => ","
  | eq => "="
  | ne => "!="
  | lt => "<"
  | le => "<="
  | gt => ">"
  | ge => ">="
  | lParen => "("
  | rParen => ")"
  | dot => "."

end Token

/-- The value of a run of decimal digits. -/
def decimalValue (digits : List Char) : Nat :=
  digits.foldl (fun value d => 10 * value + (d.toNat - '0'.toNat)) 0

/-- Digits alone, at least one. -/
def parseDigits (digits : List Char) : Option Nat :=
  if digits ≠ [] ∧ digits.all Char.isDigit then some (decimalValue digits) else none

def i64OfInt (value : Int) : Option Int64 :=
  if -2 ^ 63 ≤ value ∧ value < 2 ^ 63 then some (Int64.ofInt value) else none

/-- `i64`'s `FromStr`: an optional sign, digits, and a value in range. -/
def parseI64 : List Char → Option Int64
  | '-' :: digits => (parseDigits digits).bind fun value => i64OfInt (-value)
  | '+' :: digits => (parseDigits digits).bind fun value => i64OfInt value
  | digits => (parseDigits digits).bind fun value => i64OfInt value

/-- The tokens of one or two characters that are no more than themselves, with their width. -/
def punctuation (c : Char) (next : Option Char) : Option (Token × Nat) :=
  if c = '*' then some (.star, 1)
  else if c = ',' then some (.comma, 1)
  else if c = '(' then some (.lParen, 1)
  else if c = ')' then some (.rParen, 1)
  else if c = '.' then some (.dot, 1)
  else if c = '=' then some (.eq, 1)
  else if c = '!' ∧ next = some '=' then some (.ne, 2)
  else if c = '<' ∧ next = some '=' then some (.le, 2)
  else if c = '<' then some (.lt, 1)
  else if c = '>' ∧ next = some '=' then some (.ge, 2)
  else if c = '>' then some (.gt, 1)
  else none

section Tokenize

variable (chars : List Char)

/-- The loop over a string literal, past its opening quote. -/
def quoted : Nat → Nat → List Char → Option (Except SqlParseError (Token × Nat))
  | 0, _, _ => none
  | fuel + 1, i, s =>
    match chars[i]? with
    | some c => if c = '\'' then some (.ok (.str (String.ofList s), i + 1))
      else quoted fuel (i + 1) (s ++ [c])
    | none => some (.error .unterminatedString)

/-- A number that starts at `start` and whose digits are read from `digits` on. -/
def number (fuel start digits : Nat) : Option (Except SqlParseError (Token × Nat)) := do
  let i ← scanWhile chars Char.isDigit fuel digits
  let text ← slice chars start i
  match parseI64 text with
  | some n => some (.ok (.number n, i))
  | none => some (.error (.invalidNumber (String.ofList text)))

def identifier (fuel start : Nat) : Option (Except SqlParseError (Token × Nat)) := do
  let i ← scanWhile chars isIdentChar fuel start
  let text ← slice chars start i
  some (.ok (.ident (String.ofList text), i))

/-- The token that `c`, the character at `i`, opens, and the position after it. -/
def nextToken (fuel i : Nat) (c : Char) : Option (Except SqlParseError (Token × Nat)) :=
  match punctuation c chars[i + 1]? with
  | some (token, width) => some (.ok (token, i + width))
  | none =>
    if c = '\'' then quoted chars fuel (i + 1) []
    else if c = '-' ∧ chars[i + 1]?.any Char.isDigit then number chars fuel i (i + 1)
    else if c.isDigit then number chars fuel i i
    else if isAlphabetic c || c = '_' then identifier chars fuel i
    else some (.error (.unexpectedCharacter c))

/-- The tokenizer's loop. -/
def tokenizeFrom : Nat → Nat → List Token → Option (Except SqlParseError (List Token))
  | 0, _, _ => none
  | fuel + 1, i, tokens =>
    match chars[i]? with
    | none => some (.ok tokens)
    | some c =>
      if isWhitespace c then tokenizeFrom fuel (i + 1) tokens
      else
        match nextToken chars fuel i c with
        | none => none
        | some (.error e) => some (.error e)
        | some (.ok (token, i)) => tokenizeFrom fuel i (tokens ++ [token])

end Tokenize

def tokenize (fuel : Nat) (input : String) : Option (Except SqlParseError (List Token)) :=
  tokenizeFrom input.toList fuel 0 []

/-! ## The parser -/

abbrev SqlParser := Parser Token SqlParseError

def isKeywordToken (keyword : String) : Token → Bool
  | .ident s => eqIgnoreAsciiCase s keyword
  | _ => false

def isComma (t : Token) : Bool := t = .comma

/-- The grammar's own keywords: what an alias without `AS` may not be. -/
def keywords : List String :=
  ["SELECT", "FROM", "WHERE", "AND", "GROUP", "BY", "LIMIT", "JOIN", "ON", "AS"]

def isKeyword (ident : String) : Bool := keywords.any (eqIgnoreAsciiCase ident)

namespace SqlParser

/-- The error for a token that is not what the grammar has here, or for the end. -/
def unexpected {α : Type} (what : String) : Option Token → SqlParser α
  | some other => Parser.fail (.expected what other.display)
  | none => Parser.fail .unexpectedEnd

def peekKeyword (keyword : String) : SqlParser Bool := do
  return (← Parser.peek).any (isKeywordToken keyword)

def expectKeyword (keyword : String) : SqlParser Unit := do
  match ← Parser.advance with
  | some (.ident s) =>
    if eqIgnoreAsciiCase s keyword then return () else unexpected (debug keyword) (some (.ident s))
  | other => unexpected (debug keyword) other

def ident : SqlParser String := do
  match ← Parser.advance with
  | some (.ident s) => return s
  | other => unexpected "an identifier" other

def comparator : SqlParser CompareOp := do
  match ← Parser.advance with
  | some .eq => return .eq
  | some .ne => return .ne
  | some .lt => return .lt
  | some .le => return .le
  | some .gt => return .gt
  | some .ge => return .ge
  | other => unexpected "a comparator (=, !=, <, <=, >, >=)" other

def literal : SqlParser Literal := do
  match ← Parser.advance with
  | some (.number n) => return .number n
  | some (.str s) => return .str s
  | some (.ident s) =>
    if eqIgnoreAsciiCase s "true" then return .bool true
    else if eqIgnoreAsciiCase s "false" then return .bool false
    else unexpected "a literal (a number, a 'string', true, or false)" (some (.ident s))
  | other => unexpected "a literal (a number, a 'string', true, or false)" other

def maybeQualified : SqlParser (Option String × String) := do
  let first ← ident
  if (← Parser.peek) = some .dot then
    let _ ← Parser.advance
    let name ← ident
    return (some first, name)
  else
    return (none, first)

def condition : SqlParser ParsedCondition := do
  let (qualifier, name) ← maybeQualified
  let op ← comparator
  let value ← literal
  return ⟨qualifier, name, op, value⟩

/-- An alias without `AS`: an identifier that is no keyword. -/
def bareAlias (table : String) : SqlParser (String × Option String) := do
  match ← Parser.peek with
  | some (.ident s) =>
    if isKeyword s then return (table, none)
    else
      let _ ← Parser.advance
      return (table, some s)
  | _ => return (table, none)

def tableRef : SqlParser (String × Option String) := do
  let table ← ident
  if ← peekKeyword "AS" then
    let _ ← Parser.advance
    let tableAlias ← ident
    return (table, some tableAlias)
  else
    bareAlias table

def aggFn (name : String) : Except SqlParseError AggregateFn :=
  let upper := name.toList.map Char.toUpper
  if upper = "COUNT".toList then .ok .count
  else if upper = "SUM".toList then .ok .sum
  else if upper = "AVG".toList then .ok .avg
  else if upper = "MIN".toList then .ok .min
  else if upper = "MAX".toList then .ok .max
  else .error (.unknownAggregateFunction name)

def expectRParen : SqlParser Unit := do
  match ← Parser.advance with
  | some .rParen => return ()
  | other => unexpected "')'" other

/-- `COUNT` takes `*` and every other function a field. -/
def checkArg (name : String) (func : AggregateFn) (arg : AggregateArg) :
    Except SqlParseError Unit :=
  match func, arg with
  | .count, .star => .ok ()
  | .count, .field _ => .error .countRequiresStar
  | _, .star => .error (.aggregateRequiresField name)
  | _, .field _ => .ok ()

def aggregateArg : SqlParser AggregateArg := do
  if (← Parser.peek) = some .star then
    let _ ← Parser.advance
    return .star
  else
    let name ← ident
    return .field name

def columnItem : SqlParser ParsedColumnItem := do
  let name ← ident
  let next ← Parser.peek
  if next = some .dot then
    let _ ← Parser.advance
    let field ← ident
    return .qualified name field
  else if next ≠ some .lParen then
    return .plain name
  else
    let _ ← Parser.advance
    let func ← Parser.ofExcept (aggFn name)
    let arg ← aggregateArg
    expectRParen
    Parser.ofExcept (checkArg name func arg)
    return .aggregate func arg

def columns (fuel : Nat) : SqlParser ParsedColumns := do
  if (← Parser.peek) = some .star then
    let _ ← Parser.advance
    return .all
  else
    let items ← Parser.listOf isComma columnItem fuel
    return .named items

def limitNumber : SqlParser Nat := do
  match ← Parser.advance with
  | some (.number n) =>
    if 0 ≤ n.toInt then return n.toInt.toNat else Parser.fail (.negativeLimit n)
  | other => unexpected "a non-negative number" other

/-! ### The clauses -/

/-- A clause that its keyword opens, or what its absence means. -/
def clause {α : Type} (keyword : String) (absent : α) (p : SqlParser α) : SqlParser α := do
  if ← peekKeyword keyword then
    let _ ← Parser.advance
    p
  else
    return absent

def joined : SqlParser (Option ParsedJoin) := do
  let (table, tableAlias) ← tableRef
  expectKeyword "ON"
  let relation ← ident
  return some ⟨table, tableAlias, relation⟩

def joinClause : SqlParser (Option ParsedJoin) := clause "JOIN" none joined

def whereClause (fuel : Nat) : SqlParser (List ParsedCondition) :=
  clause "WHERE" [] (Parser.listOf (isKeywordToken "AND") condition fuel)

def grouped (fuel : Nat) : SqlParser (List String) := do
  expectKeyword "BY"
  Parser.listOf isComma ident fuel

def groupByClause (fuel : Nat) : SqlParser (List String) := clause "GROUP" [] (grouped fuel)

def limited : SqlParser (Option Nat) := do
  let limit ← limitNumber
  return some limit

def limitClause : SqlParser (Option Nat) := clause "LIMIT" none limited

def expectEnd : SqlParser Unit := do
  match ← Parser.peek with
  | some remaining => Parser.fail (.trailingInput remaining.display)
  | none => return ()

def query (fuel : Nat) : SqlParser ParsedQuery := do
  expectKeyword "SELECT"
  let columns ← columns fuel
  expectKeyword "FROM"
  let (table, tableAlias) ← tableRef
  let join ← joinClause
  let conditions ← whereClause fuel
  let groupBy ← groupByClause fuel
  let limit ← limitClause
  expectEnd
  return ⟨columns, table, tableAlias, join, conditions, groupBy, limit⟩

end SqlParser

/-! ## The qualifiers -/

namespace ParsedQuery

variable (query : ParsedQuery)

def leftNames : List String := query.table :: query.tableAlias.toList

def rightNames : List String :=
  match query.join with
  | some join => join.table :: join.tableAlias.toList
  | none => []

def checkQualifier (qualifier : String) : Except SqlParseError Unit :=
  match query.leftNames.any (eqIgnoreAsciiCase · qualifier),
    query.rightNames.any (eqIgnoreAsciiCase · qualifier) with
  | true, true => .error (.ambiguousQualifiers qualifier)
  | false, false => .error (.unknownQualifier qualifier)
  | _, _ => .ok ()

def items : List ParsedColumnItem :=
  match query.columns with
  | .all => []
  | .named items => items

def checkSides : Except SqlParseError Unit :=
  match query.join with
  | none => .ok ()
  | some join =>
    if query.items.any (fun item => item matches .aggregate ..) || !query.groupBy.isEmpty then
      .error .joinWithAggregate
    else
      let leftAlias := query.tableAlias.getD query.table
      let rightAlias := join.tableAlias.getD join.table
      if eqIgnoreAsciiCase leftAlias rightAlias then .error (.ambiguousQualifiers leftAlias)
      else .ok ()

def checkItem : ParsedColumnItem → Except SqlParseError Unit
  | .plain name => if query.join.isSome then .error (.unqualifiedInJoin name) else .ok ()
  | .qualified qualifier _ => query.checkQualifier qualifier
  | .aggregate _ _ => .ok ()

def checkCondition (condition : ParsedCondition) : Except SqlParseError Unit :=
  match condition.qualifier with
  | none => if query.join.isSome then .error (.unqualifiedInJoin condition.name) else .ok ()
  | some qualifier => query.checkQualifier qualifier

def validateQualifiers : Except SqlParseError Unit := do
  query.checkSides
  query.items.forM query.checkItem
  query.conditions.forM query.checkCondition

end ParsedQuery

/-- **Parse one `SELECT` string end to end.** -/
def parse (fuel : Nat) (sql : String) : Option (Except SqlParseError ParsedQuery) := do
  match ← tokenize fuel sql with
  | .error e => some (.error e)
  | .ok tokens =>
    match ← SqlParser.query fuel tokens with
    | .error e => some (.error e)
    | .ok (query, _) => some (query.validateQualifiers.map fun _ => query)

end MultimodalDb.Sql
