import MultimodalDb.Server.Sql
import Mathlib.Data.Bool.AllAny

/-!
# What the tokenizer reads

`Spells` says how a token may be written, and `Layout` how a text lays out a sequence of tokens:
each behind white space that may be empty wherever the token before it does not run on into what
follows. The tokenizer returns a sequence of tokens exactly where the text is a layout of it
(`tokenize_iff`), and it returns on every text (`tokenize_ends`).
-/

namespace MultimodalDb.Sql

variable [CharTables]

/-! ## The spelling of a token -/

def IsIdentStart (c : Char) : Prop := isAlphabetic c = true ∨ c = '_'

/-- A lexically valid identifier. -/
def IsIdent (text : List Char) : Prop :=
  (∀ c ∈ text.head?, IsIdentStart c) ∧ text ≠ [] ∧ ∀ c ∈ text, isIdentChar c = true

def IsDigits (text : List Char) : Prop := text ≠ [] ∧ ∀ c ∈ text, c.isDigit = true

inductive Spells : Token → List Char → Prop where
  | ident {s : String} : IsIdent s.toList → Spells (.ident s) s.toList
  | number {n : Int64} {digits : List Char} :
      IsDigits digits → n.toInt = decimalValue digits → Spells (.number n) digits
  | negative {n : Int64} {digits : List Char} :
      IsDigits digits → n.toInt = -(decimalValue digits : Int) → Spells (.number n) ('-' :: digits)
  | str {s : String} : '\'' ∉ s.toList → Spells (.str s) ('\'' :: (s.toList ++ ['\'']))
  | star : Spells .star ['*']
  | comma : Spells .comma [',']
  | eq : Spells .eq ['=']
  | ne : Spells .ne ['!', '=']
  | lt : Spells .lt ['<']
  | le : Spells .le ['<', '=']
  | gt : Spells .gt ['>']
  | ge : Spells .ge ['>', '=']
  | lParen : Spells .lParen ['(']
  | rParen : Spells .rParen [')']
  | dot : Spells .dot ['.']

/-- The characters that a token would go on with. -/
def Token.runsInto : Token → Char → Bool
  | .ident _ => isIdentChar
  | .number _ => Char.isDigit
  | .lt | .gt => (· = '=')
  | _ => fun _ => false

def IsWhite (gap : List Char) : Prop := ∀ c ∈ gap, isWhitespace c = true

inductive Layout : List Token → List Char → Prop where
  | done {gap : List Char} : IsWhite gap → Layout [] gap
  | token {gap text rest : List Char} {t : Token} {ts : List Token} :
      IsWhite gap → Spells t text → NotAhead t.runsInto rest → Layout ts rest →
      Layout (t :: ts) (gap ++ (text ++ rest))

/-! ## The characters -/

/-- The characters that open a token of their own. -/
def symbols : List Char := ['*', ',', '(', ')', '.', '=', '!', '<', '>', '\'', '-']

theorem not_identStart_symbol {c : Char} (h : c ∈ symbols) : ¬ IsIdentStart c := by
  have hTable : ∀ c ∈ symbols, c.toNat < 128 ∧ c.isAlpha = false ∧ c ≠ '_' :=
    List.all_iff_forall_prop.mp (by decide)
  have hFacts := hTable c h
  rintro (hAlpha | rfl)
  · rw [CharTables.isAlphabetic_ascii c hFacts.1, hFacts.2.1] at hAlpha
    cases hAlpha
  · exact hFacts.2.2 rfl

theorem not_digit_identStart {c : Char} (h : IsIdentStart c) : c.isDigit = false := by
  by_contra hDigit
  have hRange := Ascii.isDigit_iff.mp (Bool.of_not_eq_false hDigit)
  rcases h with hAlpha | rfl
  · rw [CharTables.isAlphabetic_ascii c (by omega)] at hAlpha
    have := Ascii.isAlpha_iff.mp hAlpha
    omega
  · exact absurd hDigit (by decide)

theorem isIdentChar_of_start {c : Char} (h : IsIdentStart c) : isIdentChar c = true := by
  rcases h with hAlpha | rfl
  · simp [isIdentChar, isAlphanumeric, hAlpha]
  · simp [isIdentChar]

theorem not_white_identStart {c : Char} (h : IsIdentStart c) : isWhitespace c = false := by
  by_contra hWhite
  rw [Bool.not_eq_false] at hWhite
  rcases h with hAlpha | rfl
  · rw [(CharTables.not_whitespace c hWhite).1] at hAlpha
    cases hAlpha
  · exact absurd hWhite (by decide)

omit [CharTables] in
theorem not_white_digit {c : Char} (h : c.isDigit = true) : isWhitespace c = false := by
  by_contra hWhite
  have := isWhitespace_range (Bool.of_not_eq_false hWhite)
  have := Ascii.isDigit_iff.mp h
  omega

theorem not_runsInto_white (t : Token) {c : Char} (h : isWhitespace c = true) :
    t.runsInto c = false := by
  have hIdent : isIdentChar c = false := by
    obtain ⟨hAlpha, hNumeric⟩ := CharTables.not_whitespace c h
    have hUnderscore : c ≠ '_' := by
      rintro rfl
      exact absurd h (by decide)
    simp [isIdentChar, isAlphanumeric, hAlpha, hNumeric, hUnderscore]
  have hDigit : c.isDigit = false := by
    by_contra hDigit
    rw [not_white_digit (Bool.of_not_eq_false hDigit)] at h
    cases h
  have hEq : c ≠ '=' := by
    rintro rfl
    exact absurd h (by decide)
  cases t with
  | ident => exact hIdent
  | number => exact hDigit
  | lt => exact decide_eq_false hEq
  | gt => exact decide_eq_false hEq
  | _ => rfl

/-- A token's text opens with a character that is no white space. -/
theorem Spells.head {t : Token} {text : List Char} (h : Spells t text) :
    ∃ c cs, text = c :: cs ∧ isWhitespace c = false := by
  cases h with
  | @ident s hIdent =>
    obtain ⟨hStart, hNonempty, -⟩ := hIdent
    obtain ⟨c, cs, hText⟩ := List.exists_cons_of_ne_nil hNonempty
    rw [hText] at hStart ⊢
    exact ⟨c, cs, rfl, not_white_identStart (hStart c rfl)⟩
  | number hDigits =>
    obtain ⟨c, cs, rfl⟩ := List.exists_cons_of_ne_nil hDigits.1
    exact ⟨c, cs, rfl, not_white_digit (hDigits.2 c List.mem_cons_self)⟩
  | negative => exact ⟨_, _, rfl, by decide⟩
  | str => exact ⟨_, _, rfl, by decide⟩
  | _ => exact ⟨_, _, rfl, by decide⟩

/-! ## Numbers -/

omit [CharTables] in
theorem i64OfInt_eq_some {value : Int} {n : Int64} : i64OfInt value = some n ↔ n.toInt = value := by
  rw [i64OfInt]
  constructor
  · intro h
    split at h
    · next hRange =>
      cases h
      exact Int64.toInt_ofInt_of_le hRange.1 hRange.2
    · cases h
  · rintro rfl
    rw [if_pos ⟨n.le_toInt, n.toInt_lt⟩, Int64.ofInt_toInt]

omit [CharTables] in
theorem parseDigits_digits {digits : List Char} (h : IsDigits digits) :
    parseDigits digits = some (decimalValue digits) :=
  if_pos ⟨h.1, by simpa using h.2⟩

omit [CharTables] in
theorem parseI64_digits {digits : List Char} (h : IsDigits digits) {n : Int64} :
    parseI64 digits = some n ↔ n.toInt = decimalValue digits := by
  rw [← i64OfInt_eq_some]
  unfold parseI64
  split
  · exact absurd (h.2 '-' List.mem_cons_self) (by decide)
  · exact absurd (h.2 '+' List.mem_cons_self) (by decide)
  · rw [parseDigits_digits h, Option.bind_some]

omit [CharTables] in
theorem parseI64_negative {digits : List Char} (h : IsDigits digits) {n : Int64} :
    parseI64 ('-' :: digits) = some n ↔ n.toInt = -(decimalValue digits : Int) := by
  rw [← i64OfInt_eq_some]
  change (parseDigits digits).bind _ = _ ↔ _
  rw [parseDigits_digits h, Option.bind_some]

/-! ## One token -/

section OneToken

variable {chars : List Char} {fuel i : Nat}

theorem identifier_run {run rest : List Char} (h : chars.drop i = run ++ rest)
    (hLength : i ≤ chars.length) (hRun : ∀ c ∈ run, isIdentChar c = true)
    (hRest : NotAhead isIdentChar rest) (hFuel : run.length < fuel) :
    identifier chars fuel i = some (.ok (.ident (String.ofList run), i + run.length)) := by
  rw [identifier, scanWhile_run h hRun hRest hFuel]
  change (slice chars i (i + run.length)).bind _ = _
  rw [slice_of_drop h hLength]
  rfl

omit [CharTables] in
/-- A number: `lead`, which is a minus or nothing, and the run of digits. -/
theorem number_run (lead : List Char) {run rest : List Char}
    (h : chars.drop i = (lead ++ run) ++ rest)
    (hLength : i ≤ chars.length) (hRun : ∀ c ∈ run, c.isDigit = true)
    (hRest : NotAhead Char.isDigit rest) (hFuel : run.length < fuel) :
    number chars fuel i (i + lead.length) =
      match parseI64 (lead ++ run) with
      | some n => some (.ok (.number n, i + (lead ++ run).length))
      | none => some (.error (.invalidNumber (String.ofList (lead ++ run)))) := by
  have hDigits : chars.drop (i + lead.length) = run ++ rest :=
    drop_add_of_drop (by rw [h, List.append_assoc])
  have hEnd : i + lead.length + run.length = i + (lead ++ run).length := by
    rw [List.length_append]
    omega
  rw [number, scanWhile_run hDigits hRun hRest hFuel, hEnd]
  change (slice chars i _).bind _ = _
  rw [slice_of_drop h hLength]
  rfl

omit [CharTables] in
theorem quoted_run {body rest s : List Char} (h : chars.drop i = body ++ '\'' :: rest)
    (hBody : '\'' ∉ body) (hFuel : body.length < fuel) :
    quoted chars fuel i s =
      some (.ok (.str (String.ofList (s ++ body)), i + body.length + 1)) := by
  induction fuel generalizing i body s with
  | zero => omega
  | succ fuel ih =>
    cases body with
    | nil =>
      rw [quoted, getElem?_of_drop h]
      simp
    | cons c body =>
      obtain ⟨hHead, hTail⟩ : '\'' ≠ c ∧ '\'' ∉ body := by simpa using hBody
      rw [List.length_cons] at hFuel
      rw [quoted, getElem?_of_drop h]
      change (if c = '\'' then _ else _) = _
      rw [if_neg (Ne.symm hHead), ih (drop_succ_of_drop h) hTail (by omega), List.append_assoc,
        List.singleton_append, List.length_cons]
      congr 4
      omega

omit [CharTables] in
theorem quoted_open {s : List Char} (h : '\'' ∉ chars.drop i)
    (hFuel : (chars.drop i).length < fuel) :
    quoted chars fuel i s = some (.error .unterminatedString) := by
  induction fuel generalizing i s with
  | zero => omega
  | succ fuel ih =>
    cases hDrop : chars.drop i with
    | nil =>
      have hNone : chars[i]? = none := by rw [← List.head?_drop, hDrop, List.head?_nil]
      rw [quoted, hNone]
    | cons c rest =>
      rw [hDrop] at h hFuel
      obtain ⟨hHead, hTail⟩ : '\'' ≠ c ∧ '\'' ∉ rest := by simpa using h
      rw [← drop_succ_of_drop hDrop] at hTail hFuel
      rw [quoted, getElem?_of_drop hDrop]
      change (if c = '\'' then _ else _) = _
      rw [if_neg (Ne.symm hHead), ih hTail (by simpa using hFuel)]

omit [CharTables] in
theorem punctuation_none {c : Char} {next : Option Char}
    (h : c ∉ ['*', ',', '(', ')', '.', '=', '!', '<', '>']) : punctuation c next = none := by
  simp only [List.mem_cons, List.not_mem_nil, or_false, not_or] at h
  simp [punctuation, h]

omit [CharTables] in
/-- The arm of a chain of tests that was taken. -/
theorem taken_arm {β : Type} {p : Prop} [Decidable p] {a b : β} {others : Option β}
    (h : (if p then some a else others) = some b) : (p ∧ a = b) ∨ (¬ p ∧ others = some b) := by
  by_cases hp : p
  · rw [if_pos hp, Option.some.injEq] at h
    exact .inl ⟨hp, h⟩
  · rw [if_neg hp] at h
    exact .inr ⟨hp, h⟩

/-- The token that a text begins with, and what is left behind it. -/
def Begins (t : Token) (text rest : List Char) : Prop := Spells t text ∧ NotAhead t.runsInto rest

theorem punctuation_sound {c : Char} {cs : List Char} {t : Token} {width : Nat}
    (h : punctuation c cs.head? = some (t, width)) :
    ∃ text rest, c :: cs = text ++ rest ∧ width = text.length ∧ Begins t text rest := by
  have hOne {mark : Token} (hSpells : Spells mark [c]) (hRest : NotAhead mark.runsInto cs)
      (hMark : (mark, 1) = (t, width)) :
      ∃ text rest, c :: cs = text ++ rest ∧ width = text.length ∧ Begins t text rest := by
    cases hMark
    exact ⟨[c], cs, rfl, rfl, hSpells, hRest⟩
  have hTwo {mark : Token} (hSpells : Spells mark [c, '='])
      (hRest : ∀ rest, NotAhead mark.runsInto rest) (hNext : cs.head? = some '=')
      (hMark : (mark, 2) = (t, width)) :
      ∃ text rest, c :: cs = text ++ rest ∧ width = text.length ∧ Begins t text rest := by
    cases hMark
    cases cs with
    | nil => cases hNext
    | cons x rest =>
      cases hNext
      exact ⟨[c, '='], rest, rfl, rfl, hSpells, hRest rest⟩
  have hNever (rest : List Char) : NotAhead (fun _ => false) rest := fun _ _ => rfl
  have hAlone (hNext : ¬ cs.head? = some '=') : NotAhead (· = '=') cs := by
    intro x hx
    rw [decide_eq_false_iff_not]
    rintro rfl
    exact hNext hx
  unfold punctuation at h
  rcases taken_arm h with ⟨rfl, hMark⟩ | ⟨-, h⟩
  · exact hOne .star (hNever cs) hMark
  rcases taken_arm h with ⟨rfl, hMark⟩ | ⟨-, h⟩
  · exact hOne .comma (hNever cs) hMark
  rcases taken_arm h with ⟨rfl, hMark⟩ | ⟨-, h⟩
  · exact hOne .lParen (hNever cs) hMark
  rcases taken_arm h with ⟨rfl, hMark⟩ | ⟨-, h⟩
  · exact hOne .rParen (hNever cs) hMark
  rcases taken_arm h with ⟨rfl, hMark⟩ | ⟨-, h⟩
  · exact hOne .dot (hNever cs) hMark
  rcases taken_arm h with ⟨rfl, hMark⟩ | ⟨-, h⟩
  · exact hOne .eq (hNever cs) hMark
  rcases taken_arm h with ⟨⟨rfl, hNext⟩, hMark⟩ | ⟨-, h⟩
  · exact hTwo .ne hNever hNext hMark
  rcases taken_arm h with ⟨⟨rfl, hNext⟩, hMark⟩ | ⟨hLe, h⟩
  · exact hTwo .le hNever hNext hMark
  rcases taken_arm h with ⟨rfl, hMark⟩ | ⟨-, h⟩
  · exact hOne .lt (hAlone fun hNext => hLe ⟨rfl, hNext⟩) hMark
  rcases taken_arm h with ⟨⟨rfl, hNext⟩, hMark⟩ | ⟨hGe, h⟩
  · exact hTwo .ge hNever hNext hMark
  rcases taken_arm h with ⟨rfl, hMark⟩ | ⟨-, h⟩
  · exact hOne .gt (hAlone fun hNext => hGe ⟨rfl, hNext⟩) hMark
  · cases h

section NextToken

variable {c : Char} {cs : List Char} (hDrop : chars.drop i = c :: cs)
include hDrop

theorem nextToken_quote (hQuote : c = '\'') :
    nextToken chars fuel i c = quoted chars fuel (i + 1) [] := by
  rw [nextToken, punctuation_none (by subst hQuote; decide)]
  exact if_pos hQuote

theorem nextToken_digit (hDigit : c.isDigit = true) :
    nextToken chars fuel i c = number chars fuel i i := by
  have hSymbol : c ∉ symbols := by
    intro hMem
    have hNone : ∀ c ∈ symbols, c.isDigit = false := List.all_iff_forall_prop.mp (by decide)
    rw [hNone c hMem] at hDigit
    cases hDigit
  have hPunctuation : punctuation c chars[i + 1]? = none :=
    punctuation_none fun hMem => hSymbol (List.mem_append_left ['\'', '-'] hMem)
  have hQuote : c ≠ '\'' := by
    rintro rfl
    exact hSymbol (by decide)
  have hMinus : c ≠ '-' := by
    rintro rfl
    exact hSymbol (by decide)
  rw [nextToken, hPunctuation]
  simp [hQuote, hMinus, hDigit]

theorem nextToken_minus (hMinus : c = '-') (hDigit : cs.head?.any Char.isDigit = true) :
    nextToken chars fuel i c = number chars fuel i (i + 1) := by
  subst hMinus
  rw [nextToken, punctuation_none (by decide), getElem?_succ_of_drop hDrop]
  simp [hDigit]

theorem nextToken_ident (hStart : IsIdentStart c) :
    nextToken chars fuel i c = identifier chars fuel i := by
  have hSymbol : c ∉ symbols := fun hMem => not_identStart_symbol hMem hStart
  have hPunctuation : punctuation c chars[i + 1]? = none :=
    punctuation_none fun hMem => hSymbol (List.mem_append_left ['\'', '-'] hMem)
  have hQuote : c ≠ '\'' := by
    rintro rfl
    exact hSymbol (by decide)
  have hMinus : c ≠ '-' := by
    rintro rfl
    exact hSymbol (by decide)
  have hIdent : (isAlphabetic c || decide (c = '_')) = true := by
    rcases hStart with hAlpha | rfl <;> simp [*]
  rw [nextToken, hPunctuation]
  simp [hQuote, hMinus, not_digit_identStart hStart, hIdent]

theorem nextToken_mark {t : Token} {width : Nat} (h : punctuation c cs.head? = some (t, width)) :
    nextToken chars fuel i c = some (.ok (t, i + width)) := by
  rw [nextToken, getElem?_succ_of_drop hDrop, h]

omit hDrop [CharTables] in
/-- A sign that may go on with `=` and does not. -/
theorem not_eq_ahead (h : NotAhead (· = '=') cs) : cs.head? ≠ some '=' := by
  intro hHead
  exact absurd (h '=' hHead) (by decide)

/-- **What the text begins with is the next token.** -/
theorem nextToken_complete (hFuel : cs.length + 1 < fuel) {t : Token} {text rest : List Char}
    (hText : c :: cs = text ++ rest) (hBegins : Begins t text rest) :
    nextToken chars fuel i c = some (.ok (t, i + text.length)) := by
  have hLength : i ≤ chars.length := by
    have := length_of_drop hDrop
    omega
  have hShort : text.length < fuel := by
    have := congrArg List.length hText
    rw [List.length_cons, List.length_append] at this
    omega
  obtain ⟨hSpells, hRest⟩ := hBegins
  cases hSpells with
  | @ident s hIdent =>
    have hStart : IsIdentStart c := by
      refine hIdent.1 c ?_
      obtain ⟨d, ds, hs⟩ := List.exists_cons_of_ne_nil hIdent.2.1
      rw [hs] at hText ⊢
      cases hText
      rfl
    rw [nextToken_ident hDrop hStart, identifier_run (hDrop.trans hText) hLength hIdent.2.2 hRest
      hShort, String.ofList_toList]
  | @number n digits hDigits hValue =>
    have hDigit : c.isDigit = true := by
      obtain ⟨d, ds, rfl⟩ := List.exists_cons_of_ne_nil hDigits.1
      cases hText
      exact hDigits.2 c List.mem_cons_self
    rw [nextToken_digit hDrop hDigit]
    have hRun := number_run [] (hDrop.trans hText) hLength hDigits.2 hRest hShort
    rw [List.length_nil, Nat.add_zero, List.nil_append, (parseI64_digits hDigits).mpr hValue]
      at hRun
    exact hRun
  | @negative n digits hDigits hValue =>
    obtain ⟨rfl, hDigitsText⟩ := List.cons.inj hText
    have hDigit : cs.head?.any Char.isDigit = true := by
      obtain ⟨d, ds, rfl⟩ := List.exists_cons_of_ne_nil hDigits.1
      rw [hDigitsText]
      exact hDigits.2 d List.mem_cons_self
    have hShorter : digits.length < fuel := Nat.lt_of_succ_lt hShort
    rw [nextToken_minus hDrop rfl hDigit]
    have hRun := number_run ['-'] (hDrop.trans hText) hLength hDigits.2 hRest hShorter
    rw [List.singleton_append, (parseI64_negative hDigits).mpr hValue] at hRun
    exact hRun
  | @str s hQuote =>
    obtain ⟨rfl, hBody⟩ : c = '\'' ∧ cs = s.toList ++ '\'' :: rest := by simpa using hText
    have hShorter : s.toList.length < fuel := by
      have hCs := congrArg List.length hBody
      rw [List.length_append] at hCs
      omega
    rw [nextToken_quote hDrop rfl, quoted_run ((drop_succ_of_drop hDrop).trans hBody) hQuote
      hShorter, List.nil_append, String.ofList_toList]
    have hEnd : i + 1 + s.toList.length + 1 = i + ('\'' :: (s.toList ++ ['\''])).length := by
      rw [List.length_cons, List.length_append, List.length_singleton]
      omega
    rw [hEnd]
  | lt =>
    cases hText
    exact nextToken_mark hDrop (by simp [punctuation, not_eq_ahead hRest])
  | gt =>
    cases hText
    exact nextToken_mark hDrop (by simp [punctuation, not_eq_ahead hRest])
  | _ =>
    cases hText
    exact nextToken_mark hDrop rfl

omit hDrop in
theorem begins_ident (hStart : IsIdentStart c) :
    ∃ t text rest, c :: cs = text ++ rest ∧ Begins t text rest := by
  obtain ⟨run, rest, hText, hRun, hRest⟩ := exists_run isIdentChar (c :: cs)
  cases run with
  | nil =>
    obtain rfl : c :: cs = rest := hText
    rw [notAhead_cons, isIdentChar_of_start hStart] at hRest
    cases hRest
  | cons d run =>
    obtain ⟨rfl, hCs⟩ := List.cons.inj hText
    have hIdent : IsIdent (String.ofList (c :: run)).toList := by
      rw [String.toList_ofList]
      refine ⟨fun x hx => ?_, List.cons_ne_nil c run, hRun⟩
      cases hx
      exact hStart
    have hSpells := Spells.ident hIdent
    rw [String.toList_ofList] at hSpells
    exact ⟨_, c :: run, rest, hText, hSpells, hRest⟩

/-- What the text begins with, or else the error. -/
theorem begins_or_error (hFuel : cs.length + 1 < fuel) :
    (∃ t text rest, c :: cs = text ++ rest ∧ Begins t text rest) ∨
      ∃ e, nextToken chars fuel i c = some (.error e) := by
  have hLength : i ≤ chars.length := by
    have := length_of_drop hDrop
    omega
  cases hMark : punctuation c cs.head? with
  | some mark =>
    obtain ⟨t, width⟩ := mark
    obtain ⟨text, rest, hText, -, hBegins⟩ := punctuation_sound hMark
    exact .inl ⟨t, text, rest, hText, hBegins⟩
  | none =>
    by_cases hQuote : c = '\''
    · by_cases hClosed : '\'' ∈ cs
      · obtain ⟨body, rest, rfl, hBody⟩ := List.eq_append_cons_of_mem hClosed
        have hSpells : Spells (.str (String.ofList body)) ('\'' :: (body ++ ['\''])) := by
          have := Spells.str (s := String.ofList body) (by rwa [String.toList_ofList])
          rwa [String.toList_ofList] at this
        exact .inl ⟨_, _, rest, by simp [hQuote], hSpells, fun _ _ => rfl⟩
      · rw [← drop_succ_of_drop hDrop] at hClosed hFuel
        exact .inr ⟨_, by rw [nextToken_quote hDrop hQuote, quoted_open hClosed (by omega)]⟩
    by_cases hMinus : c = '-' ∧ cs.head?.any Char.isDigit = true
    · obtain ⟨rfl, hHead⟩ := hMinus
      obtain ⟨run, rest, rfl, hRun, hRest⟩ := exists_run Char.isDigit cs
      have hDigits : IsDigits run := by
        refine ⟨?_, hRun⟩
        rintro rfl
        cases rest with
        | nil => cases hHead
        | cons d rest =>
          rw [notAhead_cons] at hRest
          exact absurd hHead (by simp [hRest])
      rw [List.length_append] at hFuel
      have hNumber := number_run ['-'] hDrop hLength hRun hRest (show run.length < fuel by omega)
      cases hValue : parseI64 ('-' :: run) with
      | some n => exact .inl ⟨_, _, rest, rfl,
          .negative hDigits ((parseI64_negative hDigits).mp hValue), hRest⟩
      | none =>
        rw [List.singleton_append, hValue] at hNumber
        exact .inr ⟨_, (nextToken_minus hDrop rfl hHead).trans hNumber⟩
    by_cases hDigit : c.isDigit = true
    · obtain ⟨run, rest, hText, hRun, hRest⟩ := exists_run Char.isDigit (c :: cs)
      have hDigits : IsDigits run := by
        refine ⟨?_, hRun⟩
        rintro rfl
        obtain rfl : c :: cs = rest := hText
        rw [notAhead_cons, hDigit] at hRest
        cases hRest
      have hShort := congrArg List.length hText
      rw [List.length_cons, List.length_append] at hShort
      have hNumber :=
        number_run [] (hDrop.trans hText) hLength hRun hRest (show run.length < fuel by omega)
      cases hValue : parseI64 run with
      | some n => exact .inl ⟨_, run, rest, hText,
          .number hDigits ((parseI64_digits hDigits).mp hValue), hRest⟩
      | none =>
        rw [List.nil_append, hValue] at hNumber
        exact .inr ⟨_, (nextToken_digit hDrop hDigit).trans hNumber⟩
    by_cases hStart : IsIdentStart c
    · exact .inl (begins_ident hStart)
    · refine .inr ⟨.unexpectedCharacter c, ?_⟩
      have hIdent : (isAlphabetic c || decide (c = '_')) = false := by
        simpa [IsIdentStart] using hStart
      rw [nextToken, getElem?_succ_of_drop hDrop, hMark]
      simp [hQuote, hMinus, hDigit, hIdent]

theorem nextToken_ends (hFuel : cs.length + 1 < fuel) : ∃ r, nextToken chars fuel i c = some r := by
  rcases begins_or_error hDrop hFuel with ⟨t, text, rest, hText, hBegins⟩ | ⟨e, hError⟩
  · exact ⟨_, nextToken_complete hDrop hFuel hText hBegins⟩
  · exact ⟨_, hError⟩

theorem nextToken_sound (hFuel : cs.length + 1 < fuel) {t : Token} {j : Nat}
    (hNext : nextToken chars fuel i c = some (.ok (t, j))) :
    ∃ text rest, c :: cs = text ++ rest ∧ j = i + text.length ∧ Begins t text rest := by
  rcases begins_or_error hDrop hFuel with ⟨t', text, rest, hText, hBegins⟩ | ⟨e, hError⟩
  · rw [nextToken_complete hDrop hFuel hText hBegins] at hNext
    cases hNext
    exact ⟨text, rest, hText, rfl, hBegins⟩
  · rw [hError] at hNext
    cases hNext

end NextToken

end OneToken

/-! ## The whole text -/

theorem layout_white {c : Char} {cs : List Char} {ts : List Token}
    (hWhite : isWhitespace c = true) :
    Layout ts (c :: cs) ↔ Layout ts cs := by
  have hMore {gap : List Char} (hGap : IsWhite gap) : IsWhite (c :: gap) := by
    intro d hd
    obtain rfl | hd := List.mem_cons.mp hd
    · exact hWhite
    · exact hGap d hd
  constructor
  · intro h
    generalize hText : c :: cs = all at h
    cases h with
    | done hGap =>
      subst hText
      exact .done fun d hd => hGap d (List.mem_cons_of_mem c hd)
    | @token gap text rest t ts hGap hSpells hRest hLayout =>
      cases gap with
      | nil =>
        obtain ⟨d, ds, rfl, hBlack⟩ := hSpells.head
        cases hText
        rw [hWhite] at hBlack
        cases hBlack
      | cons d gap =>
        cases hText
        exact .token (fun x hx => hGap x (List.mem_cons_of_mem c hx)) hSpells hRest hLayout
  · intro h
    cases h with
    | done hGap => exact .done (hMore hGap)
    | token hGap hSpells hRest hLayout => exact .token (hMore hGap) hSpells hRest hLayout

theorem layout_black {c : Char} {cs : List Char} {ts : List Token}
    (hBlack : isWhitespace c = false) :
    Layout ts (c :: cs) ↔ ∃ t more text rest, ts = t :: more ∧ c :: cs = text ++ rest ∧
      Begins t text rest ∧ Layout more rest := by
  constructor
  · intro h
    generalize hText : c :: cs = all at h
    cases h with
    | done hGap =>
      subst hText
      rw [hGap c List.mem_cons_self] at hBlack
      cases hBlack
    | @token gap text rest t ts hGap hSpells hRest hLayout =>
      cases gap with
      | nil =>
        exact ⟨t, ts, text, rest, rfl, rfl, ⟨hSpells, hRest⟩, hLayout⟩
      | cons d gap =>
        cases hText
        rw [hGap c List.mem_cons_self] at hBlack
        cases hBlack
  · rintro ⟨t, more, text, rest, rfl, hText, hBegins, hLayout⟩
    rw [hText]
    exact .token (fun _ hc => absurd hc List.not_mem_nil) hBegins.1 hBegins.2 hLayout

theorem layout_nil {ts : List Token} : Layout ts [] ↔ ts = [] := by
  constructor
  · intro h
    generalize hText : [] = all at h
    cases h with
    | done => rfl
    | token _ hSpells =>
      obtain ⟨c, cs, rfl, -⟩ := hSpells.head
      simp at hText
  · rintro rfl
    exact .done fun _ hc => absurd hc List.not_mem_nil

theorem tokenizeFrom_spec {chars rest : List Char} {fuel i : Nat} {tokens : List Token}
    (hDrop : chars.drop i = rest) (hFuel : rest.length + 1 < fuel) :
    (∃ r, tokenizeFrom chars fuel i tokens = some r) ∧
      ∀ all, tokenizeFrom chars fuel i tokens = some (.ok all) ↔
        ∃ more, all = tokens ++ more ∧ Layout more rest := by
  induction fuel generalizing i tokens rest with
  | zero => omega
  | succ fuel ih =>
    cases rest with
    | nil =>
      have hEnd : chars[i]? = none := by rw [← List.head?_drop, hDrop, List.head?_nil]
      rw [tokenizeFrom, hEnd]
      refine ⟨⟨_, rfl⟩, fun all => ?_⟩
      simp only [Option.some.injEq, Except.ok.injEq, layout_nil]
      constructor
      · rintro rfl
        exact ⟨[], (List.append_nil tokens).symm, rfl⟩
      · rintro ⟨_, rfl, rfl⟩
        exact (List.append_nil tokens).symm
    | cons c cs =>
      rw [List.length_cons] at hFuel
      have hFuel : cs.length + 1 < fuel := by omega
      rw [tokenizeFrom, getElem?_of_drop hDrop]
      dsimp only
      cases hWhite : isWhitespace c with
      | true =>
        rw [if_pos rfl]
        obtain ⟨hEnds, hReads⟩ := ih (drop_succ_of_drop hDrop) hFuel
        exact ⟨hEnds, fun all => by simp only [hReads, layout_white hWhite]⟩
      | false =>
        rw [if_neg Bool.false_ne_true]
        have hAfter {t : Token} {text rest : List Char} (hText : c :: cs = text ++ rest)
            (hBegins : Begins t text rest) :
            chars.drop (i + text.length) = rest ∧ rest.length + 1 < fuel := by
          obtain ⟨d, ds, rfl, -⟩ := hBegins.1.head
          have hLength := congrArg List.length hText
          rw [List.length_cons, List.length_append, List.length_cons] at hLength
          exact ⟨drop_add_of_drop (hDrop.trans hText), by omega⟩
        obtain ⟨r, hNext⟩ := nextToken_ends hDrop hFuel
        rw [hNext]
        cases r with
        | error e =>
          refine ⟨⟨_, rfl⟩, fun all => ⟨?_, ?_⟩⟩
          · intro h
            cases h
          rintro ⟨ts, -, hLayout⟩
          obtain ⟨t, more, text, rest, rfl, hText, hBegins, -⟩ := (layout_black hWhite).mp hLayout
          rw [nextToken_complete hDrop hFuel hText hBegins] at hNext
          cases hNext
        | ok out =>
          obtain ⟨t, j⟩ := out
          obtain ⟨text, rest, hText, rfl, hBegins⟩ := nextToken_sound hDrop hFuel hNext
          obtain ⟨hRest, hShort⟩ := hAfter hText hBegins
          obtain ⟨hEnds, hReads⟩ := ih hRest hShort
          refine ⟨hEnds, fun all => (hReads all).trans ⟨?_, ?_⟩⟩
          · rintro ⟨more, rfl, hLayout⟩
            exact ⟨t :: more, by rw [List.append_assoc, List.singleton_append],
              (layout_black hWhite).mpr ⟨t, more, text, rest, rfl, hText, hBegins, hLayout⟩⟩
          · rintro ⟨ts, rfl, hLayout⟩
            obtain ⟨t', more, text', rest', rfl, hText', hBegins', hLayout⟩ :=
              (layout_black hWhite).mp hLayout
            -- the tokenizer reads both, so they are one
            rw [nextToken_complete hDrop hFuel hText' hBegins'] at hNext
            obtain ⟨rfl, hEnd⟩ : t' = t ∧ i + text'.length = i + text.length := by
              simpa using hNext
            obtain rfl : rest' = rest := by
              rw [← hRest, ← hEnd, (hAfter hText' hBegins').1]
            exact ⟨more, by rw [List.append_assoc, List.singleton_append], hLayout⟩

/-- **The tokens of a text are those it is a layout of.** -/
theorem tokenize_iff {fuel : Nat} {sql : String} (hFuel : sql.toList.length + 1 < fuel)
    {ts : List Token} : tokenize fuel sql = some (.ok ts) ↔ Layout ts sql.toList := by
  rw [tokenize, (tokenizeFrom_spec List.drop_zero hFuel).2]
  constructor
  · rintro ⟨more, rfl, hLayout⟩
    exact hLayout
  · exact fun hLayout => ⟨ts, rfl, hLayout⟩

/-- **The tokenizer returns on every text.** -/
theorem tokenize_ends {fuel : Nat} {sql : String} (hFuel : sql.toList.length + 1 < fuel) :
    ∃ r, tokenize fuel sql = some r :=
  (tokenizeFrom_spec List.drop_zero hFuel).1

theorem Layout.length_le {ts : List Token} {text : List Char} (h : Layout ts text) :
    ts.length ≤ text.length := by
  induction h with
  | done => exact Nat.zero_le _
  | token _ hSpells _ _ ih =>
    obtain ⟨c, cs, rfl, -⟩ := hSpells.head
    simp only [List.length_cons, List.length_append]
    omega

end MultimodalDb.Sql
