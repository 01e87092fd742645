import MultimodalDb.Lib.Scanning

/-!
# Parsers and grammars

A parser goes from the tokens that are left to a value and the tokens left then, or to an error. It
is made of two moves, a look at the next token and a step past it; a loop takes a bound on its
rounds, and is `none` when that does not suffice.

A grammar is a relation between a sequence of tokens and the value it spells. `Parses` ties the two:
on at most `n` tokens the parser ends, what it takes off the front is a sequence of the grammar for
the value it returns, and it takes a sequence of the grammar whenever what comes after may follow.
-/

namespace MultimodalDb

def Parser (τ ε α : Type) : Type := List τ → Option (Except ε (α × List τ))

variable {τ ε α β : Type}

namespace Parser

protected def pure (a : α) : Parser τ ε α := fun ts => some (.ok (a, ts))

protected def bind (p : Parser τ ε α) (f : α → Parser τ ε β) : Parser τ ε β := fun ts =>
  match p ts with
  | none => none
  | some (.error e) => some (.error e)
  | some (.ok (a, rest)) => f a rest

instance : Monad (Parser τ ε) where
  pure := Parser.pure
  bind := Parser.bind

def fail (e : ε) : Parser τ ε α := fun _ => some (.error e)

def ofExcept : Except ε α → Parser τ ε α
  | .ok a => Parser.pure a
  | .error e => fail e

/-- The next token. -/
def peek : Parser τ ε (Option τ) := fun ts => some (.ok (ts.head?, ts))

/-- The next token, and past it. -/
def advance : Parser τ ε (Option τ) := fun ts => some (.ok (ts.head?, ts.tail))

/-- While the next token is a separator: past it, and another item. -/
def whileSep (sep : τ → Bool) (item : Parser τ ε α) : Nat → List α → Parser τ ε (List α)
  | 0, _ => fun _ => none
  | fuel + 1, items => do
    if (← peek).any sep then
      let _ ← advance
      let a ← item
      whileSep sep item fuel (items ++ [a])
    else
      return items

/-- One item, and more of them as long as separators follow. -/
def listOf (sep : τ → Bool) (item : Parser τ ε α) (fuel : Nat) : Parser τ ε (List α) := do
  let first ← item
  whileSep sep item fuel [first]

/-! ## What a parser takes -/

/-- From `ts` the parser returns `a` and leaves `rest`. -/
def Takes (p : Parser τ ε α) (ts : List τ) (a : α) (rest : List τ) : Prop :=
  p ts = some (.ok (a, rest))

/-- The parser returns, a value or an error. -/
def Ends (p : Parser τ ε α) (ts : List τ) : Prop := ∃ r, p ts = some r

section Takes

variable {p : Parser τ ε α} {f : α → Parser τ ε β} {ts rest : List τ} {a b : α}

@[simp] theorem takes_pure : (pure a : Parser τ ε α).Takes ts b rest ↔ a = b ∧ ts = rest := by
  change some (Except.ok (a, ts)) = some (Except.ok (b, rest)) ↔ _
  simp

@[simp] theorem takes_fail {e : ε} : ¬ (fail e : Parser τ ε α).Takes ts b rest := by
  simp [Takes, fail]

@[simp] theorem takes_ofExcept {r : Except ε α} :
    (ofExcept r : Parser τ ε α).Takes ts b rest ↔ r = .ok b ∧ ts = rest := by
  cases r with
  | ok a =>
    rw [Except.ok.injEq]
    exact takes_pure
  | error e => simp [ofExcept]

theorem takes_peek {o : Option τ} :
    (peek : Parser τ ε (Option τ)).Takes ts o rest ↔ ts.head? = o ∧ ts = rest := by
  simp [Takes, peek]

theorem takes_advance {o : Option τ} :
    (advance : Parser τ ε (Option τ)).Takes ts o rest ↔ ts.head? = o ∧ ts.tail = rest := by
  simp [Takes, advance]

theorem takes_bind {c : β} :
    (p >>= f).Takes ts c rest ↔ ∃ a mid, p.Takes ts a mid ∧ (f a).Takes mid c rest := by
  change Parser.bind p f ts = _ ↔ _
  unfold Parser.bind Takes
  cases hp : p ts with
  | none => simp
  | some r =>
    cases r with
    | error e => simp
    | ok out =>
      obtain ⟨a, mid⟩ := out
      simp only [Option.some.injEq, Except.ok.injEq, Prod.mk.injEq]
      constructor
      · exact fun h => ⟨a, mid, ⟨rfl, rfl⟩, h⟩
      · rintro ⟨_, _, ⟨rfl, rfl⟩, h⟩
        exact h

@[simp] theorem takes_peek_bind {f : Option τ → Parser τ ε β} {c : β} :
    (peek >>= f).Takes ts c rest ↔ (f ts.head?).Takes ts c rest := by
  rw [takes_bind]
  constructor
  · rintro ⟨o, mid, hPeek, h⟩
    obtain ⟨rfl, rfl⟩ := takes_peek.mp hPeek
    exact h
  · exact fun h => ⟨_, _, takes_peek.mpr ⟨rfl, rfl⟩, h⟩

@[simp] theorem takes_advance_bind {f : Option τ → Parser τ ε β} {c : β} :
    (advance >>= f).Takes ts c rest ↔ (f ts.head?).Takes ts.tail c rest := by
  rw [takes_bind]
  constructor
  · rintro ⟨o, mid, hAdvance, h⟩
    obtain ⟨rfl, rfl⟩ := takes_advance.mp hAdvance
    exact h
  · exact fun h => ⟨_, _, takes_advance.mpr ⟨rfl, rfl⟩, h⟩

@[simp] theorem takes_ofExcept_bind {r : Except ε α} {c : β} :
    (ofExcept r >>= f).Takes ts c rest ↔ ∃ a, r = .ok a ∧ (f a).Takes ts c rest := by
  rw [takes_bind]
  constructor
  · rintro ⟨a, mid, hValue, h⟩
    obtain ⟨rfl, rfl⟩ := takes_ofExcept.mp hValue
    exact ⟨a, rfl, h⟩
  · rintro ⟨a, rfl, h⟩
    exact ⟨a, ts, takes_ofExcept.mpr ⟨rfl, rfl⟩, h⟩

@[simp] theorem ends_pure : (pure a : Parser τ ε α).Ends ts := ⟨_, rfl⟩

@[simp] theorem ends_fail {e : ε} : (fail e : Parser τ ε α).Ends ts := ⟨_, rfl⟩

@[simp] theorem ends_ofExcept {r : Except ε α} : (ofExcept r : Parser τ ε α).Ends ts := by
  cases r with
  | ok a => exact ⟨_, rfl⟩
  | error e => exact ⟨_, rfl⟩

theorem ends_bind (hp : p.Ends ts) (hf : ∀ a mid, p.Takes ts a mid → (f a).Ends mid) :
    (p >>= f).Ends ts := by
  obtain ⟨r, hr⟩ := hp
  cases r with
  | error e =>
    refine ⟨.error e, ?_⟩
    change Parser.bind p f ts = _
    rw [Parser.bind, hr]
  | ok out =>
    obtain ⟨a, mid⟩ := out
    obtain ⟨r, hf⟩ := hf a mid hr
    refine ⟨r, ?_⟩
    change Parser.bind p f ts = _
    rw [Parser.bind, hr]
    exact hf

@[simp] theorem ends_peek_bind {f : Option τ → Parser τ ε β} :
    (peek >>= f).Ends ts ↔ (f ts.head?).Ends ts := Iff.rfl

@[simp] theorem ends_advance_bind {f : Option τ → Parser τ ε β} :
    (advance >>= f).Ends ts ↔ (f ts.head?).Ends ts.tail := Iff.rfl

end Takes

/-! ### Parsers without a loop -/

def Total (p : Parser τ ε α) : Prop := ∀ ts, p.Ends ts

namespace Total

variable {p : Parser τ ε α} {f : α → Parser τ ε β}

protected theorem pure (a : α) : (pure a : Parser τ ε α).Total := fun _ => ends_pure

protected theorem fail (e : ε) : (fail e : Parser τ ε α).Total := fun _ => ends_fail

protected theorem ofExcept (r : Except ε α) : (ofExcept r : Parser τ ε α).Total :=
  fun _ => ends_ofExcept

protected theorem peek : (peek : Parser τ ε (Option τ)).Total := fun _ => ⟨_, rfl⟩

protected theorem advance : (advance : Parser τ ε (Option τ)).Total := fun _ => ⟨_, rfl⟩

protected theorem bind (hp : p.Total) (hf : ∀ a, (f a).Total) : (p >>= f).Total :=
  fun ts => ends_bind (hp ts) fun a mid _ => hf a mid

end Total

end Parser

/-! ## Grammars -/

/-- Items with separators between them, at least one item. -/
inductive SepBy (sep : τ → Bool) (item : List τ → α → Prop) : List τ → List α → Prop where
  | one {ts : List τ} {a : α} : item ts a → SepBy sep item ts [a]
  | more {ts us : List τ} {s : τ} {a : α} {as : List α} :
      item ts a → sep s = true → SepBy sep item us as → SepBy sep item (ts ++ s :: us) (a :: as)

theorem SepBy.head {sep : τ → Bool} {item : List τ → α → Prop} {P : τ → Prop}
    (h : ∀ ts a, item ts a → ∃ t more, ts = t :: more ∧ P t) {ts : List τ} {as : List α}
    (hList : SepBy sep item ts as) : ∃ t more, ts = t :: more ∧ P t := by
  cases hList with
  | one hItem => exact h _ _ hItem
  | more hItem =>
    obtain ⟨t, more, rfl, ht⟩ := h _ _ hItem
    exact ⟨t, _, rfl, ht⟩

theorem SepBy.ne_nil {sep : τ → Bool} {item : List τ → α → Prop} {ts : List τ} {as : List α}
    (hList : SepBy sep item ts as) : as ≠ [] := by
  cases hList <;> exact List.cons_ne_nil _ _

structure Parses (n : Nat) (p : Parser τ ε α) (grammar : List τ → α → Prop)
    (follow : List τ → Prop) : Prop where
  ends : ∀ ts, ts.length ≤ n → p.Ends ts
  sound : ∀ {ts a rest}, p.Takes ts a rest → ∃ used, ts = used ++ rest ∧ grammar used a
  complete : ∀ {used a rest}, grammar used a → follow rest → (used ++ rest).length ≤ n →
    p.Takes (used ++ rest) a rest

namespace Parses

variable {n : Nat} {p : Parser τ ε α} {grammar : List τ → α → Prop} {follow : List τ → Prop}

theorem length_le (h : Parses n p grammar follow) {ts rest : List τ} {a : α}
    (hTakes : p.Takes ts a rest) : rest.length ≤ ts.length := by
  obtain ⟨used, rfl, -⟩ := h.sound hTakes
  rw [List.length_append]
  omega

theorem follow_of {follow' : List τ → Prop} (h : Parses n p grammar follow)
    (hFollow : ∀ rest, follow' rest → follow rest) : Parses n p grammar follow' :=
  ⟨h.ends, h.sound, fun hUsed hRest hLength => h.complete hUsed (hFollow _ hRest) hLength⟩

/-! ### Lists -/

section WhileSep

variable {sep : τ → Bool}

theorem whileSep_ends (h : Parses n p grammar follow) {fuel : Nat} {items : List α} {ts : List τ}
    (hLength : ts.length ≤ n) (hFuel : ts.length < fuel) : (p.whileSep sep fuel items).Ends ts := by
  induction fuel generalizing items ts with
  | zero => omega
  | succ fuel ih =>
    rw [Parser.whileSep, Parser.ends_peek_bind]
    split
    · next hSep =>
      cases ts with
      | nil => cases hSep
      | cons s ts =>
        rw [List.length_cons] at hLength hFuel
        rw [Parser.ends_advance_bind]
        refine Parser.ends_bind (h.ends ts (by omega)) fun a mid hTakes => ?_
        have hMid : mid.length ≤ ts.length := h.length_le hTakes
        exact ih (by omega) (by omega)
    · exact Parser.ends_pure

/-- What the loop took: nothing, or a separator and a list after it. -/
theorem whileSep_sound (h : Parses n p grammar follow) {fuel : Nat} {items as : List α}
    {ts rest : List τ} (hTakes : (p.whileSep sep fuel items).Takes ts as rest) :
    (as = items ∧ ts = rest) ∨ ∃ s used more, ts = s :: used ++ rest ∧ sep s = true ∧
      as = items ++ more ∧ SepBy sep grammar used more := by
  induction fuel generalizing items ts with
  | zero => cases hTakes
  | succ fuel ih =>
    rw [Parser.whileSep, Parser.takes_peek_bind] at hTakes
    split at hTakes
    · next hSep =>
      cases ts with
      | nil => cases hSep
      | cons s ts =>
        rw [Parser.takes_advance_bind, Parser.takes_bind] at hTakes
        obtain ⟨a, mid, hItem, hLoop⟩ := hTakes
        obtain ⟨front, hFront, hGrammar⟩ := h.sound hItem
        obtain rfl : ts = front ++ mid := hFront
        refine .inr ?_
        rcases ih hLoop with ⟨rfl, rfl⟩ | ⟨s', used, more, rfl, hSep', rfl, hMore⟩
        · exact ⟨s, front, [a], rfl, hSep, rfl, .one hGrammar⟩
        · exact ⟨s, front ++ s' :: used, a :: more, by simp, hSep, by simp,
            .more hGrammar hSep' hMore⟩
    · obtain ⟨rfl, rfl⟩ := Parser.takes_pure.mp hTakes
      exact .inl ⟨rfl, rfl⟩

theorem whileSep_stops {fuel : Nat} {items : List α} {rest : List τ} (hRest : NotAhead sep rest) :
    (p.whileSep sep (fuel + 1) items).Takes rest items rest := by
  have hHead : rest.head?.any sep = false := by
    cases hx : rest.head? with
    | none => rfl
    | some t => exact hRest t hx
  rw [Parser.whileSep, Parser.takes_peek_bind, hHead]
  exact Parser.takes_pure.mpr ⟨rfl, rfl⟩

theorem whileSep_complete (h : Parses n p grammar follow)
    (hFollow : ∀ s rest, sep s = true → follow (s :: rest)) {used rest : List τ} {more : List α}
    (hMore : SepBy sep grammar used more) (hRest : follow rest) (hStop : NotAhead sep rest) {s : τ}
    (hSep : sep s = true) {fuel : Nat} {items : List α} (hLength : (s :: used ++ rest).length ≤ n)
    (hFuel : (s :: used ++ rest).length < fuel) :
    (p.whileSep sep fuel items).Takes (s :: used ++ rest) (items ++ more) rest := by
  induction hMore generalizing fuel items s with
  | @one ts a hItem =>
    obtain ⟨fuel, rfl⟩ : ∃ k, fuel = k + 2 := ⟨fuel - 2, by simp at hFuel; omega⟩
    rw [Parser.whileSep, Parser.takes_peek_bind]
    simp only [List.cons_append, List.head?_cons, Option.any_some, hSep, if_true,
      Parser.takes_advance_bind, List.tail_cons]
    rw [Parser.takes_bind]
    simp only [List.cons_append, List.length_cons] at hLength
    exact ⟨a, rest, h.complete hItem hRest (by omega), whileSep_stops hStop⟩
  | @more ts us s' a as hItem hSep' _ ih =>
    obtain ⟨fuel, rfl⟩ : ∃ k, fuel = k + 1 := ⟨fuel - 1, by simp at hFuel; omega⟩
    have hAppend : s :: (ts ++ s' :: us) ++ rest = s :: (ts ++ (s' :: us ++ rest)) := by simp
    rw [hAppend] at hLength hFuel ⊢
    rw [Parser.whileSep, Parser.takes_peek_bind]
    simp only [List.head?_cons, Option.any_some, hSep, if_true, Parser.takes_advance_bind,
      List.tail_cons]
    rw [List.length_cons] at hLength hFuel
    have hLoop : (p.whileSep sep fuel (items ++ [a])).Takes (s' :: us ++ rest)
        (items ++ [a] ++ as) rest :=
      ih hSep' (by rw [List.length_append] at hLength; omega) (by
        rw [List.length_append] at hFuel; omega)
    rw [List.append_assoc, List.singleton_append] at hLoop
    rw [Parser.takes_bind]
    exact ⟨a, s' :: us ++ rest, h.complete hItem (hFollow s' _ hSep') (by omega), hLoop⟩

variable (sep) in
/-- **A list of items is read where the items are.** -/
theorem listOf (h : Parses n p grammar follow)
    (hFollow : ∀ s rest, sep s = true → follow (s :: rest)) {fuel : Nat} (hFuel : n < fuel) :
    Parses n (p.listOf sep fuel) (SepBy sep grammar)
      (fun rest => follow rest ∧ NotAhead sep rest) where
  ends ts hLength := by
    refine Parser.ends_bind (h.ends ts hLength) fun a mid hTakes => ?_
    have hMid := h.length_le hTakes
    exact h.whileSep_ends (by omega) (by omega)
  sound hTakes := by
    obtain ⟨a, mid, hItem, hLoop⟩ := Parser.takes_bind.mp hTakes
    obtain ⟨front, rfl, hGrammar⟩ := h.sound hItem
    rcases h.whileSep_sound hLoop with ⟨rfl, rfl⟩ | ⟨s, used, more, rfl, hSep, rfl, hMore⟩
    · exact ⟨front, rfl, .one hGrammar⟩
    · exact ⟨front ++ s :: used, by simp, .more hGrammar hSep hMore⟩
  complete {used as rest} hList hRest hLength := by
    refine Parser.takes_bind.mpr ?_
    cases hList with
    | @one ts a hItem =>
      obtain ⟨fuel, rfl⟩ : ∃ k, fuel = k + 1 := ⟨fuel - 1, by omega⟩
      exact ⟨a, _, h.complete hItem hRest.1 hLength, whileSep_stops hRest.2⟩
    | @more ts us s a as hItem hSep hMore =>
      rw [List.append_assoc] at hLength ⊢
      have hShorter : (s :: us ++ rest).length ≤ n := by
        rw [List.length_append] at hLength
        exact Nat.le_trans (Nat.le_add_left _ _) hLength
      exact ⟨a, _, h.complete hItem (hFollow s _ hSep) hLength,
        h.whileSep_complete hFollow hMore hRest.1 hRest.2 hSep hShorter (by omega)⟩

end WhileSep

end Parses

end MultimodalDb
