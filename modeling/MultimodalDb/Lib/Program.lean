import Mathlib.Logic.Basic

/-!
# Programs of calls

A program returns a value, or makes a call and goes on with the reply. The calls are data: what a
program will call next can be read off it, and between two of its calls other programs may make
theirs. A handler answers the calls from a state; `run` makes the calls of one program one after
another with no other program in between.

`Meets P Q` says that every call a program may make satisfies `P`, whatever the replies, and every
value it may return satisfies `Q`. `Yields` tells the value from the calls made and their replies.
-/

namespace MultimodalDb

inductive Program (C : Type) (Reply : C → Type) (α : Type) where
  | done (a : α)
  | call (c : C) (next : Reply c → Program C Reply α)

namespace Program

variable {C : Type} {Reply : C → Type} {α β σ : Type}

def bind : Program C Reply α → (α → Program C Reply β) → Program C Reply β
  | done a, f => f a
  | call c next, f => call c fun r => (next r).bind f

instance : Monad (Program C Reply) where
  pure := done
  bind := bind

/-- The program that makes one call and returns its reply. -/
def ask (c : C) : Program C Reply (Reply c) := call c done

@[simp] theorem pure_eq (a : α) : (pure a : Program C Reply α) = done a := rfl

@[simp] theorem done_bind (a : α) (f : α → Program C Reply β) : done a >>= f = f a := rfl

@[simp] theorem call_bind (c : C) (next : Reply c → Program C Reply α) (f : α → Program C Reply β) :
    call c next >>= f = call c fun r => next r >>= f := rfl

@[simp] theorem ask_bind (c : C) (f : Reply c → Program C Reply β) : ask c >>= f = call c f := rfl

@[simp] theorem map_done (f : α → β) (a : α) :
    f <$> (done a : Program C Reply α) = done (f a) := rfl

@[simp] theorem map_call (f : α → β) (c : C) (next : Reply c → Program C Reply α) :
    f <$> call c next = call c fun r => f <$> next r := rfl

/-! ## Calls and results -/

/-- Every call that the program may make satisfies `P` and every value that it may return `Q`. -/
def Meets (P : C → Prop) (Q : α → Prop) : Program C Reply α → Prop
  | done a => Q a
  | call c next => P c ∧ ∀ r, (next r).Meets P Q

section Meets

variable {P P' : C → Prop} {Q Q' : α → Prop} {R : β → Prop} {p : Program C Reply α}

theorem Meets.ask {c : C} (h : P c) : Meets P (fun _ => True) (ask c : Program C Reply (Reply c)) :=
  ⟨h, fun _ => trivial⟩

theorem Meets.mono (h : p.Meets P Q) (hP : ∀ c, P c → P' c) (hQ : ∀ a, Q a → Q' a) :
    p.Meets P' Q' := by
  induction p with
  | done a => exact hQ a h
  | call c next ih => exact ⟨hP c h.1, fun r => ih r (h.2 r)⟩

theorem Meets.bind (h : p.Meets P Q) {f : α → Program C Reply β} (hf : ∀ a, Q a → (f a).Meets P R) :
    (p >>= f).Meets P R := by
  induction p with
  | done a => exact hf a h
  | call c next ih => exact ⟨h.1, fun r => ih r (h.2 r)⟩

theorem Meets.map (h : p.Meets P Q) {f : α → β} (hf : ∀ a, Q a → R (f a)) : (f <$> p).Meets P R :=
  h.bind hf

theorem Meets.and (h : p.Meets P Q) (h' : p.Meets P' Q') {P'' : C → Prop} {Q'' : α → Prop}
    (hP : ∀ c, P c → P' c → P'' c) (hQ : ∀ a, Q a → Q' a → Q'' a) : p.Meets P'' Q'' := by
  induction p with
  | done a => exact hQ a h h'
  | call c next ih => exact ⟨hP c h.1 h'.1, fun r => ih r (h.2 r) (h'.2 r)⟩

theorem meets_true (p : Program C Reply α) : p.Meets (fun _ => True) fun _ => True := by
  induction p with
  | done a => trivial
  | call c next ih => exact ⟨trivial, ih⟩

end Meets

/-! ## Results behind replies of a kind -/

/-- Every value that the program may return satisfies `Q`, as long as the replies satisfy `A`. -/
def Returns (A : (c : C) → Reply c → Prop) (Q : α → Prop) : Program C Reply α → Prop
  | done a => Q a
  | call c next => ∀ r, A c r → (next r).Returns A Q

section Returns

variable {A : (c : C) → Reply c → Prop} {Q Q' : α → Prop} {R : β → Prop} {p : Program C Reply α}

theorem Returns.mono (h : p.Returns A Q) (hQ : ∀ a, Q a → Q' a) : p.Returns A Q' := by
  induction p with
  | done a => exact hQ a h
  | call c next ih => exact fun r hr => ih r (h r hr)

theorem Returns.bind (h : p.Returns A Q) {f : α → Program C Reply β}
    (hf : ∀ a, Q a → (f a).Returns A R) :
    (p >>= f).Returns A R := by
  induction p with
  | done a => exact hf a h
  | call c next ih => exact fun r hr => ih r (h r hr)

theorem Returns.replies {A' : (c : C) → Reply c → Prop} (h : p.Returns A Q)
    (hA : ∀ c r, A' c r → A c r) :
    p.Returns A' Q := by
  induction p with
  | done a => exact h
  | call c next ih => exact fun r hr => ih r (h r (hA c r hr))

theorem Returns.and_meets {P : C → Prop} (h : p.Returns A Q) (h' : p.Meets P Q') :
    p.Returns A fun a => Q a ∧ Q' a := by
  induction p with
  | done a => exact ⟨h, h'⟩
  | call c next ih => exact fun r hr => ih r (h r hr) (h'.2 r)

theorem returns_of_forall (h : ∀ a, Q a) (p : Program C Reply α) : p.Returns A Q := by
  induction p with
  | done a => exact h a
  | call c next ih => exact fun r _ => ih r

end Returns

/-! ## Traces -/

/-- The calls that a program made, the newest first, each with its reply. -/
abbrev Trace (C : Type) (Reply : C → Type) := List ((c : C) × Reply c)

/-- Every value that the program may return satisfies `R`, told with the calls made until then. -/
def Yields (R : Trace C Reply → α → Prop) : Program C Reply α → Trace C Reply → Prop
  | done a, made => R made a
  | call c next, made => ∀ r, (next r).Yields R (⟨c, r⟩ :: made)

/-- A call that satisfies `L` is the last of the program, and its reply tells what is returned. -/
def Closes (L : C → Prop) (R : (c : C) → Reply c → α → Prop) : Program C Reply α → Prop
  | done _ => True
  | call c next => ∀ r, (L c → ∃ a, next r = done a ∧ R c r a) ∧ (next r).Closes L R

section Traces

variable {R : Trace C Reply → α → Prop} {R' : Trace C Reply → β → Prop} {made : Trace C Reply}
  {p : Program C Reply α}

theorem yields_of_forall (h : ∀ made a, R made a) (p : Program C Reply α) (made : Trace C Reply) :
    p.Yields R made := by
  induction p generalizing made with
  | done a => exact h made a
  | call c next ih => exact fun r => ih r _

theorem Yields.mono {R'' : Trace C Reply → α → Prop} (h : p.Yields R made)
    (hR : ∀ made a, R made a → R'' made a) : p.Yields R'' made := by
  induction p generalizing made with
  | done a => exact hR made a h
  | call c next ih => exact fun r => ih r (h r)

theorem Yields.bind (h : p.Yields R made) {f : α → Program C Reply β}
    (hf : ∀ made a, R made a → (f a).Yields R' made) : (p >>= f).Yields R' made := by
  induction p generalizing made with
  | done a => exact hf made a h
  | call c next ih => exact fun r => ih r (h r)

variable {L : C → Prop} {K : (c : C) → Reply c → α → Prop} {K' : (c : C) → Reply c → β → Prop}

/-- A program behind one that makes no call of `L`. -/
theorem Closes.behind {Q : α → Prop} (h : p.Meets (fun c => ¬ L c) Q) {f : α → Program C Reply β}
    (hf : ∀ a, Q a → (f a).Closes L K') : (p >>= f).Closes L K' := by
  induction p with
  | done a => exact hf a h
  | call c next ih => exact fun r => ⟨fun hLast => absurd hLast h.1, ih r (h.2 r)⟩

/-- What follows a program is no call. -/
theorem Closes.bind (h : p.Closes L K) {f : α → Program C Reply β}
    (hf : ∀ a, ∃ b, f a = done b ∧ ∀ c r, K c r a → K' c r b) : (p >>= f).Closes L K' := by
  induction p with
  | done a =>
    obtain ⟨b, hDone, -⟩ := hf a
    rw [done_bind, hDone]
    trivial
  | call c next ih =>
    refine fun r => ⟨fun hLast => ?_, ih r (h r).2⟩
    obtain ⟨a, hDone, hReply⟩ := (h r).1 hLast
    obtain ⟨b, hNext, hTold⟩ := hf a
    refine ⟨b, ?_, hTold c r hReply⟩
    show next r >>= f = done b
    rw [hDone, done_bind, hNext]

end Traces

/-! ## Runs -/

variable (answer : (c : C) → σ → Reply c × σ)

def run : Program C Reply α → σ → α × σ
  | done a, s => (a, s)
  | call c next, s =>
    let (r, s') := answer c s
    (next r).run s'

@[simp] theorem run_done (a : α) (s : σ) : run answer (done a : Program C Reply α) s = (a, s) := rfl

@[simp] theorem run_call (c : C) (next : Reply c → Program C Reply α) (s : σ) :
    run answer (call c next) s = run answer (next (answer c s).1) (answer c s).2 := rfl

theorem run_bind (p : Program C Reply α) (f : α → Program C Reply β) (s : σ) :
    run answer (p >>= f) s = run answer (f (run answer p s).1) (run answer p s).2 := by
  induction p generalizing s with
  | done a => rfl
  | call c next ih => exact ih (answer c s).1 (answer c s).2

variable {answer} in
/-- What a program returns when its calls are answered. -/
theorem Returns.run {A : (c : C) → Reply c → Prop} {Q : α → Prop} {p : Program C Reply α}
    (h : p.Returns A Q) (hA : ∀ c s, A c (answer c s).1) (s : σ) : Q (run answer p s).1 := by
  induction p generalizing s with
  | done a => exact h
  | call c next ih => exact ih _ (h _ (hA c s)) _

variable {answer} in
/-- What is told of a run, with the calls that it made. -/
theorem Yields.run {R : Trace C Reply → α → Prop} {made : Trace C Reply} {p : Program C Reply α}
    (h : p.Yields R made) (s : σ) : ∃ made', R made' (run answer p s).1 := by
  induction p generalizing s made with
  | done a => exact ⟨made, h⟩
  | call c next ih => exact ih _ (h _) _

theorem run_map (f : α → β) (p : Program C Reply α) (s : σ) :
    run answer (f <$> p) s = (f (run answer p s).1, (run answer p s).2) :=
  run_bind answer p (fun a => done (f a)) s

end Program

end MultimodalDb
