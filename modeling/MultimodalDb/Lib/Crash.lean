import MultimodalDb.Lib.Bytes
import Mathlib.Logic.Function.Basic

/-!
# Programs over files that may fail or be cut short

A program reads and writes the files of a disk, and each of its I/O calls may do what it says,
fail after part of its effect, or be the last thing that happens before a crash. Which of the three
happens at each call is data, the *plan*, so that a program is an ordinary computable function and
one statement can speak of all its failures: quantify over the plan.

`wp m s d Q A C` is the rule of reasoning. Started with object `s` on disk `d`, under any plan, the
program `m` either returns with `Q`, or stops for a reason of its own with `A`, or stops because a
call failed or the process crashed, with `C`. The last can happen only under a plan that is not
empty, which is what makes a program with no reason of its own to stop total (`wp_total`).
-/

namespace MultimodalDb

/-- A path, as the characters of its name. -/
abbrev Path := List Char

/-- The files of a disk. A path with no file maps to `none`. -/
abbrev Disk := Path → Option Bytes

/-- What happens at one I/O call. A failing or crashing call may have written part of its bytes. -/
inductive Outcome where
  | done
  | failed (written : Nat)
  | crashed (written : Nat)
  deriving DecidableEq, Repr

/-- The kinds of I/O error a program can tell apart. -/
inductive IoError where
  | notFound
  | invalidInput
  | unexpectedEof
  | other
  deriving DecidableEq, Repr

/-- Why a computation on values panicked. -/
inductive Panic where
  | outOfBounds
  | overflow
  | missingKey
  deriving DecidableEq, Repr

/-- Why a program did not return: an error value, a panic, or the end of the process. -/
inductive Stop (ε : Type) where
  | error (e : ε)
  | panic
  | crash
  deriving DecidableEq, Repr

/-- The state of a method: the object it runs on, the files, and what the next calls will do. -/
structure Proc (S : Type) where
  self : S
  disk : Disk
  plan : List Outcome

/-- A method of `S` with error type `ε`. The object keeps its changes when the method stops. -/
abbrev Method (S ε α : Type) := EStateM (Stop ε) (Proc S) α

namespace Method

variable {S T ε ε' α β : Type}

/-! ## Building blocks -/

/-- One I/O call: `act` is its effect, `torn n` what is left when only `n` bytes got written. -/
def call (onError : IoError → ε) (act : Disk → Except IoError α × Disk)
    (torn : Nat → Disk → Disk) : Method S ε α := fun p =>
  match p.plan with
  | .failed n :: rest => .error (.error (onError .other)) { p with
      disk := torn n p.disk, plan := rest }
  | .crashed n :: rest => .error .crash { p with disk := torn n p.disk, plan := rest }
  | plan =>
    match act p.disk with
    | (.ok a, disk) => .ok a { p with disk := disk, plan := plan.tail }
    | (.error e, disk) => .error (.error (onError e)) { p with disk := disk, plan := plan.tail }

/-- How a call ends that took place: its answer, the disk after it, and the plan that is left. -/
def returned (onError : IoError → ε) (s : S) (rest : List Outcome) :
    Except IoError α × Disk → EStateM.Result (Stop ε) (Proc S) α
  | (.ok a, disk) => .ok a ⟨s, disk, rest⟩
  | (.error e, disk) => .error (.error (onError e)) ⟨s, disk, rest⟩

/-- A store into a mapped file. It cannot fail, but the process may crash in the middle of it. -/
def storeBytes (act : Disk → Disk) (torn : Nat → Disk → Disk) : Method S ε Unit := fun p =>
  match p.plan with
  | .crashed n :: rest => .error .crash { p with disk := torn n p.disk, plan := rest }
  | plan => .ok () { p with disk := act p.disk, plan := plan.tail }

/-- The object the method runs on. -/
def self : Method S ε S := fun p => .ok p.self p

def modifySelf (f : S → S) : Method S ε Unit := fun p => .ok () { p with self := f p.self }

def fail (e : ε) : Method S ε α := fun p => .error (.error e) p

def panic : Method S ε α := fun p => .error .panic p

def ofExcept : Except ε α → Method S ε α
  | .ok a => pure a
  | .error e => fail e

/-- A computation on values that may panic. -/
def checked : Except Panic α → Method S ε α
  | .ok a => pure a
  | .error _ => panic

/-- Run a method of a component on the component of the object it runs on. -/
def onPart (get : S → T) (set : T → S → S) (m : Method T ε α) : Method S ε α := fun p =>
  match m ⟨get p.self, p.disk, p.plan⟩ with
  | .ok a q => .ok a ⟨set q.self p.self, q.disk, q.plan⟩
  | .error e q => .error e ⟨set q.self p.self, q.disk, q.plan⟩

/-- Run a method on an object of the caller's own, and return what it made of it. -/
def runOn (t : T) (m : Method T ε α) : Method S ε (α × T) := fun p =>
  match m ⟨t, p.disk, p.plan⟩ with
  | .ok a q => .ok (a, q.self) ⟨p.self, q.disk, q.plan⟩
  | .error e q => .error e ⟨p.self, q.disk, q.plan⟩

/-- Convert the error value, as `?` does. -/
def mapError (f : ε → ε') (m : Method S ε α) : Method S ε' α := fun p =>
  match m p with
  | .ok a q => .ok a q
  | .error (.error e) q => .error (.error (f e)) q
  | .error .panic q => .error .panic q
  | .error .crash q => .error .crash q

/-- The value the program returned, or `none` for an error. -/
def attempt (m : Method S ε α) : Method S ε' (Option α) := fun p =>
  match m p with
  | .ok a q => .ok (some a) q
  | .error (.error _) q => .ok none q
  | .error .panic q => .error .panic q
  | .error .crash q => .error .crash q

/-! ## Preconditions -/

/-- Started with object `s` on disk `d`, the program returns with `Q`, stops of its own accord with
`A`, or is stopped by a failed call or a crash with `C`. -/
def wp (m : Method S ε α) (s : S) (d : Disk) (Q : α → S → Disk → Prop)
    (A C : Stop ε → S → Disk → Prop) : Prop :=
  ∀ plan, match m ⟨s, d, plan⟩ with
    | .ok a p => Q a p.self p.disk ∧ (plan = [] → p.plan = [])
    | .error e p =>
      (A e p.self p.disk ∧ (plan = [] → p.plan = [])) ∨ (plan ≠ [] ∧ C e p.self p.disk)

variable {m : Method S ε α} {s : S} {d : Disk}
variable {Q Q' : α → S → Disk → Prop} {A A' C C' : Stop ε → S → Disk → Prop}

theorem wp.mono (h : wp m s d Q A C) (hQ : ∀ a s d, Q a s d → Q' a s d)
    (hA : ∀ e s d, A e s d → A' e s d) (hC : ∀ e s d, C e s d → C' e s d) :
    wp m s d Q' A' C' := by
  intro plan
  have hm := h plan
  split
  · next hRun =>
    rw [hRun] at hm
    exact ⟨hQ _ _ _ hm.1, hm.2⟩
  · next hRun =>
    rw [hRun] at hm
    exact hm.imp (fun ⟨hStop, hPlan⟩ => ⟨hA _ _ _ hStop, hPlan⟩)
      (fun ⟨hPlan, hStop⟩ => ⟨hPlan, hC _ _ _ hStop⟩)

theorem wp_pure {a : α} (h : Q a s d) : wp (pure a : Method S ε α) s d Q A C :=
  fun _ => ⟨h, id⟩

theorem wp_bind {f : α → Method S ε β} {R : β → S → Disk → Prop}
    (h : wp m s d (fun a s' d' => wp (f a) s' d' R A C) A C) : wp (m >>= f) s d R A C := by
  intro plan
  have hm := h plan
  change match EStateM.bind m f ⟨s, d, plan⟩ with | .ok a p => _ | .error e p => _
  unfold EStateM.bind
  cases hRun : m ⟨s, d, plan⟩ with
  | error e p =>
    rw [hRun] at hm
    exact hm
  | ok a p =>
    rw [hRun] at hm
    obtain ⟨hNext, hPlan⟩ := hm
    have hf := hNext p.plan
    dsimp only
    cases hRest : f a p with
    | ok b q =>
      change f a ⟨p.self, p.disk, p.plan⟩ = _ at hRest
      rw [hRest] at hf
      exact ⟨hf.1, fun hEmpty => hf.2 (hPlan hEmpty)⟩
    | error e q =>
      change f a ⟨p.self, p.disk, p.plan⟩ = _ at hRest
      rw [hRest] at hf
      exact hf.imp (fun ⟨hStop, hEmpty⟩ => ⟨hStop, fun h => hEmpty (hPlan h)⟩)
        (fun ⟨hEmpty, hStop⟩ => ⟨fun h => hEmpty (hPlan h), hStop⟩)

theorem wp_self {Q : S → S → Disk → Prop} (h : Q s s d) :
    wp (self : Method S ε S) s d Q A C :=
  fun _ => ⟨h, id⟩

theorem wp_modifySelf {f : S → S} {Q : Unit → S → Disk → Prop} (h : Q () (f s) d) :
    wp (modifySelf f : Method S ε Unit) s d Q A C :=
  fun _ => ⟨h, id⟩

theorem wp_fail {e : ε} (h : A (.error e) s d) : wp (fail e : Method S ε α) s d Q A C :=
  fun _ => Or.inl ⟨h, id⟩

theorem wp_panic (h : A .panic s d) : wp (panic : Method S ε α) s d Q A C :=
  fun _ => Or.inl ⟨h, id⟩

theorem wp_ofExcept {x : Except ε α} (hOk : ∀ a, x = .ok a → Q a s d)
    (hError : ∀ e, x = .error e → A (.error e) s d) : wp (ofExcept x) s d Q A C := by
  cases x with
  | ok a => exact wp_pure (hOk a rfl)
  | error e => exact wp_fail (hError e rfl)

theorem wp_checked {x : Except Panic α} (hOk : ∀ a, x = .ok a → Q a s d)
    (hPanic : ∀ e, x = .error e → A .panic s d) : wp (checked x) s d Q A C := by
  cases x with
  | ok a => exact wp_pure (hOk a rfl)
  | error e => exact wp_panic (hPanic e rfl)

theorem wp_call {onError : IoError → ε} {act : Disk → Except IoError α × Disk}
    {torn : Nat → Disk → Disk} (hOk : ∀ a, (act d).1 = .ok a → Q a s (act d).2)
    (hError : ∀ e, (act d).1 = .error e → A (.error (onError e)) s (act d).2)
    (hTorn : ∀ n, C (.error (onError .other)) s (torn n d) ∧ C .crash s (torn n d)) :
    wp (call onError act torn : Method S ε α) s d Q A C := by
  have hDone : ∀ plan rest : List Outcome, (plan = [] → rest = []) →
      match (match act d with
        | (.ok a, disk) => (.ok a ⟨s, disk, rest⟩ : EStateM.Result (Stop ε) (Proc S) α)
        | (.error e, disk) => .error (.error (onError e)) ⟨s, disk, rest⟩) with
      | .ok a p => Q a p.self p.disk ∧ (plan = [] → p.plan = [])
      | .error e p =>
        (A e p.self p.disk ∧ (plan = [] → p.plan = [])) ∨ (plan ≠ [] ∧ C e p.self p.disk) := by
    intro plan rest hRest
    rcases hAct : act d with ⟨e | a, disk⟩
    · exact Or.inl ⟨by simpa only [hAct] using hError e (by rw [hAct]), hRest⟩
    · exact ⟨by simpa only [hAct] using hOk a (by rw [hAct]), hRest⟩
  rintro (_ | ⟨_ | n | n, rest⟩)
  · exact hDone [] [] id
  · exact hDone _ rest (fun h => nomatch h)
  · exact Or.inr ⟨List.cons_ne_nil _ _, (hTorn n).1⟩
  · exact Or.inr ⟨List.cons_ne_nil _ _, (hTorn n).2⟩

theorem wp_storeBytes {act : Disk → Disk} {torn : Nat → Disk → Disk}
    {Q : Unit → S → Disk → Prop} (hOk : Q () s (act d)) (hTorn : ∀ n, C .crash s (torn n d)) :
    wp (storeBytes act torn : Method S ε Unit) s d Q A C := by
  rintro (_ | ⟨_ | n | n, rest⟩)
  · exact ⟨hOk, id⟩
  · exact ⟨hOk, fun h => nomatch h⟩
  · exact ⟨hOk, fun h => nomatch h⟩
  · exact Or.inr ⟨List.cons_ne_nil _ _, hTorn n⟩

theorem wp_onPart {get : S → T} {set : T → S → S} {m : Method T ε α}
    (h : wp m (get s) d (fun a t d' => Q a (set t s) d') (fun e t d' => A e (set t s) d')
      (fun e t d' => C e (set t s) d')) : wp (onPart get set m) s d Q A C := by
  intro plan
  have hm := h plan
  unfold onPart
  dsimp only
  split
  · next hRun =>
    split at hRun
    · next hInner => cases hRun; rw [hInner] at hm; exact hm
    · cases hRun
  · next hRun =>
    split at hRun
    · cases hRun
    · next hInner => cases hRun; rw [hInner] at hm; exact hm

theorem wp_runOn {t : T} {m : Method T ε α} {Q : α × T → S → Disk → Prop}
    (h : wp m t d (fun a t' d' => Q (a, t') s d') (fun e _ d' => A e s d')
      (fun e _ d' => C e s d')) : wp (runOn t m) s d Q A C := by
  intro plan
  have hm := h plan
  unfold runOn
  cases hRun : m ⟨t, d, plan⟩ with
  | ok a p => rw [hRun] at hm; exact hm
  | error e p => rw [hRun] at hm; exact hm

/-- An error of the program after `mapError f` is `f` of its error before. -/
def onMapped (f : ε → ε') (A : Stop ε' → S → Disk → Prop) : Stop ε → S → Disk → Prop
  | .error e => A (.error (f e))
  | .panic => A .panic
  | .crash => A .crash

theorem wp_mapError {f : ε → ε'} {A C : Stop ε' → S → Disk → Prop}
    (h : wp m s d Q (onMapped f A) (onMapped f C)) : wp (mapError f m) s d Q A C := by
  intro plan
  have hm := h plan
  unfold mapError
  cases hRun : m ⟨s, d, plan⟩ with
  | ok a p => rw [hRun] at hm; exact hm
  | error e p => rw [hRun] at hm; cases e <;> exact hm

theorem wp_attempt {Q : Option α → S → Disk → Prop} {A C : Stop ε' → S → Disk → Prop}
    (h : wp m s d (fun a s' d' => Q (some a) s' d')
      (fun e s' d' => match e with
        | .error _ => Q none s' d'
        | .panic => A .panic s' d'
        | .crash => A .crash s' d')
      (fun e s' d' => match e with
        | .error _ => Q none s' d'
        | .panic => C .panic s' d'
        | .crash => C .crash s' d')) : wp (attempt m) s d Q A C := by
  intro plan
  have hm := h plan
  unfold attempt
  cases hRun : m ⟨s, d, plan⟩ with
  | ok a p => rw [hRun] at hm; exact hm
  | error e p =>
    rw [hRun] at hm
    cases e with
    | error e =>
      rcases hm with ⟨hQ, hPlan⟩ | ⟨hPlan, hQ⟩
      · exact ⟨hQ, hPlan⟩
      · exact ⟨hQ, fun h => absurd h hPlan⟩
    | panic => exact hm
    | crash => exact hm

/-! ## What a precondition says about a run -/

/-- What a run returned or stopped with. -/
def outcome : EStateM.Result (Stop ε) (Proc S) α → Except (Stop ε) α
  | .ok a _ => .ok a
  | .error e _ => .error e

/-- The state a run ended in, however it ended. -/
def final : EStateM.Result (Stop ε) (Proc S) α → Proc S
  | .ok _ p => p
  | .error _ p => p

/-- What a run returned, if it returned. -/
def value (r : EStateM.Result (Stop ε) (Proc S) α) : Option α := (outcome r).toOption

theorem exists_of_value {r : EStateM.Result (Stop ε) (Proc S) α} {a : α} (h : value r = some a) :
    ∃ p, r = .ok a p := by
  cases r with
  | ok b p =>
    cases h
    exact ⟨p, rfl⟩
  | error e p => cases h

/-- What a run returned and the process after it, if it returned. -/
def finished : EStateM.Result (Stop ε) (Proc S) α → Option (α × Proc S)
  | .ok a p => some (a, p)
  | .error _ _ => none

theorem finished_eq_some {r : EStateM.Result (Stop ε) (Proc S) α} {a : α} {p : Proc S} :
    finished r = some (a, p) ↔ r = .ok a p := by
  cases r with
  | ok b q => simp [finished]
  | error e q => simp [finished]

theorem wp.of_ok (h : wp m s d Q A C) {plan : List Outcome} {a : α} {p : Proc S}
    (hRun : m ⟨s, d, plan⟩ = .ok a p) : Q a p.self p.disk := by
  have hm := h plan
  rw [hRun] at hm
  exact hm.1

theorem wp.of_error (h : wp m s d Q A C) {plan : List Outcome} {e : Stop ε} {p : Proc S}
    (hRun : m ⟨s, d, plan⟩ = .error e p) : A e p.self p.disk ∨ C e p.self p.disk := by
  have hm := h plan
  rw [hRun] at hm
  exact hm.imp And.left And.right

/-- When no call fails, a program that stops does so for a reason of its own. -/
theorem wp.of_error_nil (h : wp m s d Q A C) {e : Stop ε} {p : Proc S}
    (hRun : m ⟨s, d, []⟩ = .error e p) : A e p.self p.disk := by
  have hm := h []
  rw [hRun] at hm
  rcases hm with ⟨hStop, -⟩ | ⟨hPlan, -⟩
  · exact hStop
  · exact absurd rfl hPlan

/-- What holds however the program ends holds where it ends. -/
theorem wp.final {P : S → Disk → Prop} (h : wp m s d (fun _ => P) (fun _ => P) (fun _ => P))
    (plan : List Outcome) : P (final (m ⟨s, d, plan⟩)).self (final (m ⟨s, d, plan⟩)).disk := by
  have hm := h plan
  unfold Method.final
  split at hm
  · exact hm.1
  · exact hm.elim And.left And.right

/-- When no call fails, what a failed call leaves does not matter. -/
theorem wp.final_nil {P : S → Disk → Prop} (h : wp m s d (fun _ => P) (fun _ => P) C) :
    P (Method.final (m ⟨s, d, []⟩)).self (Method.final (m ⟨s, d, []⟩)).disk := by
  have hm := h []
  unfold Method.final
  split at hm
  · exact hm.1
  · exact hm.elim And.left fun hStop => (hStop.1 rfl).elim

/-- **Totality.** A program that has no reason of its own to stop returns when no call fails. -/
theorem wp_total (h : wp m s d Q (fun _ _ _ => False) C) :
    ∃ a p, m ⟨s, d, []⟩ = .ok a p ∧ Q a p.self p.disk ∧ p.plan = [] := by
  have hm := h []
  cases hRun : m ⟨s, d, []⟩ with
  | ok a p =>
    rw [hRun] at hm
    exact ⟨a, p, rfl, hm.1, hm.2 rfl⟩
  | error e p =>
    rw [hRun] at hm
    rcases hm with ⟨hFalse, -⟩ | ⟨hPlan, -⟩
    · exact hFalse.elim
    · exact absurd rfl hPlan

end Method

end MultimodalDb
