import Mathlib.Data.Set.Basic
import Mathlib.Logic.Function.Basic

/-!
# Histories

What the clients of an object see of it is its history: which thread made which call, and what a
call returned to its thread. Between its call and its return the object may take steps that nobody
sees.

The atomic object makes a call take effect in one such step. An object whose histories are all
histories of the atomic one cannot be told from it, however its threads interleave; then the calls
have taken effect in some order, each of them between its call and its return (`atomic_order`).

Histories are compared by following one system's steps in the other (`Follows.histories_subset`).
-/

namespace MultimodalDb

/-- A system takes steps, and some of them are seen. -/
structure System (L : Type) where
  State : Type
  start : State
  step : State → Option L → State → Prop

namespace System

variable {L : Type} {A B : System L}

/-- Steps that lead from one state to another, with what is seen of them. -/
inductive Moves (A : System L) (s : A.State) : List L → A.State → Prop where
  | refl : Moves A s [] s
  | tail {h t e u} (hMoves : Moves A s h t) (hStep : A.step t e u) : Moves A s (h ++ e.toList) u

def Histories (A : System L) : Set (List L) := {h | ∃ s, A.Moves A.start h s}

theorem Moves.trans {s t u : A.State} {h h' : List L} (hFirst : A.Moves s h t)
    (hThen : A.Moves t h' u) :
    A.Moves s (h ++ h') u := by
  induction hThen with
  | refl => rwa [List.append_nil]
  | tail _ hStep ih =>
    rw [← List.append_assoc]
    exact ih.tail hStep

theorem Moves.single {s t : A.State} {e : Option L} (hStep : A.step s e t) : A.Moves s e.toList t :=
  .tail .refl hStep

/-- Every step of `A` is one that `B` can follow, with the same to be seen of it. -/
structure Follows (A B : System L) (Rel : A.State → B.State → Prop) : Prop where
  start : Rel A.start B.start
  step {s e s' t} : Rel s t → A.step s e s' → ∃ t', B.Moves t e.toList t' ∧ Rel s' t'

theorem Follows.moves {Rel : A.State → B.State → Prop} (hFollows : Follows A B Rel) {h : List L}
    {s s' : A.State}
    {t : B.State} (hRel : Rel s t) (hMoves : A.Moves s h s') :
    ∃ t', B.Moves t h t' ∧ Rel s' t' := by
  induction hMoves with
  | refl => exact ⟨t, .refl, hRel⟩
  | tail _ hStep ih =>
    obtain ⟨u, hThere, hRel⟩ := ih
    obtain ⟨u', hNext, hRel'⟩ := hFollows.step hRel hStep
    exact ⟨u', hThere.trans hNext, hRel'⟩

/-- **Following.** What is seen of a system may be seen of one that follows it. -/
theorem Follows.histories_subset {Rel : A.State → B.State → Prop} (hFollows : Follows A B Rel) :
    A.Histories ⊆ B.Histories := by
  rintro h ⟨s, hMoves⟩
  obtain ⟨t, hThere, -⟩ := hFollows.moves hFollows.start hMoves
  exact ⟨t, hThere⟩

theorem Follows.trans {D : System L} {Rel : A.State → B.State → Prop}
    {Rel' : B.State → D.State → Prop}
    (hFirst : Follows A B Rel) (hThen : Follows B D Rel') :
    Follows A D fun s u => ∃ t, Rel s t ∧ Rel' t u where
  start := ⟨B.start, hFirst.start, hThen.start⟩
  step := by
    rintro s e s' u ⟨t, hRel, hRel'⟩ hStep
    obtain ⟨t', hMoves, hNext⟩ := hFirst.step hRel hStep
    obtain ⟨u', hThere, hLast⟩ := hThen.moves hRel' hMoves
    exact ⟨u', hThere, t', hNext, hLast⟩

end System

/-- A relation between the threads of two systems, when one thread of each has moved. -/
theorem rel_update {X Y : Type} {Rel : X → Y → Prop} {xs : Nat → X} {ys : Nat → Y}
    (h : ∀ t, Rel (xs t) (ys t)) {t : Nat} {x : X} {y : Y} (hThread : Rel x y) (t' : Nat) :
    Rel (Function.update xs t x t') (Function.update ys t y t') := by
  by_cases hOther : t' = t
  · rw [hOther, Function.update_self, Function.update_self]
    exact hThread
  · rw [Function.update_of_ne hOther, Function.update_of_ne hOther]
    exact h t'

/-! ## Objects -/

/-- What is seen of an object: a thread calls it, and a call returns to its thread. -/
inductive Seen (C : Type) (Reply : C → Type) where
  | call (t : Nat) (c : C)
  | ret (t : Nat) (c : C) (r : Reply c)

namespace Atomic

variable {C : Type} {Reply : C → Type} {σ τ : Type}

/-- What a thread is about. -/
inductive Thread (C : Type) (Reply : C → Type) where
  | idle
  | called (c : C)
  | done (c : C) (r : Reply c)

section Object

variable (act : (c : C) → σ → Reply c × σ)

inductive Step : σ × (Nat → Thread C Reply) → Option (Seen C Reply) →
    σ × (Nat → Thread C Reply) → Prop where
  | call {s ts t c} (h : ts t = .idle) :
      Step (s, ts) (some (.call t c)) (s, Function.update ts t (.called c))
  | act {s ts t c} (h : ts t = .called c) :
    Step (s, ts) none ((act c s).2, Function.update ts t (.done c (act c s).1))
  | ret {s ts t c r} (h : ts t = .done c r) :
    Step (s, ts) (some (.ret t c r)) (s, Function.update ts t .idle)

/-- The object that makes every call take effect at once. -/
def object (s : σ) : System (Seen C Reply) :=
  ⟨σ × (Nat → Thread C Reply), (s, fun _ => .idle), Step act⟩

end Object

/-! ## Objects that hold the same -/

variable {act : (c : C) → σ → Reply c × σ} {act' : (c : C) → τ → Reply c × τ}

/-- One atomic object follows another whose contents it represents. -/
theorem follows_of_acts {Rep : σ → τ → Prop} {s : σ} {t : τ} (hStart : Rep s t)
    (hAct : ∀ c s t, Rep s t → (act c s).1 = (act' c t).1 ∧ Rep (act c s).2 (act' c t).2) :
    System.Follows (object act s) (object act' t) fun x y => Rep x.1 y.1 ∧ x.2 = y.2 where
  start := ⟨hStart, rfl⟩
  step {x e x' y} hRel hStep := by
    obtain ⟨s', ts⟩ := y
    obtain ⟨hRep, hThreads⟩ := hRel
    cases hStep with
    | call h =>
      subst hThreads
      exact ⟨_, .single (.call h), hRep, rfl⟩
    | act h =>
      subst hThreads
      obtain ⟨hReply, hNext⟩ := hAct _ _ _ hRep
      refine ⟨_, .single (.act h), hNext, ?_⟩
      rw [hReply]
    | ret h =>
      subst hThreads
      exact ⟨_, .single (.ret h), hRep, rfl⟩

/-! ## The order of the calls -/

/-- A call that took effect, with its thread and what it returns. -/
structure Op (C : Type) (Reply : C → Type) where
  thread : Nat
  call : C
  reply : Reply call

/-- The calls, made one after the other, have these replies. -/
inductive Legal (act : (c : C) → σ → Reply c × σ) : σ → List (Op C Reply) → σ → Prop where
  | nil {s} : Legal act s [] s
  | cons {s t c ops s'} (h : Legal act (act c s).2 ops s') :
      Legal act s (⟨t, c, (act c s).1⟩ :: ops) s'

theorem Legal.concat {s s' : σ} {ops : List (Op C Reply)} (h : Legal act s ops s')
    (t : Nat) (c : C) :
    Legal act s (ops ++ [⟨t, c, (act c s').1⟩]) (act c s').2 := by
  induction h with
  | nil => exact .cons .nil
  | cons _ ih => exact .cons ih

/-- What the calls of a thread returned, in a history. -/
def returned (t : Nat) : List (Seen C Reply) → List ((c : C) × Reply c)
  | [] => []
  | .call _ _ :: h => returned t h
  | .ret t' c r :: h => if t' = t then ⟨c, r⟩ :: returned t h else returned t h

/-- The calls of a thread among those that took effect. -/
def opsOf (t : Nat) (ops : List (Op C Reply)) : List ((c : C) × Reply c) :=
  (ops.filter fun op => op.thread = t).map fun op => ⟨op.call, op.reply⟩

/-- What a thread's call that took effect is about to return. -/
def Thread.pending : Thread C Reply → List ((c : C) × Reply c)
  | done c r => [⟨c, r⟩]
  | _ => []

theorem returned_append (t : Nat) (h h' : List (Seen C Reply)) :
    returned t (h ++ h') = returned t h ++ returned t h' := by
  induction h with
  | nil => rfl
  | cons e h ih =>
    cases e with
    | call _ _ => exact ih
    | ret t' c r =>
      rw [List.cons_append, returned, returned, ih]
      split
      · rfl
      · rfl

/-- **The order of the calls.** Between two states the calls of each thread took effect in the order
in which the thread made them, no later than they returned; made one after the other, they have the
same replies. -/
theorem atomic_order {s₀ : σ} {h : List (Seen C Reply)} {x y : (object act s₀).State}
    (hMoves : (object act s₀).Moves x h y) : ∃ ops, Legal act x.1 ops y.1 ∧
      ∀ t, (x.2 t).pending ++ opsOf t ops = returned t h ++ (y.2 t).pending := by
  induction hMoves with
  | refl => exact ⟨[], .nil, fun t => List.append_nil _⟩
  | tail _ hStep ih =>
    obtain ⟨ops, hLegal, hThreads⟩ := ih
    cases hStep with
    | @call s ts t c hIdle =>
      refine ⟨ops, hLegal, fun t' => ?_⟩
      have hNone : returned t' [(.call t c : Seen C Reply)] = [] := rfl
      rw [hThreads, Option.toList_some, returned_append, hNone, List.append_nil]
      dsimp only
      by_cases hThread : t' = t
      · rw [hThread, Function.update_self, hIdle]
        rfl
      · rw [Function.update_of_ne hThread]
    | @act s ts t c hCalled =>
      refine ⟨_, hLegal.concat t c, fun t' => ?_⟩
      rw [opsOf, List.filter_append, List.map_append, ← opsOf, ← List.append_assoc, hThreads,
        Option.toList_none, List.append_nil]
      dsimp only
      by_cases hThread : t' = t
      · rw [hThread, Function.update_self, hCalled]
        simp [Thread.pending]
      · rw [Function.update_of_ne hThread]
        simp [Ne.symm hThread]
    | @ret s ts t c r hDone =>
      refine ⟨ops, hLegal, fun t' => ?_⟩
      rw [hThreads, Option.toList_some, returned_append]
      dsimp only
      by_cases hThread : t' = t
      · rw [hThread, Function.update_self, hDone]
        simp [returned, Thread.pending]
      · rw [Function.update_of_ne hThread]
        simp [returned, Ne.symm hThread]

end Atomic

end MultimodalDb
