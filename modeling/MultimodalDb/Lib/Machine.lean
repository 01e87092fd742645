import Mathlib.Data.Option.Basic

/-!
# Machines that take steps

A machine is a partial step function on states. `run` takes the steps of a list of events in order.
`Runs step ok s s'` says that some list of events leads from `s` to `s'`, every step of it taken
where `ok` allows the event; with `ok` always true it is reachability. What every step preserves, a
run preserves (`Runs.invariant`).
-/

namespace MultimodalDb

namespace Machine

variable {σ ε : Type*} (step : σ → ε → Option σ)

def run : σ → List ε → Option σ
  | s, [] => some s
  | s, e :: es => (step s e).bind (run · es)

/-- The states that runs from `s` reach when every step of theirs is one that `ok` allows. -/
inductive Runs (ok : σ → ε → Prop) (s : σ) : σ → Prop where
  | refl : Runs ok s s
  | tail {t e u} (h : Runs ok s t) (hOk : ok t e) (hStep : step t e = some u) : Runs ok s u

/-- The states that runs from `s` reach. -/
abbrev Reachable (s t : σ) : Prop := Runs step (fun _ _ => True) s t

variable {step} {ok ok' : σ → ε → Prop} {s t u : σ}

theorem Runs.trans (h : Runs step ok s t) (h' : Runs step ok t u) : Runs step ok s u := by
  induction h' with
  | refl => exact h
  | tail _ hOk hStep ih => exact ih.tail hOk hStep

theorem Runs.mono (h : Runs step ok s t) (hOk : ∀ s e, ok s e → ok' s e) : Runs step ok' s t := by
  induction h with
  | refl => exact .refl
  | tail _ hHere hStep ih => exact ih.tail (hOk _ _ hHere) hStep

theorem Runs.reachable (h : Runs step ok s t) : Reachable step s t := h.mono fun _ _ _ => trivial

/-- **Invariants.** What holds at the start and is preserved by every allowed step holds at the end.
-/
theorem Runs.invariant {P : σ → Prop} (h : Runs step ok s t) (hStart : P s)
    (hStep : ∀ t e u, Runs step ok s t → P t → ok t e → step t e = some u → P u) : P t := by
  induction h with
  | refl => exact hStart
  | tail hRun hOk hNext ih => exact hStep _ _ _ hRun ih hOk hNext

theorem runs_of_run {es : List ε} (h : run step s es = some t) : Reachable step s t := by
  induction es generalizing s with
  | nil =>
    cases h
    exact .refl
  | cons e es ih =>
    obtain ⟨s', hStep, hRest⟩ := Option.bind_eq_some_iff.mp h
    have hFirst : Reachable step s s' := .tail .refl trivial hStep
    exact hFirst.trans (ih hRest)

/-- Every step of a list of events is taken where a decidable condition allows it. -/
def allowed (step : σ → ε → Option σ) (check : σ → ε → Bool) : σ → List ε → Bool
  | _, [] => true
  | s, e :: es => check s e && (step s e).elim false (allowed step check · es)

theorem runs_of_allowed {check : σ → ε → Bool} {es : List ε} (hRun : run step s es = some t)
    (hOk : allowed step check s es = true) : Runs step (fun s e => check s e = true) s t := by
  induction es generalizing s with
  | nil =>
    cases hRun
    exact .refl
  | cons e es ih =>
    obtain ⟨s', hStep, hRest⟩ := Option.bind_eq_some_iff.mp hRun
    rw [allowed, hStep, Option.elim_some, Bool.and_eq_true] at hOk
    have hFirst : Runs step (fun s e => check s e = true) s s' := .tail .refl hOk.1 hStep
    exact hFirst.trans (ih hRest hOk.2)

end Machine

/-! ## Logs -/

/-- Every entry of a log that is kept the newest first satisfies `P` with the entries before it. -/
def Throughout {α : Type*} (P : List α → α → Prop) : List α → Prop
  | [] => True
  | a :: older => P older a ∧ Throughout P older

theorem Throughout.at {α : Type*} {P : List α → α → Prop} {newer : List α} {a : α} {older : List α}
    (h : Throughout P (newer ++ a :: older)) : P older a := by
  induction newer with
  | nil => exact h.1
  | cons first newer ih => exact ih h.2

end MultimodalDb
