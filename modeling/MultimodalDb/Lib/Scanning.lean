import Mathlib.Data.List.TakeDrop
import Mathlib.Data.List.TakeWhile

/-!
# Reading a list by position

A loop that walks a list by an index `i` sees `xs.drop i`. `scanWhile` is the loop over a run of
elements, and takes a bound on its rounds; `slice` is the range between two positions, which is a
fault where the range does not lie within the list.
-/

namespace MultimodalDb

variable {α : Type}

/-- The elements from `start` up to `stop`. -/
def slice (xs : List α) (start stop : Nat) : Option (List α) :=
  if start ≤ stop ∧ stop ≤ xs.length then some ((xs.drop start).take (stop - start)) else none

/-- The first position from `i` on whose element is not one of `p`. -/
def scanWhile (xs : List α) (p : α → Bool) : Nat → Nat → Option Nat
  | 0, _ => none
  | fuel + 1, i => if xs[i]?.any p then scanWhile xs p fuel (i + 1) else some i

section Suffix

variable {xs text rest : List α} {i : Nat} {x : α}

theorem getElem?_of_drop (h : xs.drop i = x :: rest) : xs[i]? = some x := by
  rw [← List.head?_drop, h, List.head?_cons]

theorem getElem?_succ_of_drop (h : xs.drop i = x :: rest) : xs[i + 1]? = rest.head? := by
  rw [← List.head?_drop, ← List.tail_drop, h, List.tail_cons]

theorem drop_succ_of_drop (h : xs.drop i = x :: rest) : xs.drop (i + 1) = rest := by
  rw [← List.tail_drop, h, List.tail_cons]

theorem drop_add_of_drop (h : xs.drop i = text ++ rest) : xs.drop (i + text.length) = rest := by
  rw [← List.drop_drop, h, List.drop_left]

theorem length_of_drop (h : xs.drop i = x :: rest) : i + rest.length + 1 = xs.length := by
  have hLength := congrArg List.length h
  rw [List.length_drop, List.length_cons] at hLength
  omega

theorem slice_of_drop (h : xs.drop i = text ++ rest) (hi : i ≤ xs.length) :
    slice xs i (i + text.length) = some text := by
  have hLength := congrArg List.length h
  rw [List.length_drop, List.length_append] at hLength
  have hWithin : i ≤ i + text.length ∧ i + text.length ≤ xs.length := by omega
  rw [slice, if_pos hWithin, Nat.add_sub_cancel_left, h, List.take_left]

end Suffix

/-! ## Runs -/

/-- Nothing of the run follows. -/
def NotAhead (p : α → Bool) (rest : List α) : Prop := ∀ x ∈ rest.head?, p x = false

@[simp] theorem notAhead_nil (p : α → Bool) : NotAhead p [] := by simp [NotAhead]

@[simp] theorem notAhead_cons {p : α → Bool} {x : α} {rest : List α} :
    NotAhead p (x :: rest) ↔ p x = false := by simp [NotAhead]

theorem exists_run (p : α → Bool) (xs : List α) :
    ∃ run rest, xs = run ++ rest ∧ (∀ x ∈ run, p x = true) ∧ NotAhead p rest := by
  induction xs with
  | nil => exact ⟨[], [], rfl, by simp, notAhead_nil p⟩
  | cons x xs ih =>
    cases hx : p x with
    | false => exact ⟨[], x :: xs, rfl, by simp, notAhead_cons.mpr hx⟩
    | true =>
      obtain ⟨run, rest, rfl, hRun, hRest⟩ := ih
      refine ⟨x :: run, rest, rfl, ?_, hRest⟩
      intro y hy
      obtain rfl | hy := List.mem_cons.mp hy
      · exact hx
      · exact hRun y hy

/-- The loop stops where the run ends. -/
theorem scanWhile_run {xs : List α} {p : α → Bool} {run rest : List α} {fuel i : Nat}
    (h : xs.drop i = run ++ rest) (hRun : ∀ x ∈ run, p x = true) (hRest : NotAhead p rest)
    (hFuel : run.length < fuel) : scanWhile xs p fuel i = some (i + run.length) := by
  induction fuel generalizing i run with
  | zero => omega
  | succ fuel ih =>
    cases run with
    | nil =>
      have hHead : xs[i]? = rest.head? := by rw [← List.head?_drop, h, List.nil_append]
      have hStop : xs[i]?.any p = false := by
        rw [hHead]
        cases hx : rest.head? with
        | none => rfl
        | some x => exact hRest x hx
      rw [scanWhile, hStop]
      rfl
    | cons x run =>
      rw [List.length_cons] at hFuel
      have hGo : xs[i]?.any p = true := by
        rw [getElem?_of_drop h]
        exact hRun x List.mem_cons_self
      rw [scanWhile, if_pos hGo, ih (drop_succ_of_drop h)
        (fun y hy => hRun y (List.mem_cons_of_mem x hy)) (by omega), List.length_cons]
      congr 1
      omega

end MultimodalDb
