import MultimodalDb.Lib.Bytes

/-!
# Columns of fixed-width cells

A file of fixed-width cells is the concatenation of their encodings. A window inside cell `i` is a
window of that cell's encoding (`slice_flat`), and overwriting it changes that cell alone
(`splice_flat`). When the encoding covers every byte string of its width, any byte string is a
column and a tail shorter than a cell (`exists_flat`), and cutting it into chunks gives the cells
back (`chunksExact_flat`).
-/

namespace MultimodalDb

open Bytes

namespace Column

variable {α : Type*}

/-- The bytes of a column of cells. -/
def flat (cell : α → Bytes) (xs : List α) : Bytes := xs.flatMap cell

/-- The whole chunks of `width` bytes, in order; a shorter rest is left out. -/
def chunksExact (width : Nat) (bs : Bytes) : List Bytes :=
  (List.range (bs.length / width)).map (fun i => slice bs (i * width) width)

variable {cell : α → Bytes} {width : Nat}

@[simp] theorem flat_nil : flat cell ([] : List α) = [] := rfl

@[simp] theorem flat_cons (x : α) (xs : List α) :
    flat cell (x :: xs) = cell x ++ flat cell xs := rfl

@[simp] theorem flat_append (xs ys : List α) :
    flat cell (xs ++ ys) = flat cell xs ++ flat cell ys :=
  List.flatMap_append

theorem length_flat (hCell : ∀ a, (cell a).length = width) (xs : List α) :
    (flat cell xs).length = xs.length * width := by
  induction xs with
  | nil => simp
  | cons x xs ih =>
    rw [flat_cons, List.length_append, hCell, ih, List.length_cons, Nat.succ_mul, Nat.add_comm]

/-- The three parts of a column around cell `i`. -/
theorem flat_split {xs : List α} {i : Nat} {x : α} (h : xs[i]? = some x) :
    flat cell xs = flat cell (xs.take i) ++ (cell x ++ flat cell (xs.drop (i + 1))) := by
  obtain ⟨hi, rfl⟩ := List.getElem?_eq_some_iff.mp h
  rw [← flat_cons, ← flat_append]
  congr 1
  rw [← List.drop_eq_getElem_cons hi, List.take_append_drop]

theorem slice_flat (hCell : ∀ a, (cell a).length = width) {xs : List α} {i : Nat} {x : α}
    (h : xs[i]? = some x) {offset len : Nat} (hIn : offset + len ≤ width) :
    slice (flat cell xs) (i * width + offset) len = slice (cell x) offset len := by
  have hi : i < xs.length := (List.getElem?_eq_some_iff.mp h).1
  have hFront : (flat cell (xs.take i)).length = i * width := by
    rw [length_flat hCell, List.length_take_of_le hi.le]
  rw [flat_split h, slice_append_right _ _ (by omega), hFront, Nat.add_sub_cancel_left,
    slice_append_left _ (by rwa [hCell])]

theorem splice_flat (hCell : ∀ a, (cell a).length = width) {xs : List α} {i : Nat} {x x' : α}
    (h : xs[i]? = some x) {offset : Nat} {bytes : Bytes} (hIn : offset + bytes.length ≤ width)
    (hCellNew : splice (cell x) offset bytes = cell x') :
    splice (flat cell xs) (i * width + offset) bytes = flat cell (xs.set i x') := by
  have hi : i < xs.length := (List.getElem?_eq_some_iff.mp h).1
  have hFront : (flat cell (xs.take i)).length = i * width := by
    rw [length_flat hCell, List.length_take_of_le hi.le]
  have hSet : (xs.set i x')[i]? = some x' := List.getElem?_set_self hi
  rw [flat_split h, splice_append_right _ _ (by omega), hFront, Nat.add_sub_cancel_left,
    splice_append_left _ (by rwa [hCell]), hCellNew, flat_split hSet, List.take_set_of_le le_rfl,
    List.drop_set_of_lt (Nat.lt_succ_self i)]

/-- Every byte string is a column and a tail shorter than a cell. -/
theorem exists_flat (hWidth : 0 < width)
    (hCover : ∀ bs : Bytes, bs.length = width → ∃ a, cell a = bs) (bs : Bytes) :
    ∃ (xs : List α) (tail : Bytes), bs = flat cell xs ++ tail ∧ tail.length < width := by
  induction hLen : bs.length using Nat.strongRecOn generalizing bs with
  | ind len ih =>
    by_cases hShort : bs.length < width
    · exact ⟨[], bs, rfl, hShort⟩
    · obtain ⟨x, hx⟩ := hCover (bs.take width) (List.length_take_of_le (by omega))
      have hRest : (bs.drop width).length < len := by
        rw [List.length_drop]
        omega
      obtain ⟨xs, tail, hSplit, hTail⟩ := ih _ hRest (bs.drop width) rfl
      refine ⟨x :: xs, tail, ?_, hTail⟩
      rw [flat_cons, hx, List.append_assoc, ← hSplit, List.take_append_drop]

theorem chunksExact_flat (hWidth : 0 < width) (hCell : ∀ a, (cell a).length = width) (xs : List α)
    {tail : Bytes} (hTail : tail.length < width) :
    chunksExact width (flat cell xs ++ tail) = xs.map cell := by
  have hCount : (flat cell xs ++ tail).length / width = xs.length := by
    rw [List.length_append, length_flat hCell, Nat.mul_comm, Nat.mul_add_div hWidth,
      Nat.div_eq_of_lt hTail, Nat.add_zero]
  unfold chunksExact
  rw [hCount]
  apply List.ext_getElem
  · simp
  · intro i h _
    have hi : i < xs.length := by simpa using h
    have hNext : i * width + width ≤ xs.length * width := by
      rw [← Nat.succ_mul]
      exact Nat.mul_le_mul_right width hi
    have hSlice := slice_flat hCell (List.getElem?_eq_getElem hi) (Nat.zero_add width).le
    rw [Nat.add_zero] at hSlice
    rw [List.getElem_map, List.getElem_range, List.getElem_map,
      slice_append_left _ (by rwa [length_flat hCell]), hSlice, ← hCell xs[i], slice_zero_length]

end Column

end MultimodalDb
