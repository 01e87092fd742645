import Mathlib.Data.Finset.Union
import Mathlib.Order.Bounds.Basic
import Mathlib.Order.Nat

/-!
# Distances in a graph

A graph is given by the list of neighbors of each vertex, in which a vertex may stand more than
once. `Nearest` is the length of a shortest path, and `ball` has the vertices within a distance.

A search that goes outward by layers knows at any time everything within some distance `d`, a part
of what is at `d + 1`, and nothing farther (`Layered`). Two steps keep that: one more neighbor of a
vertex at `d` is at `d + 1` (`Layered.add`), and once all of them are known so is everything within
`d + 1` (`Layered.next`).
-/

namespace MultimodalDb

namespace Breadth

variable {α : Type*} (neighbors : α → List α) (root : α)

inductive Path : α → Nat → Prop where
  | here : Path root 0
  | step {y x : α} {n : Nat} : Path y n → x ∈ neighbors y → Path x (n + 1)

/-- The length of a shortest path. -/
def Nearest (x : α) (d : Nat) : Prop := IsLeast {n | Path neighbors root x n} d

def ball [DecidableEq α] : Nat → Finset α
  | 0 => {root}
  | n + 1 => ball n ∪ (ball n).biUnion fun y => (neighbors y).toFinset

/-- What a search knows that has everything within `d` and a part of what is at `d + 1`. -/
structure Layered (d : Nat) (seen : α → Option Nat) : Prop where
  exact : ∀ {x n}, seen x = some n → Nearest neighbors root x n
  most : ∀ {x n}, seen x = some n → n ≤ d + 1
  full : ∀ {x n}, Nearest neighbors root x n → n ≤ d → seen x = some n

variable {neighbors root} {x y : α} {d n : Nat} {seen : α → Option Nat}

/-! ## Shortest paths -/

theorem Path.nearest (h : Path neighbors root x n) : ∃ d, d ≤ n ∧ Nearest neighbors root x d := by
  classical
  have hSome : ∃ n, Path neighbors root x n := ⟨n, h⟩
  exact ⟨Nat.find hSome, Nat.find_min' hSome h, Nat.find_spec hSome,
    fun _ hPath => Nat.find_min' hSome hPath⟩

theorem Nearest.eq (h : Nearest neighbors root x d) (h' : Nearest neighbors root x n) : d = n :=
  IsLeast.unique h h'

theorem nearest_root : Nearest neighbors root root 0 := ⟨Path.here, fun _ _ => Nat.zero_le _⟩

theorem nearest_zero_iff : Nearest neighbors root x 0 ↔ x = root := by
  constructor
  · rintro ⟨hPath, -⟩
    cases hPath
    rfl
  · rintro rfl
    exact nearest_root

/-- In front of a vertex on a shortest path there is one that is nearer by one. -/
theorem Nearest.before (h : Nearest neighbors root x (d + 1)) :
    ∃ y, Nearest neighbors root y d ∧ x ∈ neighbors y := by
  obtain ⟨hPath, hLeast⟩ := h
  cases hPath with
  | @step y _ _ hPath hEdge =>
    refine ⟨y, ⟨hPath, fun n hShort => ?_⟩, hEdge⟩
    have hLe : d + 1 ≤ n + 1 := hLeast (Path.step hShort hEdge)
    omega

section Ball

variable [DecidableEq α]

theorem mem_ball : x ∈ ball neighbors root n ↔ ∃ d, d ≤ n ∧ Nearest neighbors root x d := by
  induction n generalizing x with
  | zero =>
    rw [ball, Finset.mem_singleton]
    constructor
    · exact fun h => ⟨0, le_rfl, nearest_zero_iff.mpr h⟩
    · rintro ⟨d, hd, hNear⟩
      obtain rfl : d = 0 := by omega
      exact nearest_zero_iff.mp hNear
  | succ n ih =>
    simp only [ball, Finset.mem_union, Finset.mem_biUnion, List.mem_toFinset, ih]
    constructor
    · rintro (⟨d, hd, hNear⟩ | ⟨y, ⟨d, hd, hNear⟩, hEdge⟩)
      · exact ⟨d, by omega, hNear⟩
      · obtain ⟨d', hd', hNear'⟩ := (Path.step hNear.1 hEdge).nearest
        exact ⟨d', by omega, hNear'⟩
    · rintro ⟨d, hd, hNear⟩
      cases d with
      | zero => exact Or.inl ⟨0, Nat.zero_le n, hNear⟩
      | succ d =>
        obtain ⟨y, hBefore, hEdge⟩ := hNear.before
        exact Or.inr ⟨y, ⟨d, by omega, hBefore⟩, hEdge⟩

end Ball

/-! ## Searching by layers -/

namespace Layered

variable [DecidableEq α]

theorem start : Layered neighbors root 0 (Function.update (fun _ => none) root (some 0)) := by
  have hSeen {x : α} {n : Nat} (h : Function.update (fun _ => none) root (some 0) x = some n) :
      x = root ∧ n = 0 := by
    by_cases hx : x = root
    · subst hx
      rw [Function.update_self] at h
      exact ⟨rfl, (Option.some.inj h).symm⟩
    · rw [Function.update_of_ne hx] at h
      cases h
  refine ⟨fun h => ?_, fun h => ?_, fun hNear hn => ?_⟩
  · obtain ⟨rfl, rfl⟩ := hSeen h
    exact nearest_root
  · obtain ⟨rfl, rfl⟩ := hSeen h
    exact Nat.zero_le _
  · obtain rfl : _ = 0 := Nat.le_zero.mp hn
    obtain rfl := nearest_zero_iff.mp hNear
    exact Function.update_self ..

/-- A neighbor of a vertex at `d` that is not known yet is at `d + 1`. -/
theorem add (h : Layered neighbors root d seen) (hFrom : seen y = some d) (hEdge : x ∈ neighbors y)
    (hNew : seen x = none) :
    Layered neighbors root d (Function.update seen x (some (d + 1))) := by
  have hNear : Nearest neighbors root x (d + 1) := by
    have hPath : Path neighbors root x (d + 1) := Path.step (h.exact hFrom).1 hEdge
    obtain ⟨n, hn, hNear⟩ := hPath.nearest
    obtain hShort | rfl := Nat.lt_or_eq_of_le hn
    · rw [h.full hNear (by omega)] at hNew
      cases hNew
    · exact hNear
  refine ⟨fun {z n} hz => ?_, fun {z n} hz => ?_, fun {z n} hz hn => ?_⟩
  · by_cases hx : z = x
    · subst hx
      rw [Function.update_self, Option.some.injEq] at hz
      exact hz ▸ hNear
    · rw [Function.update_of_ne hx] at hz
      exact h.exact hz
  · by_cases hx : z = x
    · subst hx
      rw [Function.update_self, Option.some.injEq] at hz
      omega
    · rw [Function.update_of_ne hx] at hz
      exact h.most hz
  · have hNe : z ≠ x := by
      rintro rfl
      rw [h.full hz hn] at hNew
      cases hNew
    rw [Function.update_of_ne hNe]
    exact h.full hz hn

omit [DecidableEq α] in
/-- Once every neighbor of the vertices at `d` is known, so is everything within `d + 1`. -/
theorem next (h : Layered neighbors root d seen)
    (hAll : ∀ y, seen y = some d → ∀ x ∈ neighbors y, seen x ≠ none) :
    Layered neighbors root (d + 1) seen := by
  refine ⟨h.exact, fun hx => ?_, fun {x n} hNear hn => ?_⟩
  · have := h.most hx
    omega
  · obtain hShort | rfl := Nat.lt_or_eq_of_le hn
    · exact h.full hNear (by omega)
    · obtain ⟨y, hBefore, hEdge⟩ := hNear.before
      obtain ⟨k, hk⟩ := Option.ne_none_iff_exists'.mp (hAll y (h.full hBefore le_rfl) x hEdge)
      rw [hk, (h.exact hk).eq hNear]

end Layered

end Breadth

end MultimodalDb
