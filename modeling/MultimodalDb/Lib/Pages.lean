import Mathlib.Algebra.BigOperators.Group.List.Basic
import Mathlib.Algebra.GroupWithZero.Nat
import Mathlib.Data.Finset.Sort

/-!
# Pages of an ordered set

A page is the first elements past a cursor, at most as many as its limit. An element that is not in
the set does as a cursor as well. The cursor of the next page is the last element of this one. Pages
that follow one another in this way list the set in its order, with nothing left out or listed
twice, and an empty page comes exactly when everything is listed (`flatten_walk`,
`flatten_of_nil_mem`, `nil_mem_walk`).
-/

namespace MultimodalDb

namespace Pages

variable {α : Type*} [LinearOrder α]

/-- The elements past a cursor, and all of them without one. -/
def past (s : Finset α) : Option α → Finset α
  | none => s
  | some cursor => s.filter (cursor < ·)

def page (s : Finset α) (after : Option α) (limit : Nat) : List α :=
  ((past s after).sort (· ≤ ·)).take limit

/-- The cursor behind a page. An empty page leaves it where it was. -/
def next (after : Option α) (rows : List α) : Option α := rows.getLast?.or after

variable {s : Finset α} {after : Option α} {limit : Nat} {a : α}

@[simp] theorem mem_past_some {cursor : α} : a ∈ past s (some cursor) ↔ a ∈ s ∧ cursor < a :=
  Finset.mem_filter

theorem past_subset (s : Finset α) (after : Option α) : past s after ⊆ s := by
  cases after with
  | none => exact Finset.Subset.refl s
  | some cursor => exact Finset.filter_subset _ s

theorem mem_of_mem_page (h : a ∈ page s after limit) : a ∈ s :=
  past_subset s after ((Finset.mem_sort _).mp (List.mem_of_mem_take h))

theorem mem_next (hAfter : ∀ c ∈ after, c ∈ s) : ∀ c ∈ next after (page s after limit), c ∈ s := by
  intro c hc
  rw [next, Option.mem_def, Option.or_eq_some_iff] at hc
  rcases hc with hLast | ⟨-, hOld⟩
  · exact mem_of_mem_page (List.mem_of_getLast? hLast)
  · exact hAfter c hOld

theorem page_eq_nil_iff (hLimit : 0 < limit) : page s after limit = [] ↔ past s after = ∅ := by
  rw [page, List.take_eq_nil_iff, ← Finset.card_eq_zero, ← Finset.length_sort (· ≤ ·),
    List.length_eq_zero_iff]
  exact or_iff_right hLimit.ne'

/-- An element past the cursor is past everything that the cursor is past. -/
theorem mem_past_of_lt {b : α} (ha : a ∈ past s after) (hb : b ∈ s) (hLt : a < b) :
    b ∈ past s after := by
  cases after with
  | none => exact hb
  | some cursor => exact mem_past_some.mpr ⟨hb, (mem_past_some.mp ha).2.trans hLt⟩

/-- **Behind a page** come the elements that it left. -/
theorem sort_past_next (s : Finset α) (after : Option α) (limit : Nat) :
    (past s (next after (page s after limit))).sort (· ≤ ·) =
      ((past s after).sort (· ≤ ·)).drop limit := by
  obtain ⟨L, hL⟩ : ∃ L, L = (past s after).sort (· ≤ ·) := ⟨_, rfl⟩
  have hSplit := List.take_append_drop limit L
  rw [next, page, ← hL]
  rcases List.eq_nil_or_concat (L.take limit) with hNone | ⟨front, last, hTake⟩
  · rw [hNone, List.nil_append] at hSplit
    rw [hNone, List.getLast?_nil, Option.none_or, hSplit, hL]
  · rw [List.concat_eq_append] at hTake
    rw [hTake, List.append_assoc, List.singleton_append] at hSplit
    have hSorted : (front ++ last :: L.drop limit).Pairwise (· < ·) := by
      rw [hSplit, hL]
      exact (Finset.sortedLT_sort _).pairwise
    obtain ⟨-, hRest, hFront⟩ := List.pairwise_append.mp hSorted
    obtain ⟨hLast, hDrop⟩ := List.pairwise_cons.mp hRest
    rw [hTake, List.getLast?_append, List.getLast?_singleton, Option.some_or, Option.some_or]
    refine (Finset.sortedLT_sort _).eq_of_mem_iff hDrop.sortedLT fun b => ?_
    have hMem : ∀ b, b ∈ past s after ↔ b ∈ front ++ last :: L.drop limit := fun b => by
      rw [hSplit, hL, Finset.mem_sort]
    rw [Finset.mem_sort, mem_past_some]
    constructor
    · rintro ⟨hb, hLt⟩
      have hHere : last ∈ past s after := (hMem last).mpr (by simp)
      rcases List.mem_append.mp ((hMem b).mp (mem_past_of_lt hHere hb hLt)) with hIn | hIn
      · exact absurd (hFront b hIn last List.mem_cons_self) hLt.not_gt
      · exact (List.mem_cons.mp hIn).resolve_left hLt.ne'
    · intro hb
      exact ⟨past_subset s after ((hMem b).mpr (by simp [hb])), hLast b hb⟩

/-! ## Walks -/

section Walks

variable {β κ : Type*} (read : Option κ → Nat → List β) (cursorOf : β → κ)

/-- The pages that a reader gets who passes the last row as the next cursor, for the limits it asks
with. -/
def walk : Option κ → List Nat → List (List β)
  | _, [] => []
  | after, limit :: limits =>
    let rows := read after limit
    rows :: walk ((rows.getLast?.map cursorOf).or after) limits

/-- The reader's pages are those of a set, each of its elements shown as a row. -/
def Reads (s : Finset α) (row : α → β) : Prop :=
  ∀ after : Option α, (∀ a ∈ after, a ∈ s) → ∀ limit,
    read (after.map fun a => cursorOf (row a)) limit = (page s after limit).map row

variable {read cursorOf} {row : α → β}

theorem walk_cons (h : Reads read cursorOf s row) (hAfter : ∀ a ∈ after, a ∈ s) (limit : Nat)
    (limits : List Nat) :
    walk read cursorOf (after.map fun a => cursorOf (row a)) (limit :: limits) =
      (page s after limit).map row ::
        walk read cursorOf ((next after (page s after limit)).map fun a => cursorOf (row a))
          limits := by
  rw [walk, h after hAfter limit, List.getLast?_map, Option.map_map, next]
  congr 2
  cases (page s after limit).getLast? <;> rfl

/-- **The pages** of a walk are the elements past its cursor, in order. -/
theorem flatten_walk_past (h : Reads read cursorOf s row) (limits : List Nat)
    (hAfter : ∀ a ∈ after, a ∈ s) :
    (walk read cursorOf (after.map fun a => cursorOf (row a)) limits).flatten =
      (((past s after).sort (· ≤ ·)).take limits.sum).map row := by
  induction limits generalizing after with
  | nil => rfl
  | cons limit limits ih =>
    rw [walk_cons h hAfter, List.flatten_cons, ih (mem_next hAfter), sort_past_next,
      ← List.map_append, page, List.sum_cons, List.take_add]

theorem flatten_walk (h : Reads read cursorOf s row) (limits : List Nat) :
    (walk read cursorOf none limits).flatten = ((s.sort (· ≤ ·)).take limits.sum).map row := by
  have hStart : ∀ a ∈ (none : Option α), a ∈ s := nofun
  exact flatten_walk_past h limits hStart

theorem flatten_of_nil_mem_past (h : Reads read cursorOf s row) {limits : List Nat}
    (hLimits : ∀ limit ∈ limits, 0 < limit) (hAfter : ∀ a ∈ after, a ∈ s)
    (hNil : [] ∈ walk read cursorOf (after.map fun a => cursorOf (row a)) limits) :
    (walk read cursorOf (after.map fun a => cursorOf (row a)) limits).flatten =
      ((past s after).sort (· ≤ ·)).map row := by
  induction limits generalizing after with
  | nil => cases hNil
  | cons limit limits ih =>
    rw [walk_cons h hAfter] at hNil ⊢
    rw [List.flatten_cons]
    rcases List.mem_cons.mp hNil with hEmpty | hLater
    · have hPage : page s after limit = [] := List.map_eq_nil_iff.mp hEmpty.symm
      have hPast := (page_eq_nil_iff (hLimits limit List.mem_cons_self)).mp hPage
      rw [flatten_walk_past h limits (mem_next hAfter), sort_past_next, hPage, hPast]
      simp
    · rw [ih (fun l hl => hLimits l (List.mem_cons_of_mem _ hl)) (mem_next hAfter) hLater,
        sort_past_next, ← List.map_append, page, List.take_append_drop]

/-- An empty page comes only when everything is listed. -/
theorem flatten_of_nil_mem (h : Reads read cursorOf s row) {limits : List Nat}
    (hLimits : ∀ limit ∈ limits, 0 < limit) (hNil : [] ∈ walk read cursorOf none limits) :
    (walk read cursorOf none limits).flatten = (s.sort (· ≤ ·)).map row := by
  have hStart : ∀ a ∈ (none : Option α), a ∈ s := nofun
  exact flatten_of_nil_mem_past h hLimits hStart hNil

theorem length_walk (after : Option κ) (limits : List Nat) :
    (walk read cursorOf after limits).length = limits.length := by
  induction limits generalizing after with
  | nil => rfl
  | cons limit limits ih => exact congrArg Nat.succ (ih _)

/-- And it does come. -/
theorem nil_mem_walk (h : Reads read cursorOf s row) {limits : List Nat}
    (hMany : s.card < limits.length) :
    [] ∈ walk read cursorOf none limits := by
  by_contra hNone
  have hEach : (walk read cursorOf none limits).length ≤
      (walk read cursorOf none limits).flatten.length := by
    rw [List.length_flatten, ← List.length_map List.length]
    refine List.length_le_sum_of_one_le _ fun n hn => ?_
    obtain ⟨rows, hRows, rfl⟩ := List.mem_map.mp hn
    exact List.length_pos_iff.mpr fun hEmpty => hNone (hEmpty ▸ hRows)
  rw [length_walk, flatten_walk h, List.length_map] at hEach
  have hTake := List.length_take_le' limits.sum (s.sort (· ≤ ·))
  rw [Finset.length_sort] at hTake
  omega

end Walks

end Pages

end MultimodalDb
