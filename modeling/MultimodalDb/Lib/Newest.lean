import Mathlib.Data.Set.Function
import Mathlib.Order.Lattice

/-!
# The newest of many

A place holds one value and is offered others one by one. An offer is taken where it is newer than
what is held. At the end the place holds a newest of all of them (`newest_mem`, `le_newest`),
whatever the order and however often an offer is made; with distinct times it is told by which
offers there were (`newest_congr`).
-/

namespace MultimodalDb

namespace Newest

variable {α β : Type*} [LinearOrder β] (time : α → β)

/-- What is held after an offer. -/
def newer (held offer : α) : α := if time held < time offer then offer else held

/-- What is held after many. -/
def newest (held : α) (offers : List α) : α := offers.foldl (newer time) held

variable {time} {held offer : α} {offers offers' : List α}

variable (time) in
theorem newer_eq_or (held offer : α) :
    newer time held offer = held ∨ newer time held offer = offer := by
  unfold newer
  split
  · exact Or.inr rfl
  · exact Or.inl rfl

theorem le_newer : time held ≤ time (newer time held offer) ∧
    time offer ≤ time (newer time held offer) := by
  unfold newer
  split
  · next hNewer => exact ⟨hNewer.le, le_rfl⟩
  · next hOlder => exact ⟨le_rfl, not_lt.mp hOlder⟩

theorem newest_cons : newest time held (offer :: offers) =
    newest time (newer time held offer) offers := rfl

/-- What is held was held or offered. -/
theorem newest_mem : newest time held offers ∈ held :: offers := by
  induction offers generalizing held with
  | nil => exact List.mem_singleton_self held
  | cons offer offers ih =>
    rw [newest_cons]
    rcases List.mem_cons.mp ih with hFirst | hLater
    · rw [hFirst]
      rcases newer_eq_or time held offer with hHeld | hOffer
      · rw [hHeld]
        exact List.mem_cons_self
      · rw [hOffer]
        exact List.mem_cons_of_mem _ List.mem_cons_self
    · exact List.mem_cons_of_mem _ (List.mem_cons_of_mem _ hLater)

/-- And nothing that was held or offered is newer. -/
theorem le_newest : ∀ a ∈ held :: offers, time a ≤ time (newest time held offers) := by
  induction offers generalizing held with
  | nil =>
    intro a hMem
    rw [List.mem_singleton.mp hMem]
    exact le_rfl
  | cons offer offers ih =>
    have hFirst := ih (newer time held offer) List.mem_cons_self
    rw [← newest_cons] at hFirst
    intro a hMem
    rcases List.mem_cons.mp hMem with rfl | hRest
    · exact le_newer.1.trans hFirst
    · rcases List.mem_cons.mp hRest with rfl | hLater
      · exact le_newer.2.trans hFirst
      · exact ih a (List.mem_cons_of_mem _ hLater)

/-- **Order does not matter.** With distinct times the same offers, in any order and any number of
times, leave the same value. -/
theorem newest_congr (hSame : ∀ a, a ∈ offers ↔ a ∈ offers')
    (hTimes : Set.InjOn time {a | a ∈ held :: offers}) :
    newest time held offers = newest time held offers' := by
  have hBoth : ∀ a, a ∈ held :: offers ↔ a ∈ held :: offers' := fun a => by
    rw [List.mem_cons, List.mem_cons, hSame a]
  have hOther : newest time held offers' ∈ held :: offers := (hBoth _).mpr newest_mem
  refine hTimes newest_mem hOther (le_antisymm ?_ ?_)
  · exact le_newest _ ((hBoth _).mp newest_mem)
  · exact le_newest _ hOther

end Newest

end MultimodalDb
