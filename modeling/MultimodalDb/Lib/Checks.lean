import Mathlib.Data.List.Forall2

/-!
# Checks that may refuse

A check runs in `Except`: it goes on, or it refuses with an error. `Refuses P x` says that every
error `x` can end in satisfies `P`. A loop of checks that goes through has passed each of them
(`yields_of_forIn`).
-/

namespace MultimodalDb

variable {ε α β : Type} {P : ε → Prop}

/-- Whatever the check refuses with satisfies `P`. -/
def Refuses (P : ε → Prop) : Except ε α → Prop
  | .error e => P e
  | .ok _ => True

theorem Refuses.of_error {x : Except ε α} (h : Refuses P x) {e : ε}
    (hError : x = .error e) : P e := by
  rw [hError] at h
  exact h

theorem Refuses.mono {Q : ε → Prop} {x : Except ε α} (h : Refuses P x) (hQ : ∀ e, P e → Q e) :
    Refuses Q x := by
  cases x with
  | error e => exact hQ e h
  | ok a => trivial

theorem Refuses.bind {x : Except ε α} {f : α → Except ε β} (h : Refuses P x)
    (hf : ∀ a, Refuses P (f a)) : Refuses P (x >>= f) := by
  cases x with
  | error e => exact h
  | ok a => exact hf a

theorem Refuses.forIn {l : List α} {f : α → β → Except ε (ForInStep β)}
    (h : ∀ a b, Refuses P (f a b)) (b : β) : Refuses P (forIn l b f) := by
  induction l generalizing b with
  | nil => trivial
  | cons a l ih =>
    rw [List.forIn_cons]
    apply Refuses.bind (h a b)
    intro step
    cases step with
    | done b' => trivial
    | yield b' => exact ih b'

theorem exists_of_bind {x : Except ε α} {f : α → Except ε β} {b : β} (h : x >>= f = .ok b) :
    ∃ a, x = .ok a ∧ f a = .ok b := by
  cases x with
  | error e => cases h
  | ok a => exact ⟨a, rfl, h⟩

theorem bind_eq_ok {x y : Except ε Unit} : (do x; y) = .ok () ↔ x = .ok () ∧ y = .ok () := by
  cases x with
  | error e => exact ⟨nofun, fun h => absurd h.1 nofun⟩
  | ok u => exact ⟨fun h => ⟨rfl, h⟩, fun h => h.2⟩

/-- A list of checks goes through where each of them does. -/
theorem forM_eq_ok {l : List α} {f : α → Except ε PUnit.{1}} :
    l.forM f = .ok ⟨⟩ ↔ ∀ a ∈ l, f a = .ok ⟨⟩ := by
  induction l with
  | nil => exact ⟨fun _ => nofun, fun _ => rfl⟩
  | cons first l ih =>
    change (do f first; l.forM f) = _ ↔ _
    rw [bind_eq_ok, ih, List.forall_mem_cons]

/-- What a traversal gives, element by element. -/
theorem forall₂_of_mapM {l : List α} {f : α → Except ε β} {bs : List β} (h : l.mapM f = .ok bs) :
    List.Forall₂ (fun a b => f a = .ok b) l bs := by
  induction l generalizing bs with
  | nil =>
    cases h
    exact .nil
  | cons first l ih =>
    rw [List.mapM_cons] at h
    obtain ⟨b, hFirst, h⟩ := exists_of_bind h
    obtain ⟨rest, hRest, h⟩ := exists_of_bind h
    cases h
    exact .cons hFirst (ih hRest)

/-- A loop that no check ends early and that goes through has passed every check. -/
theorem yields_of_forIn {l : List α} {f : α → PUnit.{1} → Except ε (ForInStep PUnit.{1})}
    (hYield : ∀ a r, f a ⟨⟩ = .ok r → r = .yield ⟨⟩) {u : PUnit.{1}} (h : forIn l ⟨⟩ f = .ok u) :
    ∀ a ∈ l, f a ⟨⟩ = .ok (.yield ⟨⟩) := by
  induction l with
  | nil => exact nofun
  | cons first l ih =>
    rw [List.forIn_cons] at h
    obtain ⟨step, hFirst, hRest⟩ := exists_of_bind h
    have hStep := hYield first step hFirst
    subst hStep
    intro a hMem
    rcases List.mem_cons.mp hMem with rfl | hLater
    · exact hFirst
    · exact ih hRest a hLater

end MultimodalDb
