import Mathlib.Logic.Function.Basic
import Mathlib.Data.Option.Basic

/-!
# Writes laid over a map

A log of keyed writes over a base map, applied in order. What the result holds for a key is what the
last write to it says, and the base where there is none (`apply_eq`). Two facts about replaying
follow. Applying a log twice is applying it once (`apply_apply`). And a log whose last writes all
agree with a map changes nothing when it is applied to that map (`Settled`), which stays true when a
write is made to both.
-/

namespace MultimodalDb.Overlay

variable {K V W : Type*} [DecidableEq K]

/-- The map after the writes, in order; a write of `none` removes the key. -/
def apply (base : K → Option V) (writes : List (K × Option V)) : K → Option V :=
  writes.foldl (fun m w => Function.update m w.1 w.2) base

/-- What the last write to a key says. -/
def last : List (K × Option V) → K → Option (Option V)
  | [], _ => none
  | w :: writes, k => (last writes k).or (if w.1 = k then some w.2 else none)

variable {base : K → Option V} {writes more : List (K × Option V)} {k : K}

@[simp] theorem apply_nil (base : K → Option V) : apply base [] = base := rfl

theorem apply_append (base : K → Option V) (writes more : List (K × Option V)) :
    apply base (writes ++ more) = apply (apply base writes) more :=
  List.foldl_append

theorem apply_snoc (base : K → Option V) (writes : List (K × Option V)) (w : K × Option V) :
    apply base (writes ++ [w]) = Function.update (apply base writes) w.1 w.2 :=
  apply_append ..

@[simp] theorem last_nil (k : K) : last ([] : List (K × Option V)) k = none := rfl

theorem last_append (writes more : List (K × Option V)) (k : K) :
    last (writes ++ more) k = (last more k).or (last writes k) := by
  induction writes with
  | nil => simp
  | cons w writes ih => rw [List.cons_append, last, ih, last, Option.or_assoc]

theorem last_snoc (writes : List (K × Option V)) (w : K × Option V) (k : K) :
    last (writes ++ [w]) k = if w.1 = k then some w.2 else last writes k := by
  rw [last_append, last, last_nil, Option.none_or]
  split <;> rfl

/-- **The last write decides.** -/
theorem apply_eq (base : K → Option V) (writes : List (K × Option V)) (k : K) :
    apply base writes k = (last writes k).getD (base k) := by
  induction writes generalizing base with
  | nil => rfl
  | cons w writes ih =>
    change apply (Function.update base w.1 w.2) writes k = _
    rw [ih, last]
    cases hLast : last writes k with
    | some v => simp
    | none =>
      by_cases hk : w.1 = k
      · subst hk
        simp
      · simp [hk, Function.update_of_ne (Ne.symm hk)]

/-- Replaying a log over its own result changes nothing. -/
theorem apply_apply (base : K → Option V) (writes : List (K × Option V)) :
    apply (apply base writes) writes = apply base writes := by
  funext k
  rw [apply_eq, apply_eq]
  cases last writes k <;> rfl

/-- What the last write says was written. -/
theorem mem_of_last {v : Option V} (h : last writes k = some v) : (k, v) ∈ writes := by
  induction writes with
  | nil => cases h
  | cons w writes ih =>
    rw [last] at h
    cases hLast : last writes k with
    | some u =>
      rw [hLast, Option.some_or] at h
      exact List.mem_cons_of_mem _ (ih (hLast.trans h))
    | none =>
      rw [hLast, Option.none_or] at h
      split at h
      · next hk =>
        subst hk
        cases h
        exact List.mem_cons_self ..
      · cases h

/-- One write, seen through a function on values. -/
theorem update_map (f : V → W) (base : K → Option V) (k : K) (v : Option V) :
    (fun j => (Function.update base k v j).map f) =
      Function.update (fun j => (base j).map f) k (v.map f) := by
  funext j
  by_cases hj : j = k
  · subst hj
    rw [Function.update_self, Function.update_self]
  · rw [Function.update_of_ne hj, Function.update_of_ne hj]

/-- The writes with their values seen through a function. -/
def mapWrites (f : V → W) (writes : List (K × Option V)) : List (K × Option W) :=
  writes.map (fun w => (w.1, w.2.map f))

theorem apply_map (f : V → W) (base : K → Option V) (writes : List (K × Option V)) :
    apply (fun k => (base k).map f) (mapWrites f writes) =
      fun k => (apply base writes k).map f := by
  induction writes generalizing base with
  | nil => rfl
  | cons w writes ih =>
    change apply (Function.update (fun k => (base k).map f) w.1 (w.2.map f)) (mapWrites f writes) =
      _
    rw [← update_map, ih]
    rfl

/-! ## Settled logs -/

/-- Every key the log writes holds what its last write says. -/
def Settled (m : K → Option V) (writes : List (K × Option V)) : Prop :=
  ∀ k v, last writes k = some v → m k = v

theorem settled_nil (m : K → Option V) : Settled m [] := fun _ _ h => nomatch h

/-- A settled log changes nothing. -/
theorem Settled.apply_eq_self {m : K → Option V} (h : Settled m writes) : apply m writes = m := by
  funext k
  rw [apply_eq]
  cases hLast : last writes k with
  | none => rfl
  | some v => exact (h k v hLast).symm

theorem Settled.snoc {m : K → Option V} (h : Settled m writes) (w : K × Option V) :
    Settled (Function.update m w.1 w.2) (writes ++ [w]) := by
  intro k v hLast
  rw [last_snoc] at hLast
  split at hLast
  · next hk =>
    subst hk
    rw [Function.update_self]
    exact Option.some.inj hLast
  · next hk => rw [Function.update_of_ne (Ne.symm hk), h k v hLast]

end MultimodalDb.Overlay
