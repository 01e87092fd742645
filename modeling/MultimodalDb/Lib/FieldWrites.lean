import Mathlib.Logic.Function.Basic
import Mathlib.Data.Option.Basic

/-!
# Writes to a field of the records of a map

A log of writes, each of which sets one field of the record at a key and does nothing when there is
none. Setting the field twice is setting it once (`set_set`, a hypothesis), so the last write to a
key decides (`writes_apply`), and a log replayed over a map that some of its writes have reached
already gives what it gives over the map before them (`writes_absorb`).
-/

namespace MultimodalDb.FieldWrites

variable {K R V : Type*} [DecidableEq K] (set : V → R → R)

def write (t : K → Option R) (k : K) (v : V) : K → Option R :=
  Function.update t k ((t k).map (set v))

def writes (t : K → Option R) (log : List (K × V)) : K → Option R :=
  log.foldl (fun t w => write set t w.1 w.2) t

/-- What the last write to a key writes. -/
def last : List (K × V) → K → Option V
  | [], _ => none
  | w :: log, k => (last log k).or (if w.1 = k then some w.2 else none)

variable {set} {t t' : K → Option R} {log log' : List (K × V)} {k : K}

@[simp] theorem writes_nil (t : K → Option R) : writes set t [] = t := rfl

theorem writes_cons (t : K → Option R) (w : K × V) (log : List (K × V)) :
    writes set t (w :: log) = writes set (write set t w.1 w.2) log := rfl

theorem writes_append (t : K → Option R) (log log' : List (K × V)) :
    writes set t (log ++ log') = writes set (writes set t log) log' :=
  List.foldl_append

theorem write_apply (t : K → Option R) (k : K) (v : V) (j : K) :
    write set t k v j = if k = j then (t j).map (set v) else t j := by
  unfold write
  by_cases hj : j = k
  · rw [hj, Function.update_self, if_pos rfl]
  · rw [Function.update_of_ne hj, if_neg (Ne.symm hj)]

/-- A write makes no record and removes none. -/
theorem isSome_write (t : K → Option R) (k : K) (v : V) (j : K) :
    (write set t k v j).isSome = (t j).isSome := by
  rw [write_apply]
  split
  · rw [Option.isSome_map]
  · rfl

theorem isSome_writes (t : K → Option R) (log : List (K × V)) (j : K) :
    (writes set t log j).isSome = (t j).isSome := by
  induction log generalizing t with
  | nil => rfl
  | cons w log ih => rw [writes_cons, ih, isSome_write]

theorem last_append (log log' : List (K × V)) (k : K) :
    last (log ++ log') k = (last log' k).or (last log k) := by
  induction log with
  | nil => simp [last]
  | cons w log ih => rw [List.cons_append, last, ih, last, Option.or_assoc]

theorem last_eq_none : last log k = none ↔ ∀ w ∈ log, w.1 ≠ k := by
  induction log with
  | nil => simp [last]
  | cons w log ih =>
    rw [last, Option.or_eq_none_iff, ih, List.forall_mem_cons, and_comm]
    simp

variable (set_set : ∀ v w r, set v (set w r) = set v r)
include set_set

/-- **The last write decides.** -/
theorem writes_apply (t : K → Option R) (log : List (K × V)) (k : K) :
    writes set t log k = (t k).map fun r => (last log k).elim r (set · r) := by
  induction log generalizing t with
  | nil => simp [last]
  | cons w log ih =>
    rw [writes_cons, ih, write_apply, last]
    split
    · next hk =>
      rw [Option.map_map]
      cases last log k with
      | none => rfl
      | some v =>
        congr 1
        funext r
        exact set_set v w.2 r
    · cases last log k <;> rfl

/-- A map matters only at the key, and there only up to the field when the log writes it. -/
theorem writes_congr (h : (t k).map (fun r => (last log k).elim r (set · r)) =
    (t' k).map fun r => (last log k).elim r (set · r)) : writes set t log k =
      writes set t' log k := by
  rw [writes_apply set_set, writes_apply set_set, h]

/-- **Replaying.** Writes to keys of a log are lost under the log. -/
theorem writes_absorb (t : K → Option R) (h : ∀ w ∈ log', ∃ w' ∈ log, w'.1 = w.1) :
    writes set (writes set t log') log = writes set t log := by
  funext k
  apply writes_congr set_set
  rw [writes_apply set_set t log', Option.map_map]
  cases hLast : last log k with
  | some v =>
    congr 1
    funext r
    cases last log' k with
    | none => rfl
    | some w => exact set_set v w r
  | none =>
    have hNone : last log' k = none := by
      rw [last_eq_none] at hLast ⊢
      intro w hw hk
      obtain ⟨w', hw', hSame⟩ := h w hw
      exact hLast w' hw' (hSame.trans hk)
    rw [hNone]
    rfl

/-- A log is settled in a map when every record it writes has the field the last write gives it. -/
theorem writes_eq_self (h : ∀ k r, t k = some r → ∀ v, last log k = some v → set v r = r) :
    writes set t log = t := by
  funext k
  rw [writes_apply set_set]
  cases ht : t k with
  | none => rfl
  | some r =>
    rw [Option.map_some]
    cases hLast : last log k with
    | none => rfl
    | some v => exact congrArg some (h k r ht v hLast)

end MultimodalDb.FieldWrites
