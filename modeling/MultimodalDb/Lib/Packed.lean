import Mathlib.Data.List.AList
import Mathlib.Data.List.Induction
import Mathlib.Data.List.Perm.Basic

/-!
# Packed columns

The values of a map kept in one array without gaps, with the position of each key's value beside it.
A value is removed by moving the last one into its place. No position is out of the array and no two
keys share one, so that every key has its value; when there are as many keys as cells, the cells are
the values of the keys (`cells_perm`).
-/

namespace MultimodalDb

structure Packed (K V : Type) [DecidableEq K] where
  position : AList (fun _ : K => Nat)
  cells : List V
  bound : ∀ k p, position.lookup k = some p → p < cells.length
  injective : ∀ k k' p, position.lookup k = some p → position.lookup k' = some p → k = k'

namespace Packed

variable {K V : Type} [DecidableEq K]

def empty : Packed K V where
  position := ∅
  cells := []
  bound _ _ h := by
    rw [AList.lookup_empty] at h
    cases h
  injective _ _ _ h := by
    rw [AList.lookup_empty] at h
    cases h

/-- The value of a key. -/
def value (c : Packed K V) (k : K) : Option V := (c.position.lookup k).bind fun p => c.cells[p]?

/-- A new key's value goes to the end. -/
def push (c : Packed K V) (k : K) (v : V) : Packed K V where
  position := c.position.insert k c.cells.length
  cells := c.cells ++ [v]
  bound k' p h := by
    rw [List.length_append, List.length_singleton]
    by_cases hKey : k' = k
    · rw [hKey, AList.lookup_insert] at h
      cases h
      exact Nat.lt_succ_self _
    · rw [AList.lookup_insert_ne hKey] at h
      exact Nat.lt_succ_of_lt (c.bound k' p h)
  injective a b p ha hb := by
    by_cases hA : a = k
    · by_cases hB : b = k
      · rw [hA, hB]
      · rw [hA, AList.lookup_insert] at ha
        cases ha
        rw [AList.lookup_insert_ne hB] at hb
        exact absurd (c.bound b _ hb) (lt_irrefl _)
    · rw [AList.lookup_insert_ne hA] at ha
      by_cases hB : b = k
      · rw [hB, AList.lookup_insert] at hb
        cases hb
        exact absurd (c.bound a _ ha) (lt_irrefl _)
      · rw [AList.lookup_insert_ne hB] at hb
        exact c.injective a b p ha hb

/-- A key's value is rewritten in place. -/
def set (c : Packed K V) (k : K) (v : V) : Packed K V where
  position := c.position
  cells := (c.position.lookup k).elim c.cells fun p => c.cells.set p v
  bound k' p h := by
    cases c.position.lookup k with
    | none => exact c.bound k' p h
    | some q =>
      rw [Option.elim_some, List.length_set]
      exact c.bound k' p h
  injective := c.injective

section Remove

variable (c : Packed K V) (k : K)

/-- Where everything lies once `k` is gone from position `p`: the owner of the last cell has moved
there. -/
def moved (p : Nat) : AList (fun _ : K => Nat) :=
  let last := c.cells.length - 1
  let position := c.position.erase k
  if p = last then position
  else match position.entries.find? (fun e => e.2 = last) with
    | some owner => position.insert owner.1 p
    | none => position

variable {c k}

/-- Where a key lies after the move. -/
theorem lookup_moved {p : Nat} (hp : c.position.lookup k = some p) (a : K) :
    (c.moved k p).lookup a = if a = k then none
      else (c.position.lookup a).map fun q => if q = c.cells.length - 1 then p else q := by
  have hErase : (c.position.erase k).lookup a = if a = k then none else c.position.lookup a := by
    split
    · next h => rw [h, AList.lookup_erase]
    · next h => rw [AList.lookup_erase_ne h]
  have hOther (hNe : a ≠ k) {q : Nat} (hq : c.position.lookup a = some q) : q ≠ p := fun hEq =>
    hNe (c.injective a k p (hEq ▸ hq) hp)
  unfold moved
  dsimp only
  split
  · next hLast =>
    rw [hErase]
    split
    · rfl
    · next hNe =>
      cases hq : c.position.lookup a with
      | none => rfl
      | some q => rw [Option.map_some, if_neg fun hEq => hOther hNe hq (hEq.trans hLast.symm)]
  · next hLast =>
    have hOwner (e : (_ : K) × Nat) (he : e ∈ (c.position.erase k).entries) :
        (c.position.erase k).lookup e.1 = some e.2 := AList.mem_lookup_iff.mpr he
    split
    · next owner hFound =>
      have hAt := hOwner owner (List.mem_of_find?_eq_some hFound)
      have hIs : owner.2 = c.cells.length - 1 := by simpa using List.find?_some hFound
      have hNe : owner.1 ≠ k := by
        intro hEq
        rw [hEq, AList.lookup_erase] at hAt
        cases hAt
      rw [AList.lookup_erase_ne hNe, hIs] at hAt
      by_cases hA : a = owner.1
      · rw [hA, AList.lookup_insert, if_neg hNe, hAt, Option.map_some, if_pos rfl]
      · rw [AList.lookup_insert_ne hA, hErase]
        split
        · rfl
        · cases hq : c.position.lookup a with
          | none => rfl
          | some q =>
            rw [Option.map_some, if_neg]
            rintro rfl
            exact hA (c.injective a owner.1 _ hq hAt)
    · next hNone =>
      rw [hErase]
      split
      · rfl
      · next hNe =>
        cases hq : c.position.lookup a with
        | none => rfl
        | some q =>
          rw [Option.map_some, if_neg]
          rintro rfl
          have hMem : (⟨a, c.cells.length - 1⟩ : (_ : K) × Nat) ∈ (c.position.erase k).entries := by
            refine AList.mem_lookup_iff.mp ?_
            rw [hErase, if_neg hNe]
            exact hq
          simpa using List.find?_eq_none.mp hNone _ hMem

end Remove

/-- A key goes: the last value moves into its place. -/
def remove (c : Packed K V) (k : K) : Packed K V :=
  match hp : c.position.lookup k with
  | none => c
  | some p =>
    { position := c.moved k p
      cells := ((c.cells[c.cells.length - 1]?).elim c.cells fun v => c.cells.set p v).dropLast
      bound := by
        intro a q ha
        rw [lookup_moved hp] at ha
        split at ha
        · cases ha
        · next hNe =>
          obtain ⟨q', hq', rfl⟩ := Option.map_eq_some_iff.mp ha
          have hOld := c.bound a q' hq'
          have hHere := c.bound k p hp
          have hLen : ((c.cells[c.cells.length - 1]?).elim c.cells fun v =>
              c.cells.set p v).length = c.cells.length := by
            cases c.cells[c.cells.length - 1]? with
            | none => rfl
            | some v => exact List.length_set ..
          have hDistinct : q' ≠ p := fun hEq => hNe (c.injective a k p (hEq ▸ hq') hp)
          rw [List.length_dropLast, hLen]
          split
          · omega
          · omega
      injective := by
        intro a b q ha hb
        rw [lookup_moved hp] at ha hb
        split at ha
        · cases ha
        · next hA =>
          split at hb
          · cases hb
          · next hB =>
            obtain ⟨x, hx, hxq⟩ := Option.map_eq_some_iff.mp ha
            obtain ⟨y, hy, hyq⟩ := Option.map_eq_some_iff.mp hb
            have hXp : x ≠ p := fun hEq => hA (c.injective a k p (hEq ▸ hx) hp)
            have hYp : y ≠ p := fun hEq => hB (c.injective b k p (hEq ▸ hy) hp)
            have hXY : x = y := by
              split at hxq
              · split at hyq
                · omega
                · omega
              · split at hyq
                · omega
                · omega
            exact c.injective a b x hx (hXY ▸ hy) }

/-! ## Values -/

variable {c : Packed K V} {k a : K} {v : V}

@[simp] theorem value_empty (k : K) : (empty : Packed K V).value k = none := rfl

/-- A key that has a position has a value. -/
theorem value_isSome : (c.value k).isSome = (c.position.lookup k).isSome := by
  unfold value
  cases hp : c.position.lookup k with
  | none => rfl
  | some p => simp [c.bound k p hp]

theorem value_push : (c.push k v).value a = if a = k then some v else c.value a := by
  unfold value push
  dsimp only
  split
  · next h => rw [h, AList.lookup_insert, Option.bind_some, List.getElem?_concat_length]
  · next h =>
    rw [AList.lookup_insert_ne h]
    cases hp : c.position.lookup a with
    | none => rfl
    | some p => rw [Option.bind_some, Option.bind_some, List.getElem?_append_left (c.bound a p hp)]

theorem value_set : (c.set k v).value a = if a = k then (c.value a).map fun _ =>
  v else c.value a := by
  unfold value set
  dsimp only
  cases hk : c.position.lookup k with
  | none =>
    split
    · next h => rw [h, hk, Option.bind_none, Option.bind_none, Option.map_none]
    · rfl
  | some p =>
    rw [Option.elim_some]
    split
    · next h =>
      have hp := c.bound k p hk
      rw [h, hk, Option.bind_some, Option.bind_some, List.getElem?_set_self hp,
        List.getElem?_eq_getElem hp, Option.map_some]
    · next h =>
      cases ha : c.position.lookup a with
      | none => rfl
      | some q =>
        have hNe : p ≠ q := fun hEq => h (c.injective a k q ha (hEq ▸ hk))
        rw [Option.bind_some, Option.bind_some, List.getElem?_set_ne hNe]

theorem value_remove : (c.remove k).value a = if a = k then none else c.value a := by
  unfold remove
  split
  · next hNone =>
    split
    · next h => rw [value, h, hNone, Option.bind_none]
    · rfl
  · next p hp =>
    have hHere := c.bound k p hp
    have hLast : c.cells.length - 1 < c.cells.length := by omega
    unfold value
    dsimp only
    rw [lookup_moved hp, List.getElem?_eq_getElem hLast, Option.elim_some]
    split
    · rfl
    · next hNe =>
      cases hq : c.position.lookup a with
      | none => rfl
      | some q =>
        have hQ := c.bound a q hq
        have hQp : q ≠ p := fun hEq => hNe (c.injective a k p (hEq ▸ hq) hp)
        rw [Option.map_some, Option.bind_some, Option.bind_some, List.getElem?_dropLast,
          List.length_set]
        split
        · next hEq =>
          rw [if_pos (by omega), List.getElem?_set_self hHere, hEq, List.getElem?_eq_getElem hLast]
        · next hEq => rw [if_pos (by omega), List.getElem?_set_ne hQp.symm]

/-! ## Every cell is somebody's -/

/-- There are as many keys as cells. -/
def Full (c : Packed K V) : Prop := c.position.keys.length = c.cells.length

theorem filterMap_getElem?_range (cells : List V) :
    (List.range cells.length).filterMap (cells[·]?) = cells := by
  induction cells using List.reverseRecOn with
  | nil => rfl
  | append_singleton cells v ih =>
    have hFront : (List.range cells.length).filterMap ((cells ++ [v])[·]?) =
        (List.range cells.length).filterMap (cells[·]?) :=
      List.filterMap_congr fun i hi => List.getElem?_append_left (List.mem_range.mp hi)
    rw [List.length_append, List.length_singleton, List.range_succ,
      List.filterMap_append, hFront, ih]
    simp

/-- **The cells are the values of the keys.** -/
theorem cells_perm (h : c.Full) : (c.position.keys.filterMap c.value).Perm c.cells := by
  have hKeys : c.position.keys.filterMap c.value =
      (c.position.entries.map (·.2)).filterMap (c.cells[·]?) := by
    rw [AList.keys, List.keys, List.filterMap_map, List.filterMap_map]
    refine List.filterMap_congr fun e he => ?_
    show c.value e.1 = c.cells[e.2]?
    rw [value, AList.mem_lookup_iff.mpr he, Option.bind_some]
  have hNodup : (c.position.entries.map (·.2)).Nodup := by
    refine List.Nodup.map_on (fun x hx y hy hEq => ?_) c.position.nodupKeys.nodup
    have hKey :=
      c.injective x.1 y.1 x.2 (AList.mem_lookup_iff.mpr hx) (hEq ▸ AList.mem_lookup_iff.mpr hy)
    exact Sigma.ext hKey (heq_of_eq hEq)
  have hLength : c.position.entries.length = c.cells.length := by
    rw [← h, AList.keys, List.keys, List.length_map]
  have hRange : (c.position.entries.map (·.2)).Perm (List.range c.cells.length) := by
    refine (List.subperm_of_subset hNodup fun p hMem => ?_).perm_of_length_le ?_
    · obtain ⟨e, he, rfl⟩ := List.mem_map.mp hMem
      exact List.mem_range.mpr (c.bound e.1 e.2 (AList.mem_lookup_iff.mpr he))
    · rw [List.length_range, List.length_map, hLength]
  rw [hKeys]
  conv_rhs => rw [← filterMap_getElem?_range c.cells]
  exact hRange.filterMap _

theorem mem_keys : k ∈ c.position.keys ↔ (c.value k).isSome = true := by
  rw [value_isSome, AList.lookup_isSome, AList.mem_keys]

/-- Two full columns with the same values have the same cells, in some order. -/
theorem cells_perm_of_value {c' : Packed K V} (h : c.Full) (h' : c'.Full)
    (hValue : ∀ k, c'.value k = c.value k) :
    c.cells.Perm c'.cells := by
  have hKeys : c.position.keys.Perm c'.position.keys := by
    refine (List.perm_ext_iff_of_nodup c.position.keys_nodup c'.position.keys_nodup).mpr fun k => ?_
    rw [mem_keys, mem_keys, hValue]
  have hSame : c'.value = c.value := funext hValue
  refine (cells_perm h).symm.trans ((hKeys.filterMap _).trans ?_)
  rw [← hSame]
  exact cells_perm h'

theorem full_empty : (empty : Packed K V).Full := rfl

theorem full_push (h : c.Full) (hNew : c.value k = none) : (c.push k v).Full := by
  have hAbsent : k ∉ c.position := by
    rw [← AList.lookup_isSome, ← value_isSome, hNew]
    exact Bool.false_ne_true
  show (AList.insert k c.cells.length c.position).keys.length = (c.cells ++ [v]).length
  rw [AList.keys_insert, List.length_cons, List.erase_of_not_mem hAbsent, List.length_append,
    List.length_singleton, h]

theorem full_set (h : c.Full) : (c.set k v).Full := by
  show c.position.keys.length = ((c.position.lookup k).elim c.cells fun p => c.cells.set p v).length
  cases c.position.lookup k with
  | none => exact h
  | some p => rwa [Option.elim_some, List.length_set]

theorem full_remove (h : c.Full) : (c.remove k).Full := by
  unfold remove
  split
  · exact h
  · next p hp =>
    have hMem : k ∈ c.position.keys := by
      rw [AList.mem_keys.symm, ← AList.lookup_isSome, hp]
      rfl
    have hLast : c.cells.length - 1 < c.cells.length := by
      have hHere := c.bound k p hp
      omega
    have hKeys : (c.moved k p).keys.Perm (c.position.keys.erase k) := by
      rw [← AList.keys_erase]
      refine (List.perm_ext_iff_of_nodup (AList.keys_nodup _) (AList.keys_nodup _)).mpr fun a => ?_
      rw [← AList.mem_keys, ← AList.mem_keys, ← AList.lookup_isSome, ← AList.lookup_isSome,
        lookup_moved hp]
      split
      · next hA => rw [hA, AList.lookup_erase]
      · next hA => rw [AList.lookup_erase_ne hA, Option.isSome_map]
    show (c.moved k p).keys.length =
      ((c.cells[c.cells.length - 1]?).elim c.cells fun v => c.cells.set p v).dropLast.length
    rw [hKeys.length_eq, List.length_erase_of_mem hMem, h, List.getElem?_eq_getElem hLast,
      Option.elim_some, List.length_dropLast, List.length_set]

end Packed

end MultimodalDb
