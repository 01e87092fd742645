import Mathlib.Data.List.AList
import Mathlib.Data.List.Perm.Basic

/-!
# Bucket indexes

A map from a key to the list of the ids filed under it. A bucket that loses its last id leaves the
map. What the index says is which ids stand under which key: filing one adds that pair (`mem_push`,
`mem_add`), dropping one takes it away (`mem_drop`).

An index is derived from a view of records when every id stands under the keys of its record, once
under each (`Derived`). Two indexes that are derived from views with the same keys have the same
buckets, in some order.
-/

namespace MultimodalDb

abbrev BucketIndex (K Id : Type) := AList (fun _ : K => List Id)

namespace BucketIndex

variable {K Id : Type} [DecidableEq K] [DecidableEq Id]

/-- The ids under a key: none for a key that has no bucket. -/
def bucket (m : BucketIndex K Id) (key : K) : List Id := (m.lookup key).getD []

/-- `entry(key).or_default().push(id)`. -/
def push (m : BucketIndex K Id) (key : K) (id : Id) : BucketIndex K Id :=
  m.insert key (m.bucket key ++ [id])

/-- An id that is there already is not filed twice. -/
def add (m : BucketIndex K Id) (key : K) (id : Id) : BucketIndex K Id :=
  if id ∈ m.bucket key then m else m.push key id

/-- The id leaves the bucket, and the bucket goes when that was its last. -/
def drop (m : BucketIndex K Id) (key : K) (id : Id) : BucketIndex K Id :=
  match m.lookup key with
  | none => m
  | some ids =>
    let rest := ids.filter (· ≠ id)
    if rest.isEmpty then m.erase key else m.insert key rest

variable {m : BucketIndex K Id} {key other : K} {id a : Id}

omit [DecidableEq Id] in
@[simp] theorem bucket_empty (key : K) : (∅ : BucketIndex K Id).bucket key = [] := rfl

omit [DecidableEq Id] in
theorem bucket_insert (m : BucketIndex K Id) (key : K) (ids : List Id) (other : K) :
    BucketIndex.bucket (m.insert key ids) other = if other = key then ids else m.bucket other := by
  unfold bucket
  split
  · next h => rw [h, AList.lookup_insert, Option.getD_some]
  · next h => rw [AList.lookup_insert_ne h]

omit [DecidableEq Id] in
theorem bucket_erase (m : BucketIndex K Id) (key other : K) :
    BucketIndex.bucket (m.erase key) other = if other = key then [] else m.bucket other := by
  unfold bucket
  split
  · next h => rw [h, AList.lookup_erase, Option.getD_none]
  · next h => rw [AList.lookup_erase_ne h]

omit [DecidableEq Id] in
theorem mem_push : a ∈ (m.push key id).bucket other ↔ a ∈ m.bucket other ∨ other = key ∧
    a = id := by
  rw [push, bucket_insert]
  split
  · next h => simp [h]
  · next h => simp [h]

theorem mem_add : a ∈ (m.add key id).bucket other ↔ a ∈ m.bucket other ∨ other = key ∧ a = id := by
  unfold add
  split
  · next hMem =>
    constructor
    · exact Or.inl
    · rintro (h | ⟨rfl, rfl⟩)
      · exact h
      · exact hMem
  · exact mem_push

theorem mem_drop : a ∈ (m.drop key id).bucket other ↔
    a ∈ m.bucket other ∧ ¬(other = key ∧ a = id) := by
  unfold drop
  split
  · next hNone =>
    refine ⟨fun h => ⟨h, ?_⟩, And.left⟩
    rintro ⟨rfl, -⟩
    rw [bucket, hNone] at h
    cases h
  · next ids hIds =>
    have hBucket : m.bucket key = ids := by rw [bucket, hIds, Option.getD_some]
    have hRest : a ∈ ids.filter (· ≠ id) ↔ a ∈ ids ∧ ¬ a = id := by simp
    dsimp only
    split
    · next hEmpty =>
      rw [List.isEmpty_iff] at hEmpty
      rw [hEmpty] at hRest
      rw [bucket_erase]
      split
      · next h =>
        subst h
        rw [hBucket]
        simp at hRest ⊢
        tauto
      · next h => simp [h]
    · rw [bucket_insert]
      split
      · next h =>
        subst h
        rw [hBucket, hRest]
        simp
      · next h => simp [h]

/-! ## Several keys at once -/

theorem mem_foldl_add (keys : List K) (m : BucketIndex K Id) :
    a ∈ (keys.foldl (fun m key => m.add key id) m).bucket other ↔
      a ∈ m.bucket other ∨ other ∈ keys ∧ a = id := by
  induction keys generalizing m with
  | nil => simp
  | cons key keys ih =>
    rw [List.foldl_cons, ih, mem_add, List.mem_cons]
    tauto

theorem mem_foldl_drop (keys : List K) (m : BucketIndex K Id) :
    a ∈ (keys.foldl (fun m key => m.drop key id) m).bucket other ↔
      a ∈ m.bucket other ∧ ¬(other ∈ keys ∧ a = id) := by
  induction keys generalizing m with
  | nil => simp
  | cons key keys ih =>
    rw [List.foldl_cons, ih, mem_drop, List.mem_cons]
    tauto

/-! ## Buckets without repetition -/

omit [DecidableEq Id] in
theorem nodup_push (h : ∀ key, (m.bucket key).Nodup) (hNew : id ∉ m.bucket key) (other : K) :
    ((m.push key id).bucket other).Nodup := by
  rw [push, bucket_insert]
  split
  · exact List.nodup_append.mpr ⟨h key, List.nodup_singleton id, by
      intro a ha b hb hEq
      rw [List.mem_singleton.mp hb] at hEq
      exact hNew (hEq ▸ ha)⟩
  · exact h other

theorem nodup_add (h : ∀ key, (m.bucket key).Nodup) (other : K) :
    ((m.add key id).bucket other).Nodup := by
  unfold add
  split
  · exact h other
  · next hNew => exact nodup_push h hNew other

theorem nodup_drop (h : ∀ key, (m.bucket key).Nodup) (other : K) :
    ((m.drop key id).bucket other).Nodup := by
  unfold drop
  split
  · exact h other
  · next ids hIds =>
    have hBucket : m.bucket key = ids := by rw [bucket, hIds, Option.getD_some]
    dsimp only
    split
    · rw [bucket_erase]
      split
      · exact List.nodup_nil
      · exact h other
    · rw [bucket_insert]
      split
      · exact (hBucket ▸ h key).filter _
      · exact h other

theorem nodup_foldl_add (keys : List K) (h : ∀ key, (m.bucket key).Nodup) (other : K) :
    ((keys.foldl (fun m key => m.add key id) m).bucket other).Nodup := by
  induction keys generalizing m with
  | nil => exact h other
  | cons key keys ih => exact ih (nodup_add h)

theorem nodup_foldl_drop (keys : List K) (h : ∀ key, (m.bucket key).Nodup) (other : K) :
    ((keys.foldl (fun m key => m.drop key id) m).bucket other).Nodup := by
  induction keys generalizing m with
  | nil => exact h other
  | cons key keys ih => exact ih (nodup_drop h)

/-! ## Derived indexes -/

section Derived

variable {R : Type} {view view' : Id → Option R} {keys : R → List K} {r : R} {m' : BucketIndex K Id}

/-- Every id stands under the keys of its record, and once under each. -/
structure Derived (m : BucketIndex K Id) (view : Id → Option R) (keys : R → List K) : Prop where
  mem key id : id ∈ m.bucket key ↔ ∃ r, view id = some r ∧ key ∈ keys r
  nodup key : (m.bucket key).Nodup

omit [DecidableEq Id] in
theorem derived_empty (keys : R → List K) :
    Derived (∅ : BucketIndex K Id) (fun _ => none) keys where
  mem _ _ := by simp
  nodup _ := List.nodup_nil

omit [DecidableEq Id] in
/-- Only the keys of the records count. -/
theorem Derived.of_keys (h : Derived m view keys)
    (hKeys : ∀ id, (view' id).map keys = (view id).map keys) :
    Derived m view' keys where
  mem key id := by
    rw [h.mem]
    have hSame := hKeys id
    cases hOld : view id with
    | none =>
      rw [hOld, Option.map_none, Option.map_eq_none_iff] at hSame
      simp [hSame]
    | some r =>
      rw [hOld, Option.map_some] at hSame
      obtain ⟨r', hNew, hEq⟩ := Option.map_eq_some_iff.mp hSame
      simp [hNew, hEq]
  nodup := h.nodup

omit [DecidableEq Id] in
theorem Derived.not_mem (h : Derived m view keys) (hNone : view id = none) (key : K) :
    id ∉ m.bucket key := by
  rw [h.mem, hNone]
  simp

omit [DecidableEq Id] in
theorem Derived.mem_iff (h : Derived m view keys) (hSome : view id = some r) (key : K) :
    id ∈ m.bucket key ↔ key ∈ keys r := by
  rw [h.mem, hSome]
  simp

/-- A record was written. -/
theorem Derived.written (h : Derived m view keys)
    (hMem : ∀ key a, a ∈ m'.bucket key ↔ a ∈ m.bucket key ∧ a ≠ id ∨ a = id ∧ key ∈ keys r)
    (hNodup : ∀ key, (m'.bucket key).Nodup) :
    Derived m' (Function.update view id (some r)) keys where
  mem key a := by
    rw [hMem, h.mem]
    by_cases hId : a = id
    · rw [hId, Function.update_self]
      simp
    · rw [Function.update_of_ne hId]
      simp [hId]
  nodup := hNodup

/-- A record was removed. -/
theorem Derived.removed (h : Derived m view keys)
    (hMem : ∀ key a, a ∈ m'.bucket key ↔ a ∈ m.bucket key ∧ a ≠ id)
    (hNodup : ∀ key, (m'.bucket key).Nodup) : Derived m' (Function.update view id none) keys where
  mem key a := by
    rw [hMem, h.mem]
    by_cases hId : a = id
    · rw [hId, Function.update_self]
      simp
    · rw [Function.update_of_ne hId]
      simp [hId]
  nodup := hNodup

omit [DecidableEq Id] in
/-- **The buckets depend on the keys only**, up to their order. -/
theorem Derived.perm (h : Derived m view keys) (h' : Derived m' view' keys)
    (hKeys : ∀ id, (view' id).map keys = (view id).map keys) (key : K) :
    (m.bucket key).Perm (m'.bucket key) := by
  refine (List.perm_ext_iff_of_nodup (h.nodup key) (h'.nodup key)).mpr fun id => ?_
  rw [(h.of_keys hKeys).mem, h'.mem]

end Derived

end BucketIndex

end MultimodalDb
