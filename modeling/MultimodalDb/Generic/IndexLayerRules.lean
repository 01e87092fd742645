import MultimodalDb.Generic.IndexLayers

/-!
# What a write does to the index layers

A stack is exact when each index is the one of the records that its layer reads from beneath. Every
write keeps a stack exact: one that is refused leaves it as it was, and one that is accepted changes
one record of it.

A field that is written in place must not be what an index is kept by, save a sorted index with the
field's own marker (`Separate`).
-/

set_option linter.unusedSectionVars false

namespace MultimodalDb

namespace IndexLayers

open RecordFields hiding id
open RecordFields renaming id → idOf

variable {R M Id IV SV P Key : Type} [LinearOrder Id] [LinearOrder Key] [DecidableEq M]
  [DecidableEq IV] [DecidableEq P]
variable [RecordFields R M Id IV SV P Key]

/-- A field written in place is read by the layers of its marker only. -/
class Separate (R : Type) {M Id IV SV P Key : Type} [RecordFields R M Id IV SV P Key] : Prop where
  indexedValue_set : ∀ m f v (r : R), indexedValue m (setScannableValue f v r) = indexedValue m r
  indexKeys_set : ∀ f v (r : R), indexKeys (setScannableValue f v r) = indexKeys r
  parentId_set : ∀ m f v (r : R), parentId m (setScannableValue f v r) = parentId m r
  scannableValue_set : ∀ m f v (r : R), m ≠ f →
    scannableValue m (setScannableValue f v r) = scannableValue m r
  orderKey_set : ∀ m f v (r : R), m ≠ f → orderKey m (setScannableValue f v r) = orderKey m r
  set_comm : ∀ m f v w (r : R), m ≠ f →
    setScannableValue m v (setScannableValue f w r) =
      setScannableValue f w (setScannableValue m v r)

open Separate

/-- The layers of a stack, the top one first. -/
def layersOf : Stack R M Id IV SV P Key → List (Layer M)
  | .base _ _ => []
  | .indexed m _ inner => .indexed m :: layersOf inner
  | .scanned m _ inner => .scanned m :: layersOf inner
  | .nameIndex _ inner => .nameIndex :: layersOf inner
  | .reversed m _ inner => .reversed m :: layersOf inner
  | .ordered m _ inner => .ordered m :: layersOf inner

/-- Every index is the one of the records beneath it. -/
def Exact : Stack R M Id IV SV P Key → Prop
  | .base _ records => ∀ key r, records.lookup key = some r → idOf r = key
  | .indexed m index inner => Exact inner ∧ index.Derived (get inner) fun r => [indexedValue m r]
  | .scanned _ cache inner =>
    Exact inner ∧ cache.Full ∧ ∀ key, (cache.value key).isSome = (get inner key).isSome
  | .nameIndex index inner => Exact inner ∧ index.Derived (get inner) normalKeys
  | .reversed m childrenOf inner =>
    Exact inner ∧ childrenOf.Derived (get inner) fun r => (parentId m r).toList
  | .ordered m index inner =>
    Exact inner ∧ ∀ k key, toLex (k, key) ∈ index ↔ ∃ r, get inner key = some r ∧ orderKey m r = k

variable {s s' : Stack R M Id IV SV P Key} {fault : Option DurabilityError} {record : R} {key : Id}

theorem idOf_get (h : Exact s) {r : R} (hSome : get s key = some r) : idOf r = key := by
  induction s generalizing r with
  | base own records => exact h key r hSome
  | scanned m cache inner ih =>
    obtain ⟨old, hOld, rfl⟩ := Option.map_eq_some_iff.mp hSome
    cases hValue : cache.value key with
    | none => exact ih h.1 hOld
    | some v =>
      rw [Option.elim_some, id_set]
      exact ih h.1 hOld
  | indexed m index inner ih | nameIndex index inner ih | reversed m childrenOf inner ih
  | ordered m index inner ih =>
    exact ih h.1 hSome

theorem mem_allIds (s : Stack R M Id IV SV P Key) (key : Id) :
    key ∈ allIds s ↔ (get s key).isSome = true := by
  induction s with
  | base own records => rw [allIds, get, AList.lookup_isSome, AList.mem_keys]
  | scanned m cache inner ih => rw [allIds, get, ih, Option.isSome_map]
  | indexed m index inner ih | nameIndex index inner ih | reversed m childrenOf inner ih
  | ordered m index inner ih =>
    exact ih

theorem nodup_allIds (s : Stack R M Id IV SV P Key) : (allIds s).Nodup := by
  induction s with
  | base own records => exact records.keys_nodup
  | indexed m index inner ih | scanned m cache inner ih | nameIndex index inner ih
  | reversed m childrenOf inner ih
  | ordered m index inner ih => exact ih

/-! ## Accepted and refused -/

/-- What an accepted write leaves: the same layers, exact again, over the records as the write says.
-/
structure Wrote (s s' : Stack R M Id IV SV P Key) (view : Id → Option R) : Prop where
  exact : Exact s'
  get_eq : get s' = view
  layers : layersOf s' = layersOf s

/-- A write is refused and nothing has changed, or it is accepted and leaves what `Q` says. -/
def Outcome {ε : Type} (r : Result R M Id IV SV P Key ε) (s : Stack R M Id IV SV P Key)
    (Q : Stack R M Id IV SV P Key → Prop) : Prop :=
  (∃ e, r = (.error e, s)) ∨ ∃ s', r = (.ok (), s') ∧ Q s'

/-- A layer passes on what comes from beneath. -/
theorem Outcome.over {ε : Type} {r : Result R M Id IV SV P Key ε} {inner : Stack R M Id IV SV P Key}
    {Q Q' : Stack R M Id IV SV P Key → Prop}
    {same changed : Stack R M Id IV SV P Key → Stack R M Id IV SV P Key}
    (h : Outcome r inner Q) (hQ : ∀ inner', Q inner' → Q' (changed inner')) :
    Outcome (r.over same changed) (same inner) Q' := by
  rcases h with ⟨e, rfl⟩ | ⟨inner', rfl, hInner⟩
  · exact .inl ⟨e, rfl⟩
  · exact .inr ⟨changed inner', rfl, hQ inner' hInner⟩

/-! ## Children -/

section Children

variable {childrenOf : BucketIndex P Id} {parent : Option P} {a : Id} {other : P}

theorem mem_join : a ∈ (join childrenOf parent key).bucket other ↔
    a ∈ childrenOf.bucket other ∨ a = key ∧ parent = some other := by
  cases parent with
  | none => simp [join]
  | some p =>
    rw [join, Option.elim_some, BucketIndex.mem_push]
    grind

theorem nodup_join (h : ∀ other, (childrenOf.bucket other).Nodup)
    (hNew : ∀ other, key ∉ childrenOf.bucket other)
    (other : P) : ((join childrenOf parent key).bucket other).Nodup := by
  cases parent with
  | none => exact h other
  | some p => exact BucketIndex.nodup_push h (hNew p) other

/-- A child that stands under its parent only stands nowhere once it has left. -/
theorem mem_leave (h : ∀ other, key ∈ childrenOf.bucket other ↔ parent = some other)
    (other : P) (a : Id) :
    a ∈ (leave childrenOf parent key).bucket other ↔ a ∈ childrenOf.bucket other ∧ a ≠ key := by
  have hHere := h other
  cases parent with
  | none =>
    rw [leave, Option.elim_none]
    grind
  | some p =>
    rw [leave, Option.elim_some, BucketIndex.mem_drop]
    grind

theorem nodup_leave (h : ∀ other, (childrenOf.bucket other).Nodup) (other : P) :
    ((leave childrenOf parent key).bucket other).Nodup := by
  cases parent with
  | none => exact h other
  | some p => exact BucketIndex.nodup_drop h other

end Children

/-! ## Inserting -/

section Filing

variable {K : Type} [DecidableEq K] {view : Id → Option R} {r : R}

theorem derived_push {index : BucketIndex K Id} {value : R → K}
    (h : index.Derived view fun r => [value r]) (hNew : view key = none) :
    (index.push (value r) key).Derived (Function.update view key (some r)) fun r => [value r] := by
  refine h.written (fun v a => ?_) (BucketIndex.nodup_push h.nodup (h.not_mem hNew _))
  have hAbsent := h.not_mem hNew v
  rw [BucketIndex.mem_push, List.mem_singleton]
  grind

theorem derived_addKeys {index : BucketIndex String Id} (h : index.Derived view normalKeys)
    (hNew : view key = none) :
    (addKeys index (normalKeys r) key).Derived (Function.update view key (some r)) normalKeys := by
  refine h.written (fun name a => ?_) (BucketIndex.nodup_foldl_add _ h.nodup)
  have hAbsent := h.not_mem hNew name
  rw [addKeys, BucketIndex.mem_foldl_add]
  grind

theorem derived_join {childrenOf : BucketIndex P Id} {m : M}
    (h : childrenOf.Derived view fun r => (parentId m r).toList) (hNew : view key = none) :
    (join childrenOf (parentId m r) key).Derived (Function.update view key (some r)) fun r =>
      (parentId m r).toList := by
  have hAbsent := fun parent => h.not_mem hNew parent
  refine h.written (fun parent a => ?_) (nodup_join h.nodup hAbsent)
  have := hAbsent parent
  rw [mem_join, Option.mem_toList]
  grind

end Filing

theorem get_base_insert (own : Option M) (records : AList fun _ : Id => R) (record : R) :
    get (.base own (records.insert (idOf record) record) : Stack R M Id IV SV P Key) =
      Function.update (get (.base own records : Stack R M Id IV SV P Key)) (idOf record)
        (some record) := by
  funext key
  by_cases hKey : key = idOf record
  · rw [hKey, get, AList.lookup_insert, Function.update_self]
  · rw [get, AList.lookup_insert_ne hKey, Function.update_of_ne hKey, get]

theorem exact_base_insert {own : Option M} {records : AList fun _ : Id => R}
    (h : Exact (.base own records : Stack R M Id IV SV P Key)) (record : R) :
    Exact (.base own (records.insert (idOf record) record) : Stack R M Id IV SV P Key) := by
  intro key r hSome
  by_cases hKey : key = idOf record
  · rw [hKey, AList.lookup_insert] at hSome
    cases hSome
    exact hKey.symm
  · rw [AList.lookup_insert_ne hKey] at hSome
    exact h key r hSome

theorem insert_outcome (h : Exact s) : Outcome (insert fault record s) s fun s' =>
    get s (idOf record) = none ∧
        Wrote s s' (Function.update (get s) (idOf record) (some record)) := by
  induction s with
  | base own records =>
    unfold insert
    split
    · exact .inl ⟨_, rfl⟩
    · next hNew =>
      cases fault with
      | some e => exact .inl ⟨_, rfl⟩
      | none =>
        exact .inr ⟨_, rfl, AList.lookup_eq_none.mpr hNew, exact_base_insert h record,
          get_base_insert own records record, rfl⟩
  | indexed m index inner ih =>
    refine (ih h.1).over fun inner' hInner => ?_
    obtain ⟨hNew, hWrote⟩ := hInner
    refine ⟨hNew, ⟨hWrote.exact, ?_⟩, hWrote.get_eq, congrArg (List.cons _) hWrote.layers⟩
    rw [hWrote.get_eq]
    exact derived_push h.2 hNew
  | scanned m cache inner ih =>
    obtain ⟨hExact, hFull, hSame⟩ := h
    refine (ih hExact).over fun inner' hInner => ?_
    obtain ⟨hNew, hWrote⟩ := hInner
    have hNone : cache.value (idOf record) = none := by
      rw [← Option.not_isSome_iff_eq_none, hSame, hNew]
      exact Bool.false_ne_true
    refine ⟨by rw [get, hNew, Option.map_none], ⟨hWrote.exact, Packed.full_push hFull hNone,
      fun key => ?_⟩, ?_, congrArg (List.cons _) hWrote.layers⟩
    · rw [hWrote.get_eq, Packed.value_push]
      by_cases hKey : key = idOf record
      · rw [hKey, if_pos rfl, Function.update_self]
        rfl
      · rw [if_neg hKey, Function.update_of_ne hKey, hSame]
    · funext key
      rw [get, hWrote.get_eq, Packed.value_push]
      by_cases hKey : key = idOf record
      · rw [hKey, if_pos rfl, Function.update_self, Function.update_self, Option.map_some,
          Option.elim_some, set_value]
      · rw [if_neg hKey, Function.update_of_ne hKey, Function.update_of_ne hKey, get]
  | nameIndex index inner ih =>
    refine (ih h.1).over fun inner' hInner => ?_
    obtain ⟨hNew, hWrote⟩ := hInner
    refine ⟨hNew, ⟨hWrote.exact, ?_⟩, hWrote.get_eq, congrArg (List.cons _) hWrote.layers⟩
    rw [hWrote.get_eq]
    exact derived_addKeys h.2 hNew
  | reversed m childrenOf inner ih =>
    refine (ih h.1).over fun inner' hInner => ?_
    obtain ⟨hNew, hWrote⟩ := hInner
    refine ⟨hNew, ⟨hWrote.exact, ?_⟩, hWrote.get_eq, congrArg (List.cons _) hWrote.layers⟩
    rw [hWrote.get_eq]
    exact derived_join h.2 hNew
  | ordered m index inner ih =>
    refine (ih h.1).over fun inner' hInner => ?_
    obtain ⟨hNew, hWrote⟩ := hInner
    refine ⟨hNew, ⟨hWrote.exact, fun k key => ?_⟩, hWrote.get_eq,
      congrArg (List.cons _) hWrote.layers⟩
    rw [Finset.mem_insert, hWrote.get_eq, h.2, toLex_inj, Prod.mk.injEq]
    by_cases hKey : key = idOf record
    · rw [hKey, Function.update_self, hNew]
      grind
    · rw [Function.update_of_ne hKey]
      grind

/-! ## Replacing -/

theorem replace_outcome (h : Exact s) : Outcome (replace fault record s) s fun s' =>
    (get s (idOf record)).isSome = true ∧
        Wrote s s' (Function.update (get s) (idOf record) (some record)) := by
  induction s with
  | base own records =>
    unfold replace
    split
    · exact .inl ⟨_, rfl⟩
    · next hOld =>
      cases fault with
      | some e => exact .inl ⟨_, rfl⟩
      | none =>
        exact .inr ⟨_, rfl, AList.lookup_isSome.mpr (not_not.mp hOld), exact_base_insert h record,
          get_base_insert own records record, rfl⟩
  | indexed m index inner ih =>
    unfold replace
    split
    · exact .inl ⟨_, rfl⟩
    · next old hOld =>
      refine (ih h.1).over fun inner' hInner => ?_
      obtain ⟨hSome, hWrote⟩ := hInner
      refine ⟨hSome, ⟨hWrote.exact, ?_⟩, hWrote.get_eq, congrArg (List.cons _) hWrote.layers⟩
      rw [hWrote.get_eq]
      have hHere := h.2.mem_iff hOld
      split
      · next hSame =>
        refine h.2.written (fun v a => ?_) h.2.nodup
        have := hHere v
        grind
      · next hOther =>
        refine h.2.written (fun v a => ?_)
          (BucketIndex.nodup_push (BucketIndex.nodup_drop h.2.nodup) ?_)
        · have := hHere v
          rw [BucketIndex.mem_push, BucketIndex.mem_drop, List.mem_singleton]
          grind
        · have := hHere (indexedValue m record)
          rw [BucketIndex.mem_drop]
          grind
  | scanned m cache inner ih =>
    obtain ⟨hExact, hFull, hSame⟩ := h
    unfold replace
    rcases ih hExact with ⟨e, hInner⟩ | ⟨inner', hInner, hSome, hWrote⟩
    · rw [hInner]
      exact .inl ⟨e, rfl⟩
    · have hThere : (cache.value (idOf record)).isSome = true := (hSame _).trans hSome
      have hPresent : ¬ (cache.value (idOf record)).isNone = true := by
        rw [Option.isNone_iff_eq_none, ← Option.not_isSome_iff_eq_none, hThere]
        decide
      rw [hInner]
      dsimp only
      rw [if_neg hPresent]
      refine .inr ⟨_, rfl, by rw [get, Option.isSome_map, hSome], ⟨hWrote.exact,
        Packed.full_set hFull, fun key => ?_⟩, ?_, congrArg (List.cons _) hWrote.layers⟩
      · rw [hWrote.get_eq, Packed.value_set]
        by_cases hKey : key = idOf record
        · rw [hKey, if_pos rfl, Option.isSome_map, hThere, Function.update_self]
          rfl
        · rw [if_neg hKey, Function.update_of_ne hKey, hSame]
      · obtain ⟨v, hValue⟩ := Option.isSome_iff_exists.mp hThere
        funext key
        rw [get, hWrote.get_eq, Packed.value_set]
        by_cases hKey : key = idOf record
        · rw [hKey, if_pos rfl, hValue, Function.update_self, Function.update_self, Option.map_some,
            Option.map_some, Option.elim_some, set_value]
        · rw [if_neg hKey, Function.update_of_ne hKey, Function.update_of_ne hKey, get]
  | nameIndex index inner ih =>
    unfold replace
    split
    · exact .inl ⟨_, rfl⟩
    · next old hOld =>
      refine (ih h.1).over fun inner' hInner => ?_
      obtain ⟨hSome, hWrote⟩ := hInner
      refine ⟨hSome, ⟨hWrote.exact, ?_⟩, hWrote.get_eq, congrArg (List.cons _) hWrote.layers⟩
      rw [hWrote.get_eq]
      refine h.2.written (fun name a => ?_)
        (BucketIndex.nodup_foldl_add _ (BucketIndex.nodup_foldl_drop _ h.2.nodup))
      have hHere := h.2.mem_iff hOld name
      rw [addKeys, BucketIndex.mem_foldl_add, BucketIndex.mem_foldl_drop, List.mem_filter,
        decide_eq_true_iff]
      grind
  | reversed m childrenOf inner ih =>
    unfold replace
    split
    · exact .inl ⟨_, rfl⟩
    · next old hOld =>
      refine (ih h.1).over fun inner' hInner => ?_
      obtain ⟨hSome, hWrote⟩ := hInner
      refine ⟨hSome, ⟨hWrote.exact, ?_⟩, hWrote.get_eq, congrArg (List.cons _) hWrote.layers⟩
      rw [hWrote.get_eq]
      have hHere := h.2.mem_iff hOld
      have hLeave := mem_leave fun other => (hHere other).trans Option.mem_toList
      split
      · next hSame =>
        refine h.2.written (fun parent a => ?_) h.2.nodup
        have := hHere parent
        grind
      · next hOther =>
        refine h.2.written (fun parent a => ?_)
          (nodup_join (nodup_leave h.2.nodup) fun parent => ?_)
        · rw [mem_join, hLeave, Option.mem_toList]
        · rw [hLeave]
          exact fun hMem => hMem.2 rfl
  | ordered m index inner ih =>
    unfold replace
    split
    · exact .inl ⟨_, rfl⟩
    · next old hOld =>
      refine (ih h.1).over fun inner' hInner => ?_
      obtain ⟨hSome, hWrote⟩ := hInner
      refine ⟨hSome, ⟨hWrote.exact, fun k key => ?_⟩, hWrote.get_eq,
        congrArg (List.cons _) hWrote.layers⟩
      rw [Finset.mem_insert, Finset.mem_erase, hWrote.get_eq, h.2, ne_eq, toLex_inj, toLex_inj,
        Prod.mk.injEq, Prod.mk.injEq]
      by_cases hKey : key = idOf record
      · rw [hKey, Function.update_self, hOld]
        grind
      · rw [Function.update_of_ne hKey]
        grind

/-! ## Deleting -/

theorem delete_outcome (h : Exact s) (key : Id) : Outcome (delete fault key s) s fun s' =>
    (get s key).isSome = true ∧ Wrote s s' (Function.update (get s) key none) := by
  induction s with
  | base own records =>
    unfold delete
    split
    · exact .inl ⟨_, rfl⟩
    · next hOld =>
      cases fault with
      | some e => exact .inl ⟨_, rfl⟩
      | none =>
        refine .inr ⟨_, rfl, AList.lookup_isSome.mpr (not_not.mp hOld),
          fun other r hSome => ?_, ?_, rfl⟩
        · by_cases hKey : other = key
          · rw [hKey, AList.lookup_erase] at hSome
            cases hSome
          · rw [AList.lookup_erase_ne hKey] at hSome
            exact h other r hSome
        · funext other
          by_cases hKey : other = key
          · rw [hKey, get, AList.lookup_erase, Function.update_self]
          · rw [get, AList.lookup_erase_ne hKey, Function.update_of_ne hKey, get]
  | indexed m index inner ih =>
    unfold delete
    split
    · exact .inl ⟨_, rfl⟩
    · next old hOld =>
      refine (ih h.1).over fun inner' hInner => ?_
      obtain ⟨hSome, hWrote⟩ := hInner
      refine ⟨hSome, ⟨hWrote.exact, ?_⟩, hWrote.get_eq, congrArg (List.cons _) hWrote.layers⟩
      rw [hWrote.get_eq]
      refine h.2.removed (fun v a => ?_) (BucketIndex.nodup_drop h.2.nodup)
      have hHere := h.2.mem_iff hOld v
      rw [BucketIndex.mem_drop]
      grind
  | scanned m cache inner ih =>
    obtain ⟨hExact, hFull, hSame⟩ := h
    refine (ih hExact).over fun inner' hInner => ?_
    obtain ⟨hSome, hWrote⟩ := hInner
    refine ⟨by rw [get, Option.isSome_map, hSome], ⟨hWrote.exact, Packed.full_remove hFull,
      fun other => ?_⟩, ?_, congrArg (List.cons _) hWrote.layers⟩
    · rw [hWrote.get_eq, Packed.value_remove]
      by_cases hKey : other = key
      · rw [hKey, if_pos rfl, Function.update_self]
        rfl
      · rw [if_neg hKey, Function.update_of_ne hKey, hSame]
    · funext other
      rw [get, hWrote.get_eq, Packed.value_remove]
      by_cases hKey : other = key
      · rw [hKey, Function.update_self, Function.update_self, Option.map_none]
      · rw [if_neg hKey, Function.update_of_ne hKey, Function.update_of_ne hKey, get]
  | nameIndex index inner ih =>
    unfold delete
    split
    · exact .inl ⟨_, rfl⟩
    · next old hOld =>
      refine (ih h.1).over fun inner' hInner => ?_
      obtain ⟨hSome, hWrote⟩ := hInner
      refine ⟨hSome, ⟨hWrote.exact, ?_⟩, hWrote.get_eq, congrArg (List.cons _) hWrote.layers⟩
      rw [hWrote.get_eq]
      refine h.2.removed (fun name a => ?_) (BucketIndex.nodup_foldl_drop _ h.2.nodup)
      have hHere := h.2.mem_iff hOld name
      rw [BucketIndex.mem_foldl_drop]
      grind
  | reversed m childrenOf inner ih =>
    unfold delete
    split
    · exact .inl ⟨_, rfl⟩
    · next old hOld =>
      refine (ih h.1).over fun inner' hInner => ?_
      obtain ⟨hSome, hWrote⟩ := hInner
      refine ⟨hSome, ⟨hWrote.exact, ?_⟩, hWrote.get_eq, congrArg (List.cons _) hWrote.layers⟩
      rw [hWrote.get_eq]
      have hHere := fun parent => (h.2.mem_iff hOld parent).trans Option.mem_toList
      exact h.2.removed (mem_leave hHere) (nodup_leave h.2.nodup)
  | ordered m index inner ih =>
    unfold delete
    split
    · exact .inl ⟨_, rfl⟩
    · next old hOld =>
      refine (ih h.1).over fun inner' hInner => ?_
      obtain ⟨hSome, hWrote⟩ := hInner
      refine ⟨hSome, ⟨hWrote.exact, fun k other => ?_⟩, hWrote.get_eq,
        congrArg (List.cons _) hWrote.layers⟩
      rw [Finset.mem_erase, hWrote.get_eq, h.2, ne_eq, toLex_inj, Prod.mk.injEq]
      by_cases hKey : other = key
      · rw [hKey, Function.update_self, hOld]
        grind
      · rw [Function.update_of_ne hKey]
        grind

/-! ## Updating -/

/-- An index stays the one of the records when the field that is written is none of its keys. -/
theorem derived_update {K : Type} [DecidableEq K] {index : BucketIndex K Id} {view : Id → Option R}
    {keys : R → List K}
    {r r' : R} (h : index.Derived view keys) (hSome : view key = some r)
    (hKeys : keys r' = keys r) :
    index.Derived (Function.update view key (some r')) keys :=
  h.of_keys fun other => by
    by_cases hOther : other = key
    · rw [hOther, Function.update_self, hSome, Option.map_some, Option.map_some, hKeys]
    · rw [Function.update_of_ne hOther]

theorem update_outcome [Separate R] (h : Exact s) (field : M) (value : SV) (key : Id) :
    Outcome (update field value key s) s fun s' => ∃ r, get s key = some r ∧
      Wrote s s' (Function.update (get s) key (some (setScannableValue field value r))) := by
  induction s with
  | base own records =>
    unfold update
    split
    · exact .inl ⟨_, rfl⟩
    · next record hOld =>
      split
      · have hId : idOf (setScannableValue field value record) = key :=
          (id_set field value record).trans (h key record hOld)
        have hExact := exact_base_insert h (setScannableValue field value record)
        have hGet :
            get (.base own (records.insert (idOf (setScannableValue field value record)) _) :
            Stack R M Id IV SV P Key) = _ :=
              get_base_insert own records (setScannableValue field value record)
        rw [hId] at hExact hGet
        exact .inr ⟨_, rfl, record, hOld, hExact, hGet, rfl⟩
      · exact .inl ⟨_, rfl⟩
  | indexed m index inner => exact .inl ⟨_, rfl⟩
  | scanned m cache inner ih =>
    obtain ⟨hExact, hFull, hSame⟩ := h
    unfold update
    split
    · next hField =>
      subst hField
      split
      · exact .inl ⟨_, rfl⟩
      · next hPresent =>
        obtain ⟨old, hValue⟩ := Option.ne_none_iff_exists'.mp fun hNone =>
          hPresent (Option.isNone_iff_eq_none.mpr hNone)
        obtain ⟨r, hOld⟩ :=
          Option.isSome_iff_exists.mp ((hSame key).symm.trans (by rw [hValue]; rfl))
        refine .inr ⟨_, rfl, setScannableValue m old r, ?_,
          ⟨hExact, Packed.full_set hFull, fun other => ?_⟩, ?_, rfl⟩
        · rw [get, hOld, hValue]
          rfl
        · rw [Packed.value_set, ← hSame]
          split
          · rw [Option.isSome_map]
          · rfl
        · funext other
          rw [get, Packed.value_set]
          by_cases hOther : other = key
          · rw [hOther, if_pos rfl, hOld, hValue, Function.update_self, Option.map_some,
              Option.map_some, Option.elim_some, set_set]
          · rw [if_neg hOther, Function.update_of_ne hOther, get]
    · next hField =>
      refine (ih hExact).over fun inner' hInner => ?_
      obtain ⟨r, hOld, hWrote⟩ := hInner
      refine ⟨(cache.value key).elim r fun v => setScannableValue m v r, by rw [get, hOld]; rfl,
        ⟨hWrote.exact, hFull, fun other => ?_⟩, ?_, congrArg (List.cons _) hWrote.layers⟩
      · rw [hSame, hWrote.get_eq]
        by_cases hOther : other = key
        · rw [hOther, Function.update_self, hOld]
          rfl
        · rw [Function.update_of_ne hOther]
      · funext other
        rw [get, hWrote.get_eq]
        by_cases hOther : other = key
        · rw [hOther, Function.update_self, Function.update_self, Option.map_some]
          cases cache.value key with
          | none => rfl
          | some v => rw [Option.elim_some, Option.elim_some, set_comm _ _ _ _ _ hField]
        · rw [Function.update_of_ne hOther, Function.update_of_ne hOther, get]
  | nameIndex index inner ih =>
    refine (ih h.1).over fun inner' hInner => ?_
    obtain ⟨r, hOld, hWrote⟩ := hInner
    refine ⟨r, hOld, ⟨hWrote.exact, ?_⟩, hWrote.get_eq, congrArg (List.cons _) hWrote.layers⟩
    rw [hWrote.get_eq]
    exact derived_update h.2 hOld (by rw [normalKeys, indexKeys_set, normalKeys])
  | reversed m childrenOf inner ih =>
    refine (ih h.1).over fun inner' hInner => ?_
    obtain ⟨r, hOld, hWrote⟩ := hInner
    refine ⟨r, hOld, ⟨hWrote.exact, ?_⟩, hWrote.get_eq, congrArg (List.cons _) hWrote.layers⟩
    rw [hWrote.get_eq]
    exact derived_update h.2 hOld (by rw [parentId_set])
  | ordered m index inner ih =>
    unfold update
    split
    · next hNone =>
      refine (ih h.1).over fun inner' hInner => ?_
      obtain ⟨r, hOld, hWrote⟩ := hInner
      have hField : m ≠ field := by
        intro hEq
        rw [if_pos hEq] at hNone
        exact Option.some_ne_none r (hOld.symm.trans hNone)
      refine ⟨r, hOld, ⟨hWrote.exact, fun k other => ?_⟩, hWrote.get_eq,
        congrArg (List.cons _) hWrote.layers⟩
      rw [h.2, hWrote.get_eq]
      by_cases hOther : other = key
      · rw [hOther, Function.update_self, hOld]
        simp [orderKey_set _ _ _ _ hField]
      · rw [Function.update_of_ne hOther]
    · next old hSome =>
      obtain ⟨hField, hRead⟩ : m = field ∧ get inner key = some old := by
        split at hSome
        · next hField => exact ⟨hField, hSome⟩
        · cases hSome
      refine (ih h.1).over fun inner' hInner => ?_
      obtain ⟨r, hOld, hWrote⟩ := hInner
      obtain rfl := Option.some.inj (hOld.symm.trans hRead)
      refine ⟨r, hOld, ⟨hWrote.exact, fun k other => ?_⟩, hWrote.get_eq,
        congrArg (List.cons _) hWrote.layers⟩
      rw [hWrote.get_eq, Function.update_self, Option.elim_some, Finset.mem_insert,
        Finset.mem_erase, h.2, ne_eq, toLex_inj, toLex_inj, Prod.mk.injEq, Prod.mk.injEq]
      by_cases hOther : other = key
      · rw [hOther, Function.update_self, hOld]
        grind
      · rw [Function.update_of_ne hOther]
        grind

end IndexLayers

end MultimodalDb
