import MultimodalDb.Generic.IndexLayerRules
import MultimodalDb.Generic.OrderCustomer

/-!
# The index layers and a rebuild

After any writes, accepted and refused, every layer answers what the same layer answers that is
built afresh from the records there are then (`layers_equal_rebuild`).
-/

set_option linter.unusedSectionVars false

namespace MultimodalDb

namespace IndexLayers

open RecordFields hiding id
open RecordFields renaming id → idOf
open Separate

variable {R M Id IV SV P Key : Type} [LinearOrder Id] [LinearOrder Key] [DecidableEq M]
  [DecidableEq IV] [DecidableEq P]
variable [RecordFields R M Id IV SV P Key]
variable {s s' : Stack R M Id IV SV P Key} {records : List R} {key : Id}

/-! ## Records -/

/-- The records of a stack. -/
def live (s : Stack R M Id IV SV P Key) : List R := (allIds s).filterMap (get s)

/-- A view that takes one record after the other. -/
def fill (view : Id → Option R) (records : List R) : Id → Option R :=
  records.foldl (fun view r => Function.update view (idOf r) (some r)) view

theorem fill_of_not_mem {view : Id → Option R} (h : key ∉ records.map idOf) :
    fill view records key = view key := by
  induction records generalizing view with
  | nil => rfl
  | cons r records ih =>
    rw [List.map_cons, List.mem_cons, not_or] at h
    rw [fill, List.foldl_cons, ← fill, ih h.2, Function.update_of_ne h.1]

theorem fill_of_mem {view : Id → Option R} (hNodup : (records.map idOf).Nodup) {r : R}
    (h : r ∈ records) :
    fill view records (idOf r) = some r := by
  induction records generalizing view with
  | nil => cases h
  | cons r' records ih =>
    rw [List.map_cons, List.nodup_cons] at hNodup
    rw [fill, List.foldl_cons, ← fill]
    rcases List.mem_cons.mp h with rfl | hLater
    · rw [fill_of_not_mem hNodup.1, Function.update_self]
    · exact ih hNodup.2 hLater

theorem map_idOf_live (h : Exact s) : (live s).map idOf = allIds s := by
  rw [live, List.map_filterMap]
  have hSelf : ∀ key ∈ allIds s, (get s key).map idOf = some key := by
    intro key hMem
    obtain ⟨r, hSome⟩ := Option.isSome_iff_exists.mp ((mem_allIds s key).mp hMem)
    rw [hSome, Option.map_some, idOf_get h hSome]
  rw [List.filterMap_congr hSelf, List.filterMap_some]

theorem nodup_live (h : Exact s) : ((live s).map idOf).Nodup := by
  rw [map_idOf_live h]
  exact nodup_allIds s

theorem fill_live (h : Exact s) : fill (fun _ => none) (live s) = get s := by
  funext key
  cases hSome : get s key with
  | none =>
    rw [fill_of_not_mem]
    rw [map_idOf_live h, mem_allIds, hSome]
    exact Bool.false_ne_true
  | some r =>
    have hMem : r ∈ live s :=
      List.mem_filterMap.mpr ⟨key, (mem_allIds s key).mpr (by rw [hSome]; rfl), hSome⟩
    rw [← idOf_get h hSome, fill_of_mem (nodup_live h) hMem]

/-! ## Building -/

/-- What is kept while one record after the other is taken, none of an id that was there. -/
theorem fold_rule {A : Type} {f : A → R → A} {Q : A → (Id → Option R) → Prop} {a : A}
    {view : Id → Option R}
    (hNodup : (records.map idOf).Nodup) (hNew : ∀ r ∈ records, view (idOf r) = none) (h : Q a view)
    (hStep : ∀ a view r, Q a view → view (idOf r) = none →
      Q (f a r) (Function.update view (idOf r) (some r))) :
    Q (records.foldl f a) (fill view records) := by
  induction records generalizing a view with
  | nil => exact h
  | cons r records ih =>
    obtain ⟨hHere, hRest⟩ := List.forall_mem_cons.mp hNew
    rw [List.map_cons, List.nodup_cons] at hNodup
    refine ih hNodup.2 (fun r' hMem => ?_) (hStep a view r h hHere)
    have hOther : idOf r' ≠ idOf r := fun hEq => hNodup.1 (hEq ▸ List.mem_map_of_mem hMem)
    exact (Function.update_of_ne hOther _ _).trans (hRest r' hMem)

/-- A fold over the ids of a stack takes its records. -/
theorem foldl_allIds (h : Exact s) {A : Type} (step : A → R → Id → A) (a : A) :
    (allIds s).foldl (fun a key => (get s key).elim a fun record => step a record key) a =
      (live s).foldl (fun a record => step a record (idOf record)) a := by
  rw [live, List.foldl_filterMap]
  refine List.foldl_ext _ _ _ fun a key _ => ?_
  cases hSome : get s key with
  | none => rfl
  | some record =>
    show step a record key = step a record (idOf record)
    rw [idOf_get h hSome]

theorem base_rule (own : Option M) (hNodup : (records.map idOf).Nodup) :
    Wrote (.base own ∅) (.base own (Base.new records) : Stack R M Id IV SV P Key)
      (fill (fun _ => none) records) := by
  refine fold_rule (Q := fun m view =>
    Wrote (.base own ∅) (.base own m : Stack R M Id IV SV P Key) view) hNodup
    (fun _ _ => rfl) ⟨fun _ _ hSome => ?_, ?_, rfl⟩ fun m view r hWrote _ =>
      ⟨exact_base_insert hWrote.exact r, ?_, rfl⟩
  · rw [AList.lookup_empty] at hSome
    cases hSome
  · funext key
    exact AList.lookup_empty key
  · rw [← hWrote.get_eq]
    exact get_base_insert own m r

/-- What a layer over a stack of records is. -/
structure Built (s : Stack R M Id IV SV P Key) (records : List R)
    (layers : List (Layer M)) : Prop where
  exact : Exact s
  get_eq : get s = fill (fun _ => none) records
  layers : layersOf s = layers

theorem Built.wrap {layers : List (Layer M)} (h : Built s records layers)
    (hNodup : (records.map idOf).Nodup)
    (layer : Layer M) : Built (layer.wrap records s) records (layer :: layers) := by
  have hNone : ∀ r ∈ records, (fun _ => none : Id → Option R) (idOf r) = none := fun _ _ => rfl
  cases layer with
  | indexed m =>
    refine ⟨⟨h.exact, ?_⟩, h.get_eq, congrArg (List.cons _) h.layers⟩
    rw [h.get_eq]
    refine fold_rule (Q := fun (index : BucketIndex IV Id) view => index.Derived view fun r =>
      [indexedValue m r]) hNodup hNone
      (BucketIndex.derived_empty _) fun index view r hDerived hNew => derived_push hDerived hNew
  | scanned m =>
    have hEmpty : (Packed.empty : Packed Id SV).Full ∧
        ∀ key, (Packed.empty : Packed Id SV).value key =
        ((fun _ => none : Id → Option R) key).map (scannableValue m) :=
          ⟨Packed.full_empty, fun _ => rfl⟩
    obtain ⟨hFull, hValue⟩ := fold_rule
      (Q := fun (cache : Packed Id SV) view => cache.Full ∧
        ∀ key, cache.value key = (view key).map (scannableValue m))
      (f := fun cache r => cache.push (idOf r) (scannableValue m r)) hNodup hNone hEmpty
      fun cache view r hSame hNew => by
        refine ⟨Packed.full_push hSame.1 (by rw [hSame.2, hNew, Option.map_none]), fun key => ?_⟩
        rw [Packed.value_push]
        by_cases hKey : key = idOf r
        · rw [hKey, if_pos rfl, Function.update_self, Option.map_some]
        · rw [if_neg hKey, Function.update_of_ne hKey, hSame.2]
    refine ⟨⟨h.exact, hFull, fun key => ?_⟩, ?_, congrArg (List.cons _) h.layers⟩
    · rw [hValue, h.get_eq, Option.isSome_map]
    · funext key
      show (get s key).map _ = _
      rw [hValue, h.get_eq]
      cases fill (fun _ => none) records key with
      | none => rfl
      | some r => rw [Option.map_some, Option.map_some, Option.elim_some, set_value]
  | nameIndex =>
    refine ⟨⟨h.exact, ?_⟩, h.get_eq, congrArg (List.cons _) h.layers⟩
    rw [foldl_allIds h.exact fun index record key => addKeys index (normalKeys record) key,
      ← fill_live h.exact]
    exact fold_rule (Q := fun (index : BucketIndex String Id) view => index.Derived view normalKeys)
      (nodup_live h.exact) (fun _ _ => rfl)
      (BucketIndex.derived_empty _) fun index view r hDerived hNew => derived_addKeys hDerived hNew
  | reversed m =>
    refine ⟨⟨h.exact, ?_⟩, h.get_eq, congrArg (List.cons _) h.layers⟩
    rw [h.get_eq]
    exact fold_rule (Q := fun (index : BucketIndex P Id) view => index.Derived view fun r =>
      (parentId m r).toList) hNodup hNone
      (BucketIndex.derived_empty _) fun index view r hDerived hNew => derived_join hDerived hNew
  | ordered m =>
    refine ⟨⟨h.exact, ?_⟩, h.get_eq, congrArg (List.cons _) h.layers⟩
    rw [foldl_allIds h.exact fun index record key =>
      Insert.insert (toLex (orderKey m record, key)) index, ← fill_live h.exact]
    refine fold_rule (Q := fun (index : Finset (Key ×ₗ Id)) view =>
      ∀ k key, toLex (k, key) ∈ index ↔
      ∃ r, view key = some r ∧ orderKey m r = k) (nodup_live h.exact) (fun _ _ => rfl) (by simp)
      fun index view r hSame hNew k key => ?_
    rw [Finset.mem_insert, hSame, toLex_inj, Prod.mk.injEq]
    by_cases hKey : key = idOf r
    · rw [hKey, Function.update_self, hNew]
      grind
    · rw [Function.update_of_ne hKey]
      grind

theorem built_build (own : Option M) (layers : List (Layer M)) (hNodup : (records.map idOf).Nodup) :
    Built (build own layers records : Stack R M Id IV SV P Key) records layers := by
  induction layers with
  | nil => exact ⟨(base_rule own hNodup).exact, (base_rule own hNodup).get_eq, rfl⟩
  | cons layer layers ih => exact ih.wrap hNodup layer

/-! ## Runs -/

/-- A write of a record, which the base may refuse, or of a field. -/
inductive Write (R M Id SV : Type) where
  | insert (fault : Option DurabilityError) (record : R)
  | replace (fault : Option DurabilityError) (record : R)
  | update (field : M) (key : Id) (value : SV)
  | delete (fault : Option DurabilityError) (key : Id)

def apply (s : Stack R M Id IV SV P Key) : Write R M Id SV → Stack R M Id IV SV P Key
  | .insert fault record => (insert fault record s).2
  | .replace fault record => (replace fault record s).2
  | .update field key value => (update field value key s).2
  | .delete fault key => (delete fault key s).2

def run (s : Stack R M Id IV SV P Key) (writes : List (Write R M Id SV)) :
    Stack R M Id IV SV P Key :=
  writes.foldl apply s

theorem Outcome.kept {ε : Type} {r : Result R M Id IV SV P Key ε}
    {Q : Stack R M Id IV SV P Key → Prop}
    (h : Exact s) (hOutcome : Outcome r s Q)
    (hQ : ∀ s', Q s' → Exact s' ∧ layersOf s' = layersOf s) :
    Exact r.2 ∧ layersOf r.2 = layersOf s := by
  rcases hOutcome with ⟨e, rfl⟩ | ⟨s', rfl, hInner⟩
  · exact ⟨h, rfl⟩
  · exact hQ s' hInner

theorem exact_apply [Separate R] (h : Exact s) (w : Write R M Id SV) :
    Exact (apply s w) ∧ layersOf (apply s w) = layersOf s := by
  cases w with
  | insert fault record => exact (insert_outcome h).kept h fun s' hQ => ⟨hQ.2.exact, hQ.2.layers⟩
  | replace fault record => exact (replace_outcome h).kept h fun s' hQ => ⟨hQ.2.exact, hQ.2.layers⟩
  | update field key value =>
    exact (update_outcome h field value key).kept h fun s' hQ => hQ.elim fun r hR =>
      ⟨hR.2.exact, hR.2.layers⟩
  | delete fault key => exact (delete_outcome h key).kept h fun s' hQ => ⟨hQ.2.exact, hQ.2.layers⟩

/-- **Writes keep a stack exact.** -/
theorem exact_run [Separate R] (h : Exact s) (writes : List (Write R M Id SV)) :
    Exact (run s writes) ∧ layersOf (run s writes) = layersOf s := by
  induction writes generalizing s with
  | nil => exact ⟨h, rfl⟩
  | cons w writes ih =>
    obtain ⟨hExact, hLayers⟩ := exact_apply h w
    obtain ⟨hRun, hSame⟩ := ih hExact
    exact ⟨hRun, hSame.trans hLayers⟩

/-! ## Answers -/

/-- Nothing beneath a column of a field reads that field: its new values do not reach there. -/
def Apart : List (Layer M) → Prop
  | [] => True
  | .scanned m :: layers => (.scanned m ∉ layers ∧ .ordered m ∉ layers) ∧ Apart layers
  | _ :: layers => Apart layers

/-- Two stacks of the same layers answer every query alike: the buckets and the columns hold the
same in some order, and the pages are the same lists. -/
inductive SameAnswers : Stack R M Id IV SV P Key → Stack R M Id IV SV P Key → Prop
  | base own own' records records' : SameAnswers (.base own records) (.base own' records')
  | indexed {m index index' inner inner'} :
      (∀ value, (filterEq index value).Perm (filterEq index' value)) →
      SameAnswers inner inner' → SameAnswers (.indexed m index inner) (.indexed m index' inner')
  | scanned {m cache cache' inner inner'} : (scan cache).Perm (scan cache') →
      SameAnswers inner inner' → SameAnswers (.scanned m cache inner) (.scanned m cache' inner')
  | nameIndex {index index' inner inner'} :
      (∀ name, (findByName (R := R) index name).Perm (findByName (R := R) index' name)) →
      SameAnswers inner inner' → SameAnswers (.nameIndex index inner) (.nameIndex index' inner')
  | reversed {m childrenOf childrenOf' inner inner'} :
      (∀ parent, (children childrenOf parent).Perm (children childrenOf' parent)) →
      SameAnswers inner inner' →
        SameAnswers (.reversed m childrenOf inner) (.reversed m childrenOf' inner')
  | ordered {m index index' inner inner'} :
      (∀ after limit, pageBy index after limit = pageBy index' after limit) →
      SameAnswers inner inner' → SameAnswers (.ordered m index inner) (.ordered m index' inner')

/-- Two records that differ at most in the fields `written`. -/
structure Similar (written : List M) (r r' : R) : Prop where
  indexedValue m : indexedValue m r = indexedValue m r'
  indexKeys : indexKeys r = indexKeys r'
  parentId m : parentId m r = parentId m r'
  scannableValue m : m ∉ written → scannableValue m r = scannableValue m r'
  orderKey m : m ∉ written → orderKey m r = orderKey m r'

/-- Two views of the same ids whose records differ at most in the fields `written`. -/
def Alike (written : List M) (view view' : Id → Option R) : Prop :=
  ∀ key, Option.Rel (Similar written) (view key) (view' key)

section Answers

variable {t : Stack R M Id IV SV P Key} {written : List M} {view view' : Id → Option R}

theorem Similar.refl (r : R) : Similar written r r :=
  ⟨fun _ => rfl, rfl, fun _ => rfl, fun _ _ => rfl, fun _ _ => rfl⟩

/-- What is read of the records alike is the same in both views. -/
theorem Alike.map_eq {A : Type} {read : R → A} (h : Alike written view view')
    (hRead : ∀ r r', Similar written r r' → read r = read r') (key : Id) :
    (view' key).map read = (view key).map read := by
  have hKey := h key
  generalize view key = a, view' key = b at hKey ⊢
  cases hKey with
  | some hSimilar => exact congrArg some (hRead _ _ hSimilar).symm
  | none => rfl

/-- The column of a field hides what the records beneath have there. -/
theorem Similar.beneath [Separate R] {m : M} {v v' : SV} {r r' : R}
    (h : Similar written (setScannableValue m v r) (setScannableValue m v' r')) :
    Similar (m :: written) r r' where
  indexedValue f := by simpa only [indexedValue_set] using h.indexedValue f
  indexKeys := by simpa only [indexKeys_set] using h.indexKeys
  parentId f := by simpa only [parentId_set] using h.parentId f
  scannableValue f hFree := by
    obtain ⟨hOther, hFree⟩ := not_or.mp (mt List.mem_cons.mpr hFree)
    have hSame := h.scannableValue f hFree
    rwa [scannableValue_set _ _ _ _ hOther, scannableValue_set _ _ _ _ hOther] at hSame
  orderKey f hFree := by
    obtain ⟨hOther, hFree⟩ := not_or.mp (mt List.mem_cons.mpr hFree)
    have hSame := h.orderKey f hFree
    rwa [orderKey_set _ _ _ _ hOther, orderKey_set _ _ _ _ hOther] at hSame

/-- A column beneath has the values that are read above it. -/
theorem value_eq_get {m : M} {cache : Packed Id SV} {inner : Stack R M Id IV SV P Key}
    (h : Exact (.scanned m cache inner)) (key : Id) :
    cache.value key = (get (.scanned m cache inner) key).map (scannableValue m) := by
  have hSame := h.2.2 key
  rw [get]
  cases hValue : cache.value key with
  | none =>
    rw [hValue, Option.isSome_none] at hSame
    rw [Option.isSome_eq_false_iff.mp hSame.symm |> Option.isNone_iff_eq_none.mp]
    rfl
  | some v =>
    rw [hValue, Option.isSome_some] at hSame
    obtain ⟨r, hSome⟩ := Option.isSome_iff_exists.mp hSame.symm
    rw [hSome, Option.map_some, Option.map_some, Option.elim_some, value_set]

theorem Alike.beneath [Separate R] {m : M} {cache cache' : Packed Id SV}
    {inner inner' : Stack R M Id IV SV P Key}
    (hs : Exact (.scanned m cache inner)) (ht : Exact (.scanned m cache' inner'))
    (h : Alike written (get (.scanned m cache inner)) (get (.scanned m cache' inner'))) :
    Alike (m :: written) (get inner) (get inner') := by
  intro key
  have hHere := hs.2.2 key
  have hThere := ht.2.2 key
  have hKey := h key
  rw [get, get] at hKey
  cases hOld : get inner key with
  | none =>
    rw [hOld, Option.map_none] at hKey
    cases hOld' : get inner' key with
    | none => exact .none
    | some r' =>
      rw [hOld', Option.map_some] at hKey
      cases hKey
  | some r =>
    rw [hOld, Option.isSome_some] at hHere
    rw [hOld, Option.map_some] at hKey
    obtain ⟨v, hValue⟩ := Option.isSome_iff_exists.mp hHere
    cases hOld' : get inner' key with
    | none =>
      rw [hOld', Option.map_none] at hKey
      cases hKey
    | some r' =>
      rw [hOld', Option.isSome_some] at hThere
      obtain ⟨v', hValue'⟩ := Option.isSome_iff_exists.mp hThere
      rw [hOld', Option.map_some, hValue, hValue', Option.elim_some, Option.elim_some] at hKey
      cases hKey with
      | some hSimilar => exact .some hSimilar.beneath

/-- No layer reads the fields `written`. -/
def Unread (written : List M) (layers : List (Layer M)) : Prop :=
  ∀ m ∈ written, .scanned m ∉ layers ∧ .ordered m ∉ layers

theorem Unread.tail {layer : Layer M} {layers : List (Layer M)}
    (h : Unread written (layer :: layers)) :
    Unread written layers := fun m hMem =>
  ⟨fun hIn => (h m hMem).1 (List.mem_cons_of_mem _ hIn),
    fun hIn => (h m hMem).2 (List.mem_cons_of_mem _ hIn)⟩

/-- Exact stacks of the same layers whose records are alike answer alike: the induction goes down
the stack, and beneath a column the records may differ in its field. -/
theorem sameAnswers_of_alike [Separate R] (hs : Exact s) (ht : Exact t)
    (hLayers : layersOf t = layersOf s)
    (hApart : Apart (layersOf s)) (hAlike : Alike written (get s) (get t))
    (hFree : Unread written (layersOf s)) : SameAnswers s t := by
  induction s generalizing t written with
  | base own records =>
    cases t with
    | base own' records' => exact .base ..
    | indexed | scanned | nameIndex | reversed | ordered => cases hLayers
  | indexed m index inner ih =>
    cases t with
    | indexed m' index' inner' =>
      obtain ⟨⟨rfl⟩, hBeneath⟩ := List.cons.inj hLayers
      exact .indexed (hs.2.perm ht.2 (hAlike.map_eq fun r r' h => by rw [h.indexedValue]))
        (ih hs.1 ht.1 hBeneath hApart hAlike hFree.tail)
    | base | scanned | nameIndex | reversed | ordered => cases hLayers
  | scanned m cache inner ih =>
    cases t with
    | scanned m' cache' inner' =>
      obtain ⟨⟨rfl⟩, hBeneath⟩ := List.cons.inj hLayers
      refine .scanned (Packed.cells_perm_of_value hs.2.1 ht.2.1 fun key => ?_)
        (ih hs.1 ht.1 hBeneath hApart.2 (hAlike.beneath hs ht) fun f hMem => ?_)
      · have hRead := fun (r r' : R) (h : Similar written r r') =>
          h.scannableValue m fun hMem => (hFree m hMem).1 List.mem_cons_self
        rw [value_eq_get hs, value_eq_get ht, hAlike.map_eq hRead]
      · rcases List.mem_cons.mp hMem with rfl | hMem
        · exact hApart.1
        · exact hFree.tail f hMem
    | base | indexed | nameIndex | reversed | ordered => cases hLayers
  | nameIndex index inner ih =>
    cases t with
    | nameIndex index' inner' =>
      have hBeneath := (List.cons.inj hLayers).2
      exact .nameIndex
        (fun name => hs.2.perm ht.2
          (hAlike.map_eq fun r r' h => by rw [normalKeys, h.indexKeys, normalKeys]) _)
        (ih hs.1 ht.1 hBeneath hApart hAlike hFree.tail)
    | base | indexed | scanned | reversed | ordered => cases hLayers
  | reversed m childrenOf inner ih =>
    cases t with
    | reversed m' childrenOf' inner' =>
      obtain ⟨⟨rfl⟩, hBeneath⟩ := List.cons.inj hLayers
      exact .reversed (hs.2.perm ht.2 (hAlike.map_eq fun r r' h => by rw [h.parentId]))
        (ih hs.1 ht.1 hBeneath hApart hAlike hFree.tail)
    | base | indexed | scanned | nameIndex | ordered => cases hLayers
  | ordered m index inner ih =>
    cases t with
    | ordered m' index' inner' =>
      obtain ⟨⟨rfl⟩, hBeneath⟩ := List.cons.inj hLayers
      have hRead := hAlike.map_eq fun (r r' : R) (h : Similar written r r') =>
        h.orderKey m fun hMem => (hFree m hMem).2 List.mem_cons_self
      have hSame : index' = index := by
        ext pair
        have hHere := hs.2 (ofLex pair).1 (ofLex pair).2
        have hThere := ht.2 (ofLex pair).1 (ofLex pair).2
        have hPair := hRead (ofLex pair).2
        rw [Prod.mk.eta, toLex_ofLex] at hHere hThere
        rw [get, get] at hPair
        rw [hHere, hThere, ← Option.map_eq_some_iff, ← Option.map_eq_some_iff, hPair]
      subst hSame
      exact .ordered (fun _ _ => rfl) (ih hs.1 ht.1 hBeneath hApart hAlike hFree.tail)
    | base | indexed | scanned | nameIndex | reversed => cases hLayers

end Answers

/-- **The index layers equal a rebuild.** Whatever was written to them, and whatever of it was
refused, the layers of a stack answer as the same layers do that are built from the records there
are. -/
theorem layers_equal_rebuild [Separate R] (own : Option M) {layers : List (Layer M)}
    (hApart : Apart layers)
    {records : List R} (hNodup : (records.map idOf).Nodup) (writes : List (Write R M Id SV)) :
    let s : Stack R M Id IV SV P Key := run (build own layers records) writes
    get (build own layers (live s)) = get s ∧ SameAnswers s (build own layers (live s)) := by
  intro s
  have hBuilt : Built (build own layers records : Stack R M Id IV SV P Key) records layers :=
    built_build own layers hNodup
  obtain ⟨hExact, hLayers⟩ : Exact s ∧ layersOf s = layersOf (build own layers records) :=
    exact_run hBuilt.exact writes
  have hAgain : Built (build own layers (live s) : Stack R M Id IV SV P Key) (live s) layers :=
    built_build own layers (nodup_live hExact)
  have hGet : get (build own layers (live s)) = get s := by rw [hAgain.get_eq, fill_live hExact]
  rw [hBuilt.layers] at hLayers
  have hFree : Unread [] (layersOf s) := fun m hMem => absurd hMem List.not_mem_nil
  refine ⟨hGet, sameAnswers_of_alike hExact hAgain.exact (by rw [hAgain.layers, hLayers])
    (by rwa [hLayers]) (fun key => ?_) hFree⟩
  rw [hGet]
  cases get s key with
  | none => exact .none
  | some r => exact .some (.refl r)

end IndexLayers

/-! ## Orders -/

namespace Order

/-- The scannable fields of an order. -/
inductive Scannable where
  | amount
  | createdAt
  | discountCents
  deriving DecidableEq

def valueOf (o : Order) : Scannable → Int64
  | .amount => o.amountCents
  | .createdAt => o.createdAtUnixMs
  | .discountCents => o.discountCents

def setValue (v : Int64) (o : Order) : Scannable → Order
  | .amount => { o with amountCents := v }
  | .createdAt => { o with createdAtUnixMs := v }
  | .discountCents => { o with discountCents := v }

/-- There is one indexed field and one parent, so that a marker tells nothing of them. Orders have
no names, and none of their fields has a sorted index. -/
instance : RecordFields Order Scannable Uuid OrderStatus Int64 Uuid Unit where
  id := Order.id
  indexedValue _ o := o.status
  scannableValue f o := o.valueOf f
  setScannableValue f v o := o.setValue v f
  indexKeys _ := []
  normalize name := name
  parentId _ o := some o.customerId
  orderKey _ _ := ()
  id_set f _ _ := by cases f <;> rfl
  value_set f _ _ := by cases f <;> rfl
  set_set f _ _ _ := by cases f <;> rfl
  set_value f _ := by cases f <;> rfl

instance : IndexLayers.Separate Order where
  indexedValue_set _ f _ _ := by cases f <;> rfl
  indexKeys_set _ _ _ := rfl
  parentId_set _ f _ _ := by cases f <;> rfl
  scannableValue_set f f' _ _ h := by
    cases f <;> cases f' <;> first | exact absurd rfl h | rfl
  orderKey_set _ _ _ _ _ := rfl
  set_comm f f' _ _ _ h := by
    cases f <;> cases f' <;> first | exact absurd rfl h | rfl

/-- The layers of `OrderGenericStore`, the top one first. -/
def genericLayers : List (IndexLayers.Layer Scannable) :=
  [.reversed .amount, .scanned .discountCents, .scanned .createdAt, .scanned .amount,
    .indexed .amount]

def buildOrderGenericStore (orders : List Order) :
    IndexLayers.Stack Order Scannable Uuid OrderStatus Int64 Uuid Unit :=
  IndexLayers.build none genericLayers orders

theorem apart_genericLayers : IndexLayers.Apart genericLayers :=
  ⟨by decide, by decide, by decide, trivial⟩

/-- The layers of a store of two orders after an update, a deletion and an insertion. -/
theorem genericStore_equals_rebuild :
    let s := IndexLayers.run (buildOrderGenericStore [sample 1 5, sample 2 7])
      [.update .amount (Uuid.ofNat 1) 9, .delete none (Uuid.ofNat 2), .insert none (sample 3 1)]
    IndexLayers.get (buildOrderGenericStore (IndexLayers.live s)) = IndexLayers.get s ∧
      IndexLayers.SameAnswers s (buildOrderGenericStore (IndexLayers.live s)) :=
  IndexLayers.layers_equal_rebuild none apart_genericLayers (by decide)
    [.update .amount (Uuid.ofNat 1) 9, .delete none (Uuid.ofNat 2), .insert none (sample 3 1)]

end Order

end MultimodalDb
