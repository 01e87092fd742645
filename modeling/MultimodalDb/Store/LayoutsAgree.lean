import MultimodalDb.Store.Layouts

/-!
# The layouts agree

`Kennel` is what a store holds, apart from how it is laid out. Each layout represents a kennel
(`Implements`), so a run of updates is answered by all of them alike, and afterwards they cannot be
told apart (`layouts_agree`): only the order of the ages and of the dogs of one breed is their own.
-/

namespace MultimodalDb

/-- Dogs with distinct ids, and edges between distinct ids. -/
structure Kennel where
  dogs : List DogRecord
  edges : List (Uuid × Uuid)
  nodup_ids : (dogs.map (·.id)).Nodup
  distinct_ends : ∀ e ∈ edges, e.1 ≠ e.2

namespace Kennel

/-- A dog with the age, if it is the one. -/
def aged (id : Uuid) (age : UInt32) (dog : DogRecord) : DogRecord :=
  if dog.id = id then { dog with age := age } else dog

@[simp] theorem aged_id (id : Uuid) (age : UInt32) (dog : DogRecord) :
    (aged id age dog).id = dog.id := by
  unfold aged
  split <;> rfl

@[simp] theorem aged_breed (id : Uuid) (age : UInt32) (dog : DogRecord) :
    (aged id age dog).breed = dog.breed := by
  unfold aged
  split <;> rfl

def setAge (k : Kennel) (id : Uuid) (age : UInt32) : Kennel where
  dogs := k.dogs.map (aged id age)
  edges := k.edges
  nodup_ids := by simpa only [List.map_map, Function.comp_def, aged_id] using k.nodup_ids
  distinct_ends := k.distinct_ends

def find (k : Kennel) (id : Uuid) : Option DogRecord := k.dogs.find? (·.id = id)

variable {k : Kennel} {id : Uuid} {dog : DogRecord}

theorem find_eq_some : k.find id = some dog ↔ dog ∈ k.dogs ∧ dog.id = id := by
  constructor
  · intro h
    exact ⟨List.mem_of_find?_eq_some h, by simpa using List.find?_some h⟩
  · rintro ⟨hMem, rfl⟩
    obtain ⟨other, hFind⟩ := Option.isSome_iff_exists.mp
      (List.find?_isSome.mpr ⟨dog, hMem, decide_eq_true rfl⟩ : (k.find dog.id).isSome)
    have hId : other.id = dog.id := by simpa using List.find?_some hFind
    have hSame : other = dog :=
      List.inj_on_of_nodup_map k.nodup_ids (List.mem_of_find?_eq_some hFind) hMem hId
    exact hSame ▸ hFind

theorem find_eq_none : k.find id = none ↔ ∀ dog ∈ k.dogs, dog.id ≠ id := by
  simp [find]

theorem find_setAge (k : Kennel) (id : Uuid) (age : UInt32) (other : Uuid) :
    (k.setAge id age).find other = (k.find other).map (aged id age) := by
  have hSame : (fun dog : DogRecord => decide (dog.id = other)) ∘ aged id age =
      fun dog => decide (dog.id = other) := by
    funext dog
    rw [Function.comp_apply, aged_id]
  rw [find, setAge, List.find?_map, hSame, find]

/-- Updating an unknown dog changes nothing. -/
theorem setAge_of_find_eq_none (h : k.find id = none) (age : UInt32) : k.setAge id age = k := by
  have hDogs : k.dogs.map (aged id age) = k.dogs := by
    refine (List.map_congr_left fun dog hDog => ?_).trans (List.map_id k.dogs)
    exact if_neg (find_eq_none.mp h dog hDog)
  unfold setAge
  simp only [hDogs]

/-- Two dogs of one breed. -/
def Breedmates (k : Kennel) (id other : Uuid) : Prop :=
  other ≠ id ∧ ∃ dog o, k.find id = some dog ∧ k.find other = some o ∧ o.breed = dog.breed

theorem breedmates_iff (h : k.find id = some dog) {other : Uuid} :
    k.Breedmates id other ↔ ∃ o ∈ k.dogs, o.id = other ∧ o.id ≠ id ∧ o.breed = dog.breed := by
  constructor
  · rintro ⟨hOther, _, o, hDog, hFind, hBreed⟩
    cases h.symm.trans hDog
    obtain ⟨hMem, rfl⟩ := find_eq_some.mp hFind
    exact ⟨o, hMem, rfl, hOther, hBreed⟩
  · rintro ⟨o, hMem, rfl, hOther, hBreed⟩
    exact ⟨hOther, dog, o, h, find_eq_some.mpr ⟨hMem, rfl⟩, hBreed⟩

theorem not_breedmates (h : k.find id = none) (other : Uuid) : ¬ k.Breedmates id other := by
  rintro ⟨-, dog, o, hFind, -⟩
  cases h.symm.trans hFind

def answer (k : Kennel) (id : Uuid) : Except StoreError Unit :=
  if (k.find id).isSome then .ok () else .error (.notFound id)

theorem answer_known (h : k.find id = some dog) : k.answer id = .ok () := by
  simp [answer, h]

theorem answer_unknown (h : k.find id = none) : k.answer id = .error (.notFound id) := by
  simp [answer, h]

end Kennel

/-- The store shows the kennel. -/
structure Shows {σ : Type} (D : DogStore σ) (s : σ) (k : Kennel) : Prop where
  get : ∀ id, D.get s id = k.find id
  scanAges : (D.scanAges s).Perm (k.dogs.map (·.age))
  sameBreed : ∀ id other, other ∈ D.sameBreed s id ↔ k.Breedmates id other
  neighbors : ∀ id, D.neighbors s id = neighborsOf k.edges id

/-- A representation of kennels: a new store has it, an update keeps it, and it is what reads show.
-/
structure Implements {σ : Type} (D : DogStore σ) (Rep : σ → Kennel → Prop) : Prop where
  new : ∀ k, Rep (D.new k.dogs k.edges) k
  update : ∀ {s k}, Rep s k → ∀ id age,
    ∃ s', D.updateAge id age s = some (k.answer id, s') ∧ Rep s' (k.setAge id age)
  shows : ∀ {s k}, Rep s k → Shows D s k

/-- The answers of a run, and what it leaves. -/
def Kennel.run : List (Uuid × UInt32) → Kennel → List (Except StoreError Unit) × Kennel
  | [], k => ([], k)
  | (id, age) :: updates, k =>
    (k.answer id :: (run updates (k.setAge id age)).1, (run updates (k.setAge id age)).2)

theorem Implements.run {σ : Type} {D : DogStore σ} {Rep : σ → Kennel → Prop} (h : Implements D Rep)
    (updates : List (Uuid × UInt32)) {s : σ} {k : Kennel} (hRep : Rep s k) :
    ∃ s', D.run updates s = some ((k.run updates).1, s') ∧ Rep s' (k.run updates).2 := by
  induction updates generalizing s k with
  | nil => exact ⟨s, rfl, hRep⟩
  | cons update updates ih =>
    obtain ⟨id, age⟩ := update
    obtain ⟨next, hUpdate, hNext⟩ := h.update hRep id age
    obtain ⟨last, hRun, hLast⟩ := ih hNext
    refine ⟨last, ?_, hLast⟩
    simp only [DogStore.run, hUpdate, Option.bind_eq_bind, Option.bind_some, hRun, Option.pure_def,
      Kennel.run]

/-! ## Rows -/

theorem AosStore.setAge_eq {dogs : List DogRecord} (hIds : (dogs.map (·.id)).Nodup) (id : Uuid)
    (age : UInt32) :
    setAge id age dogs =
      if (dogs.find? (·.id = id)).isSome then some (dogs.map (Kennel.aged id age)) else none := by
  induction dogs with
  | nil => rfl
  | cons dog dogs ih =>
    obtain ⟨hNew, hRest⟩ := List.nodup_cons.mp hIds
    rw [setAge, List.map_cons]
    by_cases hId : dog.id = id
    · -- No later dog has the id.
      have hLater : dogs.map (Kennel.aged id age) = dogs := by
        refine (List.map_congr_left fun other hMem => ?_).trans (List.map_id dogs)
        refine if_neg fun hSame => hNew (List.mem_map.mpr ⟨other, hMem, ?_⟩)
        exact hSame.trans hId.symm
      simp [hId, hLater, Kennel.aged]
    · rw [if_neg hId, ih hRest]
      simp only [List.find?_cons, decide_eq_false hId, Kennel.aged, if_neg hId]
      split <;> rfl

theorem AosStore.implements :
    Implements store fun s k => s.records = k.dogs ∧ s.edges = k.edges where
  new k := ⟨rfl, rfl⟩
  update := by
    rintro ⟨records, edges⟩ k ⟨rfl, rfl⟩ id age
    refine ⟨⟨(k.setAge id age).dogs, k.edges⟩, ?_, rfl, rfl⟩
    change updateAge id age _ = _
    have hSet : setAge id age k.dogs = if (k.find id).isSome then some (k.setAge id age).dogs
        else none :=
      setAge_eq k.nodup_ids id age
    cases hFind : k.find id with
    | none => simp [updateAge, hSet, Kennel.answer_unknown hFind, hFind,
        k.setAge_of_find_eq_none hFind]
    | some dog => simp [updateAge, hSet, Kennel.answer_known hFind, hFind]
  shows := by
    rintro ⟨records, edges⟩ k ⟨rfl, rfl⟩
    refine ⟨fun id => rfl, .refl _, fun id other => ?_, fun id => rfl⟩
    change other ∈ sameBreed _ id ↔ _
    unfold sameBreed
    split
    · next hNone => simpa using Kennel.not_breedmates hNone other
    · next target hTarget =>
      rw [Kennel.breedmates_iff hTarget]
      simp only [List.mem_map, List.mem_filter, Bool.and_eq_true, decide_eq_true_eq]
      exact exists_congr fun o => by tauto

/-! ## Columns -/

namespace SoaStore

/-- One row across the columns. -/
def row (s : SoaStore) (i : Fin s.ids.length) : DogRecord := ⟨s.ids.get i, s.breed i, s.age i⟩

def rows (s : SoaStore) : List DogRecord := (List.finRange s.ids.length).map s.row

theorem rows_new (records : List DogRecord) (edges : List (Uuid × Uuid)) :
    (new records edges).rows = records := by
  refine List.ext_getElem (by simp [rows, new]) fun i _ _ => ?_
  simp [rows, row, new, breed, age]

theorem ages_eq (s : SoaStore) : s.ages = s.rows.map (·.age) := by
  refine List.ext_getElem (by simp [rows, s.ages_length]) fun i _ _ => ?_
  simp [rows, row, age]

/-- The search for the position is the search for the row. -/
theorem positionOf_map_row (s : SoaStore) (id : Uuid) :
    (s.positionOf id).map s.row = s.rows.find? (·.id = id) := by
  rw [rows, List.find?_map]
  rfl

theorem get_eq (s : SoaStore) (id : Uuid) : s.get id = s.rows.find? (·.id = id) := by
  rw [← positionOf_map_row, Option.map_eq_bind]
  rfl

/-- The row of the position has the age that was written there, and the others have theirs. -/
theorem rows_set (s : SoaStore) (hIds : (s.rows.map (·.id)).Nodup) {id : Uuid}
    {position : Fin s.ids.length}
    (hAt : s.ids.get position = id) (age : UInt32)
    (hLength : (s.ages.set position age).length = s.ids.length) :
    rows { s with ages := s.ages.set position age, ages_length := hLength } =
      s.rows.map (Kennel.aged id age) := by
  have hNodup : s.ids.Nodup := by
    have hSame : s.rows.map (·.id) = s.ids := by
      refine List.ext_getElem (by simp [rows]) fun i _ _ => ?_
      simp [rows, row]
    exact hSame ▸ hIds
  refine List.ext_getElem (by simp [rows]) fun i hi _ => ?_
  have hi : i < s.ids.length := by simpa [rows] using hi
  have hPlace : s.ids[i] = id ↔ position.val = i := by
    rw [← hAt, List.get_eq_getElem, hNodup.getElem_inj_iff, eq_comm]
  simp only [rows, row, List.getElem_map, List.getElem_finRange, Kennel.aged, breed, SoaStore.age,
    List.get_eq_getElem, Fin.val_cast, List.getElem_set, hPlace]
  split <;> rfl

theorem implements : Implements store fun s k => s.rows = k.dogs ∧ s.edges = k.edges where
  new k := ⟨rows_new k.dogs k.edges, rfl⟩
  update := by
    rintro s k ⟨hRows, hEdges⟩ id age
    have hFind : (s.positionOf id).map s.row = k.find id := by
      rw [positionOf_map_row, hRows]
      rfl
    change ∃ s', updateAge id age s = _ ∧ _
    unfold updateAge
    cases hPosition : s.positionOf id with
    | none =>
      rw [hPosition] at hFind
      rw [Kennel.answer_unknown hFind.symm, k.setAge_of_find_eq_none hFind.symm]
      exact ⟨s, rfl, hRows, hEdges⟩
    | some position =>
      rw [hPosition] at hFind
      have hAt : s.ids.get position = id := by simpa using List.find?_some hPosition
      rw [Kennel.answer_known hFind.symm]
      refine ⟨_, rfl, ?_, hEdges⟩
      rw [rows_set s (hRows ▸ k.nodup_ids) hAt, hRows]
      rfl
  shows := by
    rintro s k ⟨hRows, hEdges⟩
    refine ⟨fun id => ?_, ?_, fun id other => ?_, fun id => ?_⟩
    · change s.get id = _
      rw [get_eq, hRows]
      rfl
    · change s.ages.Perm _
      rw [ages_eq, hRows]
    · change other ∈ sameBreed s id ↔ _
      have hFind : (s.positionOf id).map s.row = k.find id := by
        rw [positionOf_map_row, hRows]
        rfl
      unfold sameBreed
      split
      · next hNone =>
        rw [hNone] at hFind
        simpa using Kennel.not_breedmates hFind.symm other
      · next position hPosition =>
        rw [hPosition] at hFind
        rw [Kennel.breedmates_iff hFind.symm, ← hRows]
        simp only [rows, List.mem_map, List.mem_filter, Bool.and_eq_true, decide_eq_true_eq]
        constructor
        · rintro ⟨i, ⟨hMem, hNe, hBreed⟩, hId⟩
          exact ⟨s.row i, ⟨i, hMem, rfl⟩, hId, hNe, hBreed⟩
        · rintro ⟨_, ⟨i, hMem, rfl⟩, hId, hNe, hBreed⟩
          exact ⟨i, ⟨hMem, hNe, hBreed⟩, hId⟩
    · change neighborsOf s.edges id = _
      rw [hEdges]

end SoaStore

/-! ## Maps -/

namespace DogRecord

theorem lookup_byId (k : Kennel) (id : Uuid) : (byId k.dogs).lookup id = k.find id := by
  refine Option.ext fun dog => ?_
  rw [byId, MapPairs.lookup_fill (by simpa [Function.comp_def] using k.nodup_ids),
    Kennel.find_eq_some]
  simp [and_comm]

theorem lookup_byBreed (records : List DogRecord) (breed : String) :
    ((byBreed records).lookup breed).getD [] = (records.filter (·.breed = breed)).map (·.id) := by
  have hFrom (index : AList (fun _ : String => List Uuid)) :
      ((records.foldl (fun index r =>
        index.insert r.breed ((index.lookup r.breed).getD [] ++ [r.id])) index).lookup
        breed).getD [] = (index.lookup breed).getD [] ++
          (records.filter (·.breed = breed)).map (·.id) := by
    induction records generalizing index with
    | nil => simp
    | cons r records ih =>
      rw [List.foldl_cons, ih]
      by_cases hBreed : r.breed = breed
      · subst hBreed
        simp
      · rw [AList.lookup_insert_ne (Ne.symm hBreed)]
        simp [hBreed]
  exact (hFrom ∅).trans (by simp)

theorem lookup_adjacency {edges : List (Uuid × Uuid)} (hEdges : ∀ e ∈ edges, e.1 ≠ e.2)
    (id : Uuid) :
    ((adjacency edges).lookup id).getD [] = neighborsOf edges id := by
  have hFrom (index : AList (fun _ : Uuid => List Uuid)) :
      ((edges.foldl (fun index e =>
        let index := index.insert e.1 ((index.lookup e.1).getD [] ++ [e.2])
        index.insert e.2 ((index.lookup e.2).getD [] ++ [e.1])) index).lookup id).getD [] =
        (index.lookup id).getD [] ++ neighborsOf edges id := by
    induction edges generalizing index with
    | nil => simp [neighborsOf]
    | cons e edges ih =>
      obtain ⟨a, b⟩ := e
      obtain ⟨hNe, hRest⟩ := List.forall_mem_cons.mp hEdges
      rw [List.foldl_cons, ih hRest]
      dsimp only at hNe ⊢
      by_cases hLeft : a = id
      · subst hLeft
        rw [AList.lookup_insert_ne hNe, AList.lookup_insert]
        simp [neighborsOf]
      · by_cases hRight : b = id
        · subst hRight
          rw [AList.lookup_insert, AList.lookup_insert_ne (Ne.symm hLeft)]
          simp [neighborsOf, hLeft]
        · rw [AList.lookup_insert_ne (Ne.symm hRight), AList.lookup_insert_ne (Ne.symm hLeft)]
          simp [neighborsOf, hLeft, hRight]
  exact (hFrom ∅).trans (by simp)

end DogRecord

namespace CanonicalStore

/-- The maps of a kennel. -/
structure Rep (s : CanonicalStore) (k : Kennel) : Prop where
  records : ∀ id, s.records.lookup id = k.find id
  breeds : ∀ breed, (s.breedIndex.lookup breed).getD [] =
    (k.dogs.filter (·.breed = breed)).map (·.id)
  neighbors : ∀ id, (s.adjacencyIndex.lookup id).getD [] = neighborsOf k.edges id

theorem rep_new (k : Kennel) : Rep (new k.dogs k.edges) k where
  records := DogRecord.lookup_byId k
  breeds := DogRecord.lookup_byBreed k.dogs
  neighbors := DogRecord.lookup_adjacency k.distinct_ends

variable {s : CanonicalStore} {k : Kennel}

/-- An age that is written to the record changes neither index. -/
theorem Rep.setAge (h : Rep s k) {id : Uuid} {dog : DogRecord} (hDog : k.find id = some dog)
    (age : UInt32) :
    Rep { s with records := s.records.insert id { dog with age := age } } (k.setAge id age) where
  records other := by
    rw [Kennel.find_setAge]
    by_cases hSame : other = id
    · subst hSame
      have hId := (Kennel.find_eq_some.mp hDog).2
      rw [AList.lookup_insert, hDog, Option.map_some, Kennel.aged, if_pos hId]
    · rw [AList.lookup_insert_ne hSame, h.records]
      cases hFind : k.find other with
      | none => rfl
      | some o =>
        have hId := (Kennel.find_eq_some.mp hFind).2
        rw [Option.map_some, Kennel.aged, if_neg (hId ▸ hSame)]
  breeds breed := by
    rw [h.breeds, Kennel.setAge]
    simp [List.filter_map, Function.comp_def]
  neighbors := h.neighbors

theorem Rep.mem_sameBreed (h : Rep s k) (id other : Uuid) :
    other ∈ s.sameBreed id ↔ k.Breedmates id other := by
  unfold sameBreed
  rw [h.records]
  cases hFind : k.find id with
  | none => simpa using Kennel.not_breedmates hFind other
  | some dog =>
    rw [Kennel.breedmates_iff hFind]
    dsimp only
    rw [h.breeds]
    simp only [List.mem_filter, List.mem_map, decide_eq_true_eq]
    constructor
    · rintro ⟨⟨o, ⟨hMem, hBreed⟩, rfl⟩, hNe⟩
      exact ⟨o, hMem, rfl, hNe, hBreed⟩
    · rintro ⟨o, hMem, rfl, hNe, hBreed⟩
      exact ⟨⟨o, ⟨hMem, hBreed⟩, rfl⟩, hNe⟩

/-- The map holds the dogs, in an order of its own. -/
theorem Rep.perm_values (h : Rep s k) : ((MapPairs.pairs s.records).map (·.2)).Perm k.dogs := by
  have hPairs (id : Uuid) (dog : DogRecord) :
      (id, dog) ∈ MapPairs.pairs s.records ↔ dog ∈ k.dogs ∧ dog.id = id := by
    rw [MapPairs.mem_pairs, h.records, Kennel.find_eq_some]
  have hNodup : ((MapPairs.pairs s.records).map (·.2)).Nodup := by
    refine List.Nodup.map_on ?_ (List.Nodup.of_map _ (MapPairs.nodup_keys_pairs s.records))
    rintro ⟨a, dog⟩ hA ⟨b, other⟩ hB rfl
    rw [← ((hPairs a dog).mp hA).2, ← ((hPairs b dog).mp hB).2]
  refine (List.perm_ext_iff_of_nodup hNodup (List.Nodup.of_map _ k.nodup_ids)).mpr fun dog => ?_
  constructor
  · intro hMem
    obtain ⟨⟨id, _⟩, hPair, rfl⟩ := List.mem_map.mp hMem
    exact ((hPairs id _).mp hPair).1
  · intro hMem
    exact List.mem_map.mpr ⟨(dog.id, dog), (hPairs dog.id dog).mpr ⟨hMem, rfl⟩, rfl⟩

theorem implements : Implements store Rep where
  new := rep_new
  update := by
    intro s k h id age
    change ∃ s', updateAge id age s = _ ∧ _
    unfold updateAge
    rw [h.records]
    cases hFind : k.find id with
    | none =>
      rw [Kennel.answer_unknown hFind, k.setAge_of_find_eq_none hFind]
      exact ⟨s, rfl, h⟩
    | some dog =>
      rw [Kennel.answer_known hFind]
      exact ⟨_, rfl, h.setAge hFind age⟩
  shows := by
    intro s k h
    refine ⟨h.records, ?_, h.mem_sameBreed, h.neighbors⟩
    change ((MapPairs.pairs s.records).map (·.2.age)).Perm _
    simpa [Function.comp_def] using h.perm_values.map (·.age)

end CanonicalStore

/-! ## Maps and a column -/

namespace CanonicalCachedStore

/-- The maps of a kennel, and the column of its ages in the order of the dogs. -/
structure Rep (s : CanonicalCachedStore) (k : Kennel) : Prop where
  maps : CanonicalStore.Rep s.toCanonicalStore k
  ages : s.ageCache = k.dogs.map (·.age)
  positions : ∀ id i, s.positionIndex.lookup id = some i ↔ (k.dogs.map (·.id))[i]? = some id

theorem rep_new (k : Kennel) : Rep (new k.dogs k.edges) k where
  maps := CanonicalStore.rep_new k
  ages := rfl
  positions id i := by
    have hKeys : ((k.dogs.zipIdx.map fun p => (p.1.id, p.2)).map Prod.fst) = k.dogs.map (·.id) := by
      rw [List.map_map]
      refine List.ext_getElem (by simp) fun j _ _ => ?_
      simp
    change (MapPairs.fill _).lookup id = some i ↔ _
    rw [MapPairs.lookup_fill (hKeys ▸ k.nodup_ids)]
    simp only [List.mem_map, Prod.exists, List.mk_mem_zipIdx_iff_getElem?, Prod.mk.injEq,
      List.getElem?_map, Option.map_eq_some_iff]
    constructor
    · rintro ⟨dog, _, hAt, hId, rfl⟩
      exact ⟨dog, hAt, hId⟩
    · rintro ⟨dog, hAt, hId⟩
      exact ⟨dog, i, hAt, hId, rfl⟩

/-- The place of a dog in the column is where its age is written. -/
theorem ages_set (k : Kennel) {id : Uuid} {i : Nat} (hAt : (k.dogs.map (·.id))[i]? = some id)
    (age : UInt32) :
    (k.dogs.map (·.age)).set i age = (k.setAge id age).dogs.map (·.age) := by
  refine List.ext_getElem (by simp [Kennel.setAge]) fun j hj _ => ?_
  have hj : j < (k.dogs.map (·.id)).length := by simpa using hj
  obtain ⟨hi, hId⟩ := List.getElem?_eq_some_iff.mp hAt
  have hPlace : i = j ↔ (k.dogs.map (·.id))[j] = id := by
    rw [← hId, k.nodup_ids.getElem_inj_iff, eq_comm]
  rw [List.getElem_map] at hPlace
  simp only [List.getElem_set, hPlace, Kennel.setAge, List.getElem_map, Kennel.aged]
  split <;> rfl

theorem implements : Implements store Rep where
  new := rep_new
  update := by
    intro s k h id age
    change ∃ s', updateAge id age s = _ ∧ _
    unfold updateAge
    rw [h.maps.records]
    cases hFind : k.find id with
    | none =>
      rw [Kennel.answer_unknown hFind, k.setAge_of_find_eq_none hFind]
      exact ⟨s, rfl, h⟩
    | some dog =>
      obtain ⟨hMem, hId⟩ := Kennel.find_eq_some.mp hFind
      obtain ⟨i, hi, hAt⟩ := List.getElem_of_mem hMem
      have hPlace : (k.dogs.map (·.id))[i]? = some id := by simp [hi, hAt, hId]
      have hLength : i < s.ageCache.length := by simpa [h.ages] using hi
      rw [Kennel.answer_known hFind]
      dsimp only
      rw [(h.positions id i).mpr hPlace]
      refine ⟨_, if_pos hLength, h.maps.setAge hFind age, ?_, fun other j => ?_⟩
      · rw [h.ages, ages_set k hPlace]
      · rw [h.positions]
        simp [Kennel.setAge, Function.comp_def]
  shows := by
    intro s k h
    refine ⟨h.maps.records, ?_, h.maps.mem_sameBreed, h.maps.neighbors⟩
    change s.ageCache.Perm _
    rw [h.ages]

end CanonicalCachedStore

/-! ## Agreement -/

/-- What two stores show alike. -/
structure ShowAlike {σ τ : Type} (D : DogStore σ) (s : σ) (E : DogStore τ) (t : τ) : Prop where
  get : ∀ id, D.get s id = E.get t id
  scanAges : (D.scanAges s).Perm (E.scanAges t)
  sameBreed : ∀ id other, other ∈ D.sameBreed s id ↔ other ∈ E.sameBreed t id
  neighbors : ∀ id, D.neighbors s id = E.neighbors t id

theorem Shows.showAlike {σ τ : Type} {D : DogStore σ} {s : σ} {E : DogStore τ} {t : τ} {k : Kennel}
    (h : Shows D s k) (h' : Shows E t k) : ShowAlike D s E t where
  get id := (h.get id).trans (h'.get id).symm
  scanAges := h.scanAges.trans h'.scanAges.symm
  sameBreed id other := (h.sameBreed id other).trans (h'.sameBreed id other).symm
  neighbors id := (h.neighbors id).trans (h'.neighbors id).symm

theorem DogLayout.implements (l : DogLayout) : ∃ Rep, Implements l.store Rep := by
  cases l with
  | aos => exact ⟨_, AosStore.implements⟩
  | soa => exact ⟨_, SoaStore.implements⟩
  | canonical => exact ⟨_, CanonicalStore.implements⟩
  | canonicalCached => exact ⟨_, CanonicalCachedStore.implements⟩

/-- **The layouts are interchangeable.** Two stores of the same dogs and edges, in any two layouts,
answer every update alike and without a panic, and afterwards they show the same. -/
theorem layouts_agree {records : List DogRecord} (hIds : (records.map (·.id)).Nodup)
    {edges : List (Uuid × Uuid)} (hEdges : ∀ e ∈ edges, e.1 ≠ e.2) (updates : List (Uuid × UInt32))
    (l l' : DogLayout) :
    ∃ answers s t, l.store.run updates (l.store.new records edges) = some (answers, s) ∧
      l'.store.run updates (l'.store.new records edges) = some (answers, t) ∧
      ShowAlike l.store s l'.store t := by
  obtain ⟨Rep, hRep⟩ := l.implements
  obtain ⟨Rep', hRep'⟩ := l'.implements
  let k : Kennel := ⟨records, edges, hIds, hEdges⟩
  obtain ⟨s, hRun, hEnd⟩ := hRep.run updates (hRep.new k)
  obtain ⟨t, hRun', hEnd'⟩ := hRep'.run updates (hRep'.new k)
  exact ⟨(k.run updates).1, s, t, hRun, hRun', (hRep.shows hEnd).showAlike (hRep'.shows hEnd')⟩

/-- Two dogs, of which the one that is known grows older. -/
theorem layouts_agree_sample :
    ∃ answers s t,
      DogLayout.soa.store.run [(Uuid.ofNat 1, 4), (Uuid.ofNat 9, 5)] (DogLayout.soa.store.new
        [⟨Uuid.ofNat 1, "lab", 3⟩, ⟨Uuid.ofNat 2, "lab", 7⟩] [(Uuid.ofNat 1, Uuid.ofNat 2)]) =
          some (answers, s) ∧
      DogLayout.canonicalCached.store.run [(Uuid.ofNat 1, 4), (Uuid.ofNat 9, 5)]
        (DogLayout.canonicalCached.store.new
        [⟨Uuid.ofNat 1, "lab", 3⟩, ⟨Uuid.ofNat 2, "lab", 7⟩] [(Uuid.ofNat 1, Uuid.ofNat 2)]) =
          some (answers, t) ∧
      ShowAlike DogLayout.soa.store s DogLayout.canonicalCached.store t :=
  layouts_agree (by decide +kernel) (by decide +kernel) [(Uuid.ofNat 1, 4), (Uuid.ofNat 9, 5)] .soa
    .canonicalCached

end MultimodalDb
