import MultimodalDb.Durability.CanonicalCached

/-!
# Layouts

Four stores behind one trait. `AosStore` keeps the records in rows and `SoaStore` in columns. Both
look for a record from the first, and for a neighbor along the edges. `CanonicalStore` keeps maps,
and `CanonicalCachedStore` a column of the ages beside them.
-/

namespace MultimodalDb

/-- The trait of the layouts. An update without an answer panics. -/
structure DogStore (σ : Type) where
  new : List DogRecord → List (Uuid × Uuid) → σ
  get : σ → Uuid → Option DogRecord
  scanAges : σ → List UInt32
  updateAge : Uuid → UInt32 → σ → Option (Except StoreError Unit × σ)
  sameBreed : σ → Uuid → List Uuid
  neighbors : σ → Uuid → List Uuid

/-- The other end of each edge of an id. -/
def neighborsOf (edges : List (Uuid × Uuid)) (id : Uuid) : List Uuid :=
  edges.filterMap fun (a, b) => if a = id then some b else if b = id then some a else none

/-! ## Rows -/

structure AosStore where
  records : List DogRecord
  edges : List (Uuid × Uuid)

namespace AosStore

/-- The first record with the id is given the age, if there is one. -/
def setAge (id : Uuid) (age : UInt32) : List DogRecord → Option (List DogRecord)
  | [] => none
  | r :: records =>
    if r.id = id then some ({ r with age := age } :: records)
      else (setAge id age records).map (r :: ·)

def updateAge (id : Uuid) (age : UInt32) (s : AosStore) :
    Option (Except StoreError Unit × AosStore) :=
  match setAge id age s.records with
  | none => some (.error (.notFound id), s)
  | some records => some (.ok (), { s with records := records })

def get (s : AosStore) (id : Uuid) : Option DogRecord := s.records.find? (·.id = id)

def sameBreed (s : AosStore) (id : Uuid) : List Uuid :=
  match s.records.find? (·.id = id) with
  | none => []
  | some target => (s.records.filter fun r => r.id ≠ id && r.breed = target.breed).map (·.id)

def store : DogStore AosStore where
  new records edges := ⟨records, edges⟩
  get := get
  scanAges s := s.records.map (·.age)
  updateAge := updateAge
  sameBreed := sameBreed
  neighbors s id := neighborsOf s.edges id

end AosStore

/-! ## Columns -/

structure SoaStore where
  ids : List Uuid
  breeds : List String
  ages : List UInt32
  edges : List (Uuid × Uuid)
  breeds_length : breeds.length = ids.length
  ages_length : ages.length = ids.length

namespace SoaStore

def new (records : List DogRecord) (edges : List (Uuid × Uuid)) : SoaStore where
  ids := records.map (·.id)
  breeds := records.map (·.breed)
  ages := records.map (·.age)
  edges := edges
  breeds_length := by simp only [List.length_map]
  ages_length := by simp only [List.length_map]

def breed (s : SoaStore) (i : Fin s.ids.length) : String :=
  s.breeds.get (i.cast s.breeds_length.symm)

def age (s : SoaStore) (i : Fin s.ids.length) : UInt32 := s.ages.get (i.cast s.ages_length.symm)

def positionOf (s : SoaStore) (id : Uuid) : Option (Fin s.ids.length) :=
  (List.finRange s.ids.length).find? fun i => s.ids.get i = id

def get (s : SoaStore) (id : Uuid) : Option DogRecord := do
  let position ← s.positionOf id
  return ⟨s.ids.get position, s.breed position, s.age position⟩

def updateAge (id : Uuid) (age : UInt32) (s : SoaStore) :
    Option (Except StoreError Unit × SoaStore) :=
  match s.positionOf id with
  | none => some (.error (.notFound id), s)
  | some position => some (.ok (), {
      s with
      ages := s.ages.set position age
      ages_length := s.ages.length_set.trans s.ages_length })

def sameBreed (s : SoaStore) (id : Uuid) : List Uuid :=
  match s.positionOf id with
  | none => []
  | some position =>
    ((List.finRange s.ids.length).filter fun i =>
      s.ids.get i ≠ id && s.breed i = s.breed position).map s.ids.get

def store : DogStore SoaStore where
  new := new
  get := get
  scanAges s := s.ages
  updateAge := updateAge
  sameBreed := sameBreed
  neighbors s id := neighborsOf s.edges id

end SoaStore

/-! ## Maps -/

structure CanonicalStore where
  records : AList (fun _ : Uuid => DogRecord)
  breedIndex : AList (fun _ : String => List Uuid)
  adjacencyIndex : AList (fun _ : Uuid => List Uuid)

namespace CanonicalStore

def new (records : List DogRecord) (edges : List (Uuid × Uuid)) : CanonicalStore where
  records := DogRecord.byId records
  breedIndex := DogRecord.byBreed records
  adjacencyIndex := DogRecord.adjacency edges

def updateAge (id : Uuid) (age : UInt32) (s : CanonicalStore) :
    Option (Except StoreError Unit × CanonicalStore) :=
  match s.records.lookup id with
  | none => some (.error (.notFound id), s)
  | some record =>
    some (.ok (), { s with records := s.records.insert id { record with age := age } })

/-- The ids of a breed, without the one that is asked about. -/
def sameBreed (s : CanonicalStore) (id : Uuid) : List Uuid :=
  match s.records.lookup id with
  | none => []
  | some target => ((s.breedIndex.lookup target.breed).getD []).filter (· ≠ id)

def store : DogStore CanonicalStore where
  new := new
  get s id := s.records.lookup id
  scanAges s := (MapPairs.pairs s.records).map (·.2.age)
  updateAge := updateAge
  sameBreed := sameBreed
  neighbors s id := (s.adjacencyIndex.lookup id).getD []

end CanonicalStore

/-! ## Maps and a column -/

structure CanonicalCachedStore extends CanonicalStore where
  ageCache : List UInt32
  positionIndex : AList (fun _ : Uuid => Nat)

namespace CanonicalCachedStore

def new (records : List DogRecord) (edges : List (Uuid × Uuid)) : CanonicalCachedStore where
  toCanonicalStore := CanonicalStore.new records edges
  ageCache := records.map (·.age)
  positionIndex := MapPairs.fill (records.zipIdx.map fun p => (p.1.id, p.2))

/-- The record is written first. An id without a place in the column panics, and so does a place
outside it. -/
def updateAge (id : Uuid) (age : UInt32) (s : CanonicalCachedStore) :
    Option (Except StoreError Unit × CanonicalCachedStore) :=
  match s.records.lookup id with
  | none => some (.error (.notFound id), s)
  | some record => do
    let position ← s.positionIndex.lookup id
    if position < s.ageCache.length then
      some (.ok (), { s with
        records := s.records.insert id { record with age := age }
        ageCache := s.ageCache.set position age })
    else
      none

def store : DogStore CanonicalCachedStore where
  new := new
  get s id := s.records.lookup id
  scanAges s := s.ageCache
  updateAge := updateAge
  sameBreed s := s.toCanonicalStore.sameBreed
  neighbors s id := (s.adjacencyIndex.lookup id).getD []

end CanonicalCachedStore

/-! ## Runs -/

inductive DogLayout where
  | aos
  | soa
  | canonical
  | canonicalCached
  deriving DecidableEq

namespace DogLayout

def State : DogLayout → Type
  | aos => AosStore
  | soa => SoaStore
  | canonical => CanonicalStore
  | canonicalCached => CanonicalCachedStore

def store : (l : DogLayout) → DogStore l.State
  | aos => AosStore.store
  | soa => SoaStore.store
  | canonical => CanonicalStore.store
  | canonicalCached => CanonicalCachedStore.store

end DogLayout

/-- The updates in order, with what each was answered. -/
def DogStore.run {σ : Type} (D : DogStore σ) :
    List (Uuid × UInt32) → σ → Option (List (Except StoreError Unit) × σ)
  | [], s => some ([], s)
  | (id, age) :: updates, s => do
    let (answer, s) ← D.updateAge id age s
    let (answers, s) ← D.run updates s
    return (answer :: answers, s)

end MultimodalDb
