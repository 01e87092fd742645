import MultimodalDb.Durability.RecordBlob
import MultimodalDb.Lib.MapPairs

/-!
# The state the durability variants share

The dogs by id, the ids of each breed, the littermates of each dog, and the ages in a column with
the position of each dog in it. Building it and writing an age are all that ever changes it. Every
variant keeps one in memory and differs in what it puts on disk.

A state is written whole (`encodeState`) and is read back as it was (`decodeState_encodeState`).
-/

namespace MultimodalDb

open MapPairs

structure DogRecord where
  id : Uuid
  breed : String
  age : UInt32
  deriving DecidableEq

namespace DogRecord

instance : Serde DogRecord :=
  Codec.refine (fun r => (r.id, r.breed, r.age)) (fun p => some ⟨p.1, p.2.1, p.2.2⟩) (by
    rintro ⟨id, breed, age⟩ ⟨id', breed', age'⟩
    simp [eq_comm])

/-- The records by id. Of two with one id the later counts. -/
def byId (records : List DogRecord) : AList (fun _ : Uuid => DogRecord) :=
  fill (records.map fun r => (r.id, r))

/-- Both ends of every edge by the other. -/
def adjacency (edges : List (Uuid × Uuid)) : AList (fun _ : Uuid => List Uuid) :=
  edges.foldl (fun index (a, b) =>
    let index := index.insert a ((index.lookup a).getD [] ++ [b])
    index.insert b ((index.lookup b).getD [] ++ [a])) ∅

/-- The ids of each breed. -/
def byBreed (records : List DogRecord) : AList (fun _ : String => List Uuid) :=
  records.foldl (fun index r => index.insert r.breed ((index.lookup r.breed).getD [] ++ [r.id])) ∅

end DogRecord

structure CanonicalCachedState where
  records : AList (fun _ : Uuid => DogRecord)
  breedIndex : AList (fun _ : String => List Uuid)
  adjacencyIndex : AList (fun _ : Uuid => List Uuid)
  ageCache : List UInt32
  positionIndex : AList (fun _ : Uuid => Nat)
  deriving DecidableEq

namespace CanonicalCachedState

/-- Build the state. A large set is built by two threads, to the same end. -/
def new (records : List DogRecord) (edges : List (Uuid × Uuid)) : CanonicalCachedState where
  records := DogRecord.byId records
  breedIndex := DogRecord.byBreed records
  adjacencyIndex := DogRecord.adjacency edges
  ageCache := records.map (·.age)
  positionIndex := fill (records.zipIdx.map fun p => (p.1.id, p.2))

def get (s : CanonicalCachedState) (id : Uuid) : Option DogRecord := s.records.lookup id

def scanAges (s : CanonicalCachedState) : List UInt32 := s.ageCache

def updateAge (id : Uuid) (age : UInt32) : Method CanonicalCachedState StoreError Unit := do
  let s ← Method.self
  match s.records.lookup id with
  | none => Method.fail (.notFound id)
  | some record =>
    Method.modifySelf fun s => { s with records := s.records.insert id { record with age := age } }
    match s.positionIndex.lookup id with
    | none => Method.fail (.notFound id)
    | some position =>
      if position < s.ageCache.length then
        Method.modifySelf fun s => { s with ageCache := s.ageCache.set position age }
      else
        Method.panic

def sameBreed (s : CanonicalCachedState) (id : Uuid) : List Uuid :=
  match s.records.lookup id with
  | none => []
  | some target => ((s.breedIndex.lookup target.breed).getD []).filter (· ≠ id)

def neighbors (s : CanonicalCachedState) (id : Uuid) : List Uuid :=
  (s.adjacencyIndex.lookup id).getD []

/-! ## On disk -/

/-- A state on disk, field after field, each map as its pairs. -/
abbrev Written : Type :=
  List (Uuid × DogRecord) × List (String × List Uuid) × List (Uuid × List Uuid) × List UInt32 ×
    List (Uuid × Nat)

def written (s : CanonicalCachedState) : Written :=
  ((MapPairs.pairs s.records).reverse, (MapPairs.pairs s.breedIndex).reverse,
    (MapPairs.pairs s.adjacencyIndex).reverse, s.ageCache, (MapPairs.pairs s.positionIndex).reverse)

def ofWritten (w : Written) : CanonicalCachedState where
  records := fill w.1
  breedIndex := fill w.2.1
  adjacencyIndex := fill w.2.2.1
  ageCache := w.2.2.2.1
  positionIndex := fill w.2.2.2.2

@[simp] theorem ofWritten_written (s : CanonicalCachedState) : ofWritten (written s) = s := by
  simp only [ofWritten, written, fill_reverse]

def encodeState (s : CanonicalCachedState) : Option Bytes := Codec.encode (written s)

def decodeState (bytes : Bytes) : Option CanonicalCachedState := (Codec.decode bytes).map ofWritten

theorem decodeState_encodeState {s : CanonicalCachedState} {bytes : Bytes}
    (h : encodeState s = some bytes) :
    decodeState bytes = some s := by
  rw [decodeState, Codec.decode_eq_some.mpr h, Option.map_some, ofWritten_written]

/-! ## Writing ages -/

/-- Every record has its place in the column of ages, and nothing else has one. -/
structure Placed (s : CanonicalCachedState) : Prop where
  positions : ∀ id, id ∈ s.positionIndex ↔ id ∈ s.records
  bound : ∀ id position, s.positionIndex.lookup id = some position → position < s.ageCache.length

/-- The state after an age is written: the record has it, and so has its place in the column. -/
def withAge (s : CanonicalCachedState) (id : Uuid) (age : UInt32) : CanonicalCachedState :=
  match s.records.lookup id, s.positionIndex.lookup id with
  | some record, some position =>
    { s with records := s.records.insert id { record with
      age := age }, ageCache := s.ageCache.set position age }
  | _, _ => s

/-- The state after the ages of a list are written in order. -/
def withAges (s : CanonicalCachedState) (ages : List (Uuid × UInt32)) : CanonicalCachedState :=
  ages.foldl (fun s a => s.withAge a.1 a.2) s

@[simp] theorem withAges_nil (s : CanonicalCachedState) : s.withAges [] = s := rfl

@[simp] theorem withAges_append (s : CanonicalCachedState) (ages more : List (Uuid × UInt32)) :
    s.withAges (ages ++ more) = (s.withAges ages).withAges more :=
  List.foldl_append

theorem mem_records_withAge (s : CanonicalCachedState) (id : Uuid) (age : UInt32) (other : Uuid) :
    other ∈ (s.withAge id age).records ↔ other ∈ s.records := by
  unfold withAge
  split
  · next record position hRecord hPosition =>
    have hKnown : id ∈ s.records := AList.lookup_isSome.mp (by rw [hRecord]; rfl)
    rw [AList.mem_insert, or_iff_right_iff_imp]
    rintro rfl
    exact hKnown
  · exact Iff.rfl

theorem mem_records_withAges (s : CanonicalCachedState) (ages : List (Uuid × UInt32))
    (other : Uuid) :
    other ∈ (s.withAges ages).records ↔ other ∈ s.records := by
  induction ages generalizing s with
  | nil => exact Iff.rfl
  | cons a ages ih => exact (ih _).trans (mem_records_withAge s a.1 a.2 other)

namespace Placed

variable {s : CanonicalCachedState}

theorem withAge (h : Placed s) (id : Uuid) (age : UInt32) : Placed (s.withAge id age) := by
  refine ⟨fun other => ?_, fun other position hPosition => ?_⟩
  · rw [mem_records_withAge, ← h.positions]
    unfold CanonicalCachedState.withAge
    split <;> exact Iff.rfl
  · unfold CanonicalCachedState.withAge at hPosition ⊢
    split at hPosition
    · rw [List.length_set]
      exact h.bound other position hPosition
    · exact h.bound other position hPosition

theorem withAges (h : Placed s) (ages : List (Uuid × UInt32)) : Placed (s.withAges ages) := by
  induction ages generalizing s with
  | nil => exact h
  | cons a ages ih => exact ih (h.withAge a.1 a.2)

end Placed

section Rules

variable {s : CanonicalCachedState} {d : Disk} {id : Uuid} {age : UInt32}
variable {A C : Stop StoreError → CanonicalCachedState → Disk → Prop}

/-- A known id is given the age, and an unknown one is refused before anything changed. -/
theorem wp_updateAge {Q : Unit → CanonicalCachedState → Disk → Prop} (h : Placed s)
    (hKnown : id ∈ s.records → Q () (s.withAge id age) d)
    (hUnknown : id ∉ s.records → A (.error (.notFound id)) s d) :
    Method.wp (updateAge id age) s d Q A C := by
  refine Method.wp_bind (Method.wp_self ?_)
  split
  · next hNone => exact Method.wp_fail (hUnknown (AList.lookup_eq_none.mp hNone))
  · next record hRecord =>
    have hMem : id ∈ s.records := AList.lookup_isSome.mp (by rw [hRecord]; rfl)
    refine Method.wp_bind (Method.wp_modifySelf ?_)
    obtain ⟨position, hPosition⟩ :=
      Option.isSome_iff_exists.mp (AList.lookup_isSome.mpr ((h.positions id).mpr hMem))
    have hAfter := hKnown hMem
    simp only [CanonicalCachedState.withAge, hRecord, hPosition] at hAfter
    rw [hPosition]
    dsimp only
    rw [if_pos (h.bound id position hPosition)]
    exact Method.wp_modifySelf hAfter

end Rules

/-! ## A new state -/

theorem mem_records_new {records : List DogRecord} (edges : List (Uuid × Uuid)) {id : Uuid} :
    id ∈ (new records edges).records ↔ ∃ r ∈ records, r.id = id := by
  change id ∈ fill _ ↔ _
  rw [mem_fill]
  simp

theorem placed_new (records : List DogRecord) (edges : List (Uuid × Uuid)) :
    Placed (new records edges) := by
  refine ⟨fun id => ?_, fun id position hPosition => ?_⟩
  · change id ∈ fill _ ↔ id ∈ fill _
    rw [mem_fill, mem_fill, List.map_map, List.map_map]
    have hSame : records.zipIdx.map (Prod.fst ∘ fun p => (p.1.id, p.2)) =
        records.map (Prod.fst ∘ fun r => (r.id, r)) := by
      conv_rhs => rw [← List.zipIdx_map_fst 0 records, List.map_map]
      rfl
    rw [hSame]
  · have hMem := mem_of_lookup_fill hPosition
    obtain ⟨⟨r, i⟩, hIn, hEq⟩ := List.mem_map.mp hMem
    simp only [Prod.mk.injEq] at hEq
    obtain ⟨-, rfl⟩ := hEq
    have hAt := List.mem_zipIdx' hIn
    simpa [new] using hAt.1

/-- An age that is written is read back, and no other record changes. -/
theorem get_withAge {s : CanonicalCachedState} (h : Placed s) (id : Uuid) (age : UInt32)
    (other : Uuid) :
    (s.withAge id age).get other =
      if other = id then (s.get other).map (fun r => { r with age := age }) else s.get other := by
  unfold withAge get
  split
  · next record position hRecord hPosition =>
    split
    · next hEq => rw [hEq, AList.lookup_insert, hRecord, Option.map_some]
    · next hNe => rw [AList.lookup_insert_ne hNe]
  · next hNot =>
    split
    · next hEq =>
      cases hRecord : s.records.lookup id with
      | none => rw [hEq, hRecord, Option.map_none]
      | some record =>
        have hMem : id ∈ s.records := AList.lookup_isSome.mp (by rw [hRecord]; rfl)
        obtain ⟨position, hPosition⟩ :=
          Option.isSome_iff_exists.mp (AList.lookup_isSome.mpr ((h.positions id).mpr hMem))
        exact (hNot record position hRecord hPosition).elim
    · rfl

end CanonicalCachedState

end MultimodalDb
