import MultimodalDb.Durability.MmapAgeStore
import Mathlib.Data.List.Perm.Basic

/-!
# Rules for the dog store

A complete file gives each id one age, that of the last of its records with this id (`ageIn`).
`Over` is a store over such a file: the file is mapped, and the position of each id the store has is
where the file has it. What a store reads is told by the ages of the file, and every operation by
the ages it leaves.
-/

namespace MultimodalDb

open Bytes MapPairs

namespace MmapAgeStore

/-! ## The ages of a file -/

section Ages

variable {entries entries' : List (Uuid × UInt32)} {id : Uuid} {age : UInt32} {position : Nat}

/-- What opening reads from a file with these pairs. -/
def persistedOf (entries : List (Uuid × UInt32)) : AList (fun _ : Uuid => Nat × UInt32) :=
  fill (entries.zipIdx.map fun p => (p.1.1, p.2, p.1.2))

/-- Where a file has an id. -/
def placeIn (entries : List (Uuid × UInt32)) (id : Uuid) : Option Nat :=
  ((persistedOf entries).lookup id).map Prod.fst

/-- The age that it has there. -/
def ageIn (entries : List (Uuid × UInt32)) (id : Uuid) : Option UInt32 :=
  ((persistedOf entries).lookup id).map Prod.snd

theorem getElem?_of_lookup (h : (persistedOf entries).lookup id = some (position, age)) :
    entries[position]? = some (id, age) := by
  obtain ⟨⟨⟨id', age'⟩, i⟩, hMem, hEq⟩ := List.mem_map.mp (mem_of_lookup_fill h)
  simp only [Prod.mk.injEq] at hEq
  obtain ⟨rfl, rfl, rfl⟩ := hEq
  exact List.mem_zipIdx_iff_getElem?.mp hMem

theorem lookup_places (entries : List (Uuid × UInt32)) (id : Uuid) :
    (places entries).lookup id = placeIn entries id :=
  lookup_fill_map (fun p : (Uuid × UInt32) × Nat => p.1.1) (fun p => (p.2, p.1.2)) Prod.fst
    entries.zipIdx id

theorem ageIn_eq_lookup (entries : List (Uuid × UInt32)) (id : Uuid) :
    ageIn entries id = (fill entries).lookup id := by
  have hMap := lookup_fill_map (fun p : (Uuid × UInt32) × Nat => p.1.1) (fun p => (p.2, p.1.2))
    Prod.snd entries.zipIdx id
  have hPairs : (entries.zipIdx.map fun p => (p.1.1, (p.2, p.1.2).2)) = entries := by
    conv_rhs => rw [← List.zipIdx_map_fst 0 entries]
  rw [hPairs] at hMap
  exact hMap.symm

theorem isSome_placeIn : (placeIn entries id).isSome = (ageIn entries id).isSome := by
  rw [placeIn, ageIn, Option.isSome_map, Option.isSome_map]

/-- What a file has at the place of an id. -/
theorem getElem?_place (h : placeIn entries id = some position) :
    ∃ age, ageIn entries id = some age ∧ entries[position]? = some (id, age) := by
  obtain ⟨⟨p, age⟩, hAt, rfl⟩ := Option.map_eq_some_iff.mp h
  exact ⟨age, by rw [ageIn, hAt, Option.map_some], getElem?_of_lookup hAt⟩

/-- Where a file has an id is told by its ids. -/
theorem placeIn_congr (h : entries.map Prod.fst = entries'.map Prod.fst) (id : Uuid) :
    placeIn entries id = placeIn entries' id := by
  have hPlaces : ∀ list : List (Uuid × UInt32), (list.zipIdx.map fun p => (p.1.1, p.2)) =
      (list.map Prod.fst).zipIdx := by
    intro list
    rw [List.zipIdx_map]
    rfl
  rw [← lookup_places, ← lookup_places, places, places, hPlaces, hPlaces, h]

/-- The ages that records have of their own, or made from them. -/
theorem ageIn_map (records : List DogRecord) (f : DogRecord → UInt32) (id : Uuid) :
    ageIn (records.map fun r => (r.id, f r)) id = ((DogRecord.byId records).lookup id).map f :=
  (ageIn_eq_lookup _ _).trans (lookup_fill_map DogRecord.id (fun r => r) f records id)

theorem id_of_lookup_byId {records : List DogRecord} {r : DogRecord}
    (h : (DogRecord.byId records).lookup id = some r) :
    r ∈ records ∧ r.id = id := by
  obtain ⟨r', hMem, hEq⟩ := List.mem_map.mp (mem_of_lookup_fill h)
  obtain ⟨rfl, rfl⟩ := Prod.mk.inj hEq
  exact ⟨hMem, rfl⟩

theorem mem_byId {records : List DogRecord} :
    id ∈ DogRecord.byId records ↔ id ∈ records.map (·.id) := by
  rw [DogRecord.byId, mem_fill, List.map_map]
  rfl

end Ages

/-! ## A store over a file -/

/-- The store was built from this blob over a file with these pairs. -/
structure Over (blob : DogBlob) (entries : List (Uuid × UInt32)) (path : Path)
    (s : MmapAgeStore) : Prop where
  mmap : s.mmap = ⟨image entries, some path⟩
  records : s.records = DogRecord.byId blob.records
  breedIndex : s.breedIndex = DogRecord.byBreed blob.records
  adjacencyIndex : s.adjacencyIndex = DogRecord.adjacency blob.edges
  positions : ∀ id, s.positionIndex.lookup id = if id ∈ blob.records.map (·.id)
    then placeIn entries id else none

/-- A file that has every record of a blob. -/
def Covers (entries : List (Uuid × UInt32)) (blob : DogBlob) : Prop :=
  ∀ id ∈ blob.records.map (·.id), (ageIn entries id).isSome

section Reading

variable {blob : DogBlob} {entries : List (Uuid × UInt32)} {path : Path} {s : MmapAgeStore}
  {id : Uuid} {position : Nat}

theorem Over.recordCount (h : Over blob entries path s) : s.recordCount = .ok entries.length := by
  rw [MmapAgeStore.recordCount, h.mmap]
  exact recordCountFor_image entries

theorem length_image_eq (entries : List (Uuid × UInt32)) : (image entries).length =
    agesStart entries.length + entries.length * AGE_WIDTH + entries.length := by
  rw [length_image, RECORD_STRIDE, agesStart, idsStart]
  ring

theorem Over.readAge (h : Over blob entries path s) {e : Uuid × UInt32}
    (hAt : entries[position]? = some e) :
    s.readAge position = .ok e.2 := by
  have hBound := succ_mul_le AGE_WIDTH (List.getElem?_eq_some_iff.mp hAt).1
  have hLength := length_image_eq entries
  have hWindow : window s.mmap.bytes (agesStart entries.length + position * AGE_WIDTH) AGE_WIDTH =
      some (ofU32 e.2) := by
    rw [h.mmap, window_eq_some (by dsimp only; omega), ageAt_image hAt]
  rw [MmapAgeStore.readAge, h.recordCount]
  dsimp only [bind, Except.bind]
  rw [hWindow]
  exact congrArg Except.ok (toU32_ofU32 e.2)

/-- The age of an id that is known to be there. -/
def knownAge (entries : List (Uuid × UInt32)) (id : Uuid) : UInt32 := (ageIn entries id).getD 0

/-- A record is read at the age in the file, and no other id is read. -/
theorem Over.get (h : Over blob entries path s) (hCovers : Covers entries blob) (id : Uuid) :
    s.get id = .ok (((DogRecord.byId blob.records).lookup id).map fun r =>
      { r with age := knownAge entries id }) := by
  unfold MmapAgeStore.get
  rw [h.records]
  cases hRecord : (DogRecord.byId blob.records).lookup id with
  | none => rfl
  | some r =>
    obtain ⟨hMem, rfl⟩ := id_of_lookup_byId hRecord
    have hId : r.id ∈ blob.records.map (·.id) := List.mem_map.mpr ⟨r, hMem, rfl⟩
    obtain ⟨position, hPlace⟩ :=
      Option.isSome_iff_exists.mp (isSome_placeIn.trans (hCovers r.id hId))
    obtain ⟨age, hAge, hAt⟩ := getElem?_place hPlace
    rw [h.positions, if_pos hId, hPlace]
    dsimp only
    rw [h.readAge hAt, Option.map_some, knownAge, hAge]
    rfl

/-- The ages of the records as the file has them. -/
def agesOf (blob : DogBlob) (entries : List (Uuid × UInt32)) : List UInt32 :=
  (DogRecord.byId blob.records).keys.map (knownAge entries)

/-- The positions are those of the records, each once. -/
theorem Over.perm_positions (h : Over blob entries path s) (hCovers : Covers entries blob) :
    (MapPairs.pairs s.positionIndex).Perm
      ((DogRecord.byId blob.records).keys.map fun id => (id, (placeIn entries id).getD 0)) := by
  have hLeft : (MapPairs.pairs s.positionIndex).Nodup :=
    List.Nodup.of_map Prod.fst (MapPairs.nodup_keys_pairs s.positionIndex)
  have hRight :
      ((DogRecord.byId blob.records).keys.map fun id => (id, (placeIn entries id).getD 0)).Nodup :=
    (DogRecord.byId blob.records).nodupKeys.map fun _ _ hEq => (Prod.mk.inj hEq).1
  refine (List.perm_ext_iff_of_nodup hLeft hRight).mpr fun ⟨id, position⟩ => ?_
  rw [MapPairs.mem_pairs, List.mem_map, h.positions]
  constructor
  · intro hAt
    split at hAt
    · next hMem => exact ⟨id, AList.mem_keys.mp (mem_byId.mpr hMem), by rw [hAt, Option.getD_some]⟩
    · cases hAt
  · rintro ⟨id', hKey, hEq⟩
    obtain ⟨rfl, rfl⟩ := Prod.mk.inj hEq
    have hMem := mem_byId.mp (AList.mem_keys.mpr hKey)
    obtain ⟨position, hPlace⟩ :=
      Option.isSome_iff_exists.mp (isSome_placeIn.trans (hCovers id' hMem))
    rw [if_pos hMem, hPlace, Option.getD_some]

/-- The age at a position, where there is one. -/
def ageAt (entries : List (Uuid × UInt32)) (position : Nat) : UInt32 :=
  (entries[position]?.map Prod.snd).getD 0

theorem Over.perm_ages (h : Over blob entries path s) (hCovers : Covers entries blob) :
    (((MapPairs.pairs s.positionIndex).map (·.2)).map (ageAt entries)).Perm
      (agesOf blob entries) := by
  rw [List.map_map]
  refine ((h.perm_positions hCovers).map _).trans (List.Perm.of_eq ?_)
  rw [List.map_map, agesOf]
  refine List.map_congr_left fun id hKey => ?_
  obtain ⟨position, hPlace⟩ :=
    Option.isSome_iff_exists.mp
      (isSome_placeIn.trans (hCovers id (mem_byId.mp (AList.mem_keys.mpr hKey))))
  obtain ⟨age, hAge, hAt⟩ := getElem?_place hPlace
  simp only [Function.comp_apply, hPlace, Option.getD_some, ageAt, hAt, Option.map_some,
    knownAge, hAge]

/-- Every position is in the file, and no two ids have one position. -/
theorem Over.bound_positions (h : Over blob entries path s) :
    (∀ p ∈ (MapPairs.pairs s.positionIndex).map (·.2), p < entries.length) ∧
      ((MapPairs.pairs s.positionIndex).map (·.2)).Nodup := by
  have hAt : ∀ pair ∈ MapPairs.pairs s.positionIndex, ∃ age, entries[pair.2]? =
      some (pair.1, age) := by
    rintro ⟨id, position⟩ hPair
    have hLookup := MapPairs.mem_pairs.mp hPair
    rw [h.positions] at hLookup
    split at hLookup
    · obtain ⟨age, -, hHere⟩ := getElem?_place hLookup
      exact ⟨age, hHere⟩
    · cases hLookup
  refine ⟨fun p hp => ?_, List.Nodup.map_on ?_
    (List.Nodup.of_map Prod.fst (MapPairs.nodup_keys_pairs s.positionIndex))⟩
  · obtain ⟨pair, hPair, rfl⟩ := List.mem_map.mp hp
    obtain ⟨age, hHere⟩ := hAt pair hPair
    exact (List.getElem?_eq_some_iff.mp hHere).1
  · intro pair hPair pair' hPair' hEq
    obtain ⟨age, hHere⟩ := hAt pair hPair
    obtain ⟨age', hHere'⟩ := hAt pair' hPair'
    rw [hEq, hHere', Option.some.injEq] at hHere
    exact Prod.ext (congrArg Prod.fst hHere).symm hEq

/-- Position by position the ages are read. -/
theorem Over.walkAges (h : Over blob entries path s) (hCovers : Covers entries blob) :
    ∃ ages, s.walkAges = .ok ages ∧ ages.Perm (agesOf blob entries) := by
  have hRead : ∀ positions : List Nat, (∀ p ∈ positions, p < entries.length) →
      positions.mapM s.readAge = .ok (positions.map (ageAt entries)) := by
    intro positions hAll
    induction positions with
    | nil => rfl
    | cons p positions ih =>
      have hLt := hAll p List.mem_cons_self
      have hAt : entries[p]? = some entries[p] := List.getElem?_eq_getElem hLt
      have hAge : ageAt entries p = entries[p].2 := by
        rw [ageAt, hAt, Option.map_some, Option.getD_some]
      rw [List.mapM_cons, h.readAge hAt, ih fun q hq => hAll q (List.mem_cons_of_mem p hq),
        List.map_cons, hAge]
      rfl
  have hSorted := List.perm_insertionSort (· ≤ ·) ((MapPairs.pairs s.positionIndex).map (·.2))
  refine ⟨_, hRead _ fun p hp => h.bound_positions.1 p (hSorted.mem_iff.mp hp), ?_⟩
  exact (hSorted.map (ageAt entries)).trans (h.perm_ages hCovers)

theorem slice_ageColumn (ids ages markers : List Cell) :
    Bytes.slice (columns ids ages markers) (agesStart ids.length) (ages.length * AGE_WIDTH) =
      Column.flat ageCell ages := by
  have hIds := Column.length_flat length_idCell ids
  have hAges := Column.length_flat length_ageCell ages
  have hStart := agesStart_sub ids.length 0
  have hFrom : agesStart ids.length = HEADER_LEN + ids.length * ID_WIDTH := rfl
  rw [Nat.add_zero] at hStart
  rw [columns, slice_append_right _ _ (by rw [length_headerBytes]; omega), length_headerBytes,
    slice_append_right _ _ (by omega), hIds, hStart, slice_append_left _ (by omega), ← hAges,
      slice_zero_length]

/-- The age column at once. -/
theorem Over.bulkAges (h : Over blob entries path s) : s.bulkAges = .ok (entries.map Prod.snd) := by
  have hLength := length_image_eq entries
  have hColumn := slice_ageColumn (entries.map some) (entries.map some) (entries.map some)
  rw [List.length_map] at hColumn
  have hWindow : window s.mmap.bytes (agesStart entries.length) (entries.length * AGE_WIDTH) =
      some (Column.flat ageCell (entries.map some)) := by
    rw [h.mmap, window_eq_some (by dsimp only; omega), image, hColumn]
  have hChunks := Column.chunksExact_flat (by decide) length_ageCell (entries.map some)
    (show ([] : Bytes).length < AGE_WIDTH by decide)
  rw [List.append_nil] at hChunks
  rw [MmapAgeStore.bulkAges, h.recordCount]
  dsimp only [bind, Except.bind]
  rw [hWindow]
  dsimp only
  rw [hChunks, List.map_map, List.map_map]
  exact congrArg Except.ok (List.map_congr_left fun e _ => toU32_ofU32 e.2)

theorem Over.isGapless (h : Over blob entries path s) :
    s.isGapless = .ok (decide (s.positionIndex.entries.length = entries.length)) := by
  rw [MmapAgeStore.isGapless, h.recordCount]
  rfl

/-- Where the positions are as many as the records of the file, it is the ages of the records. -/
theorem Over.perm_bulkAges (h : Over blob entries path s) (hCovers : Covers entries blob)
    (hCount : s.positionIndex.entries.length = entries.length) :
    (entries.map Prod.snd).Perm (agesOf blob entries) := by
  obtain ⟨hBound, hNodup⟩ := h.bound_positions
  have hLength : ((MapPairs.pairs s.positionIndex).map (·.2)).length =
      (List.range entries.length).length := by
    rw [List.length_map, MapPairs.pairs, List.length_map, hCount, List.length_range]
  have hRange : ((MapPairs.pairs s.positionIndex).map (·.2)).Perm (List.range entries.length) :=
    (List.subperm_of_subset hNodup fun p hp => List.mem_range.mpr (hBound p hp)).perm_of_length_le
      hLength.ge
  have hAges : entries.map Prod.snd = (List.range entries.length).map (ageAt entries) := by
    refine List.ext_getElem (by simp) fun i hi hi' => ?_
    have hLt : i < entries.length := by simpa using hi
    rw [List.getElem_map, List.getElem_map, List.getElem_range, ageAt, List.getElem?_eq_getElem hLt,
      Option.map_some, Option.getD_some]
  rw [hAges]
  exact (hRange.symm.map _).trans (h.perm_ages hCovers)

theorem Over.scanAges (h : Over blob entries path s) (hCovers : Covers entries blob) :
    ∃ ages, s.scanAges = .ok ages ∧ ages.Perm (agesOf blob entries) := by
  have hGapless := h.isGapless
  unfold MmapAgeStore.scanAges
  by_cases hCount : s.positionIndex.entries.length = entries.length
  · rw [decide_eq_true hCount] at hGapless
    refine ⟨entries.map Prod.snd, ?_, h.perm_bulkAges hCovers hCount⟩
    rw [hGapless]
    exact h.bulkAges
  · rw [decide_eq_false hCount] at hGapless
    obtain ⟨ages, hWalk, hPerm⟩ := h.walkAges hCovers
    refine ⟨ages, ?_, hPerm⟩
    rw [hGapless]
    exact hWalk

end Reading

/-! ## Updating -/

section Updating

variable {blob : DogBlob} {entries : List (Uuid × UInt32)} {path : Path} {s : MmapAgeStore}
  {d : Disk} {id : Uuid}

theorem flat_set_eq (cell : Cell → Bytes) {cells : List Cell} {position : Nat}
    {c : Cell} (c' : Cell) (h : cells[position]? = some c) (hSame : cell c' = cell c) :
    Column.flat cell (cells.set position c') = Column.flat cell cells := by
  rw [Column.flat, Column.flat, List.flatMap_def, List.flatMap_def, List.map_set, hSame]
  congr 1
  refine List.ext_getElem? fun i => ?_
  rw [List.getElem?_set]
  split
  · next hEq =>
    subst hEq
    rw [List.length_map, if_pos (List.getElem?_eq_some_iff.mp h).1, List.getElem?_map, h,
      Option.map_some]
  · rfl

/-- An age that is overwritten in the file. -/
theorem splice_image {position : Nat} {old : UInt32} (h : entries[position]? = some (id, old))
    (age : UInt32) :
    splice (image entries) (agesStart entries.length + position * AGE_WIDTH) (ofU32 age) =
      image (entries.set position (id, age)) := by
  have hCell : (entries.map some)[position]? = some (some (id, old)) := by
    rw [List.getElem?_map, h, Option.map_some]
  have hSplice := splice_ages (entries.map some) (entries.map some) hCell (id, age)
  rw [List.length_map] at hSplice
  rw [image, hSplice, image, List.map_set, columns, columns,
    flat_set_eq idCell (some (id, age)) hCell rfl,
    flat_set_eq markerCell (some (id, age)) hCell rfl]

/-- The ids of a file stay when the age at the place of one is set. -/
theorem map_fst_set {position : Nat} {old : UInt32} (h : entries[position]? = some (id, old))
    (age : UInt32) :
    (entries.set position (id, age)).map Prod.fst = entries.map Prod.fst := by
  rw [List.map_set]
  refine List.ext_getElem? fun i => ?_
  rw [List.getElem?_set]
  split
  · next hEq =>
    subst hEq
    rw [List.length_map, if_pos (List.getElem?_eq_some_iff.mp h).1, List.getElem?_map, h,
      Option.map_some]
  · rfl

theorem ageIn_set {position : Nat} (h : placeIn entries id = some position) (age : UInt32)
    (other : Uuid) :
    ageIn (entries.set position (id, age)) other = if id = other then some age
      else ageIn entries other := by
  obtain ⟨old, -, hAt⟩ := getElem?_place h
  have hPlaces := placeIn_congr (map_fst_set hAt age)
  have hLt := (List.getElem?_eq_some_iff.mp hAt).1
  split
  · next hEq =>
    subst hEq
    obtain ⟨age', hAge, hHere⟩ := getElem?_place ((hPlaces id).trans h)
    rw [List.getElem?_set_self hLt, Option.some.injEq] at hHere
    rw [hAge, ← (Prod.mk.inj hHere).2]
  · next hNe =>
    cases hOther : placeIn entries other with
    | none =>
      have hNone : ∀ {list : List (Uuid × UInt32)}, placeIn list other = none →
          ageIn list other = none := fun hPlace => by
        rw [← Option.not_isSome_iff_eq_none, ← isSome_placeIn, hPlace]
        exact Bool.false_ne_true
      rw [hNone ((hPlaces other).trans hOther), hNone hOther]
    | some place =>
      obtain ⟨ageOld, hOld, hAtOld⟩ := getElem?_place hOther
      obtain ⟨ageNew, hNew, hAtNew⟩ := getElem?_place ((hPlaces other).trans hOther)
      have hApart : position ≠ place := by
        rintro rfl
        rw [hAtOld, Option.some.injEq] at hAt
        exact hNe (Prod.mk.inj hAt).1.symm
      rw [List.getElem?_set_ne hApart, hAtOld, Option.some.injEq] at hAtNew
      rw [hNew, hOld, (Prod.mk.inj hAtNew).2]

/-- An update of a record is written to the file. -/
theorem Over.updateAge (h : Over blob entries path s) (hCovers : Covers entries blob)
    (hFile : d path = some (image entries)) (hMem : id ∈ blob.records.map (·.id)) (age : UInt32) :
    ∃ s' entries', updateAge id age ⟨s, d, []⟩ =
      .ok () ⟨s', Function.update d path (some (image entries')), []⟩ ∧
      Over blob entries' path s' ∧ ∀ other, ageIn entries' other = if id = other then some age
        else ageIn entries other := by
  obtain ⟨position, hPlace⟩ := Option.isSome_iff_exists.mp (isSome_placeIn.trans (hCovers id hMem))
  obtain ⟨old, -, hAt⟩ := getElem?_place hPlace
  have hPosition : s.positionIndex.lookup id = some position := by
    rw [h.positions, if_pos hMem, hPlace]
  have hSplice := splice_image hAt age
  have hBound := succ_mul_le AGE_WIDTH (List.getElem?_eq_some_iff.mp hAt).1
  have hLength := length_image_eq entries
  have hIn : agesStart entries.length + position * AGE_WIDTH + (ofU32 age).length ≤
      (image entries).length := by
    rw [length_ofU32, show (4 : Nat) = AGE_WIDTH from rfl]
    omega
  have hStore : (Method.store ⟨image entries, some path⟩
      (agesStart entries.length + position * AGE_WIDTH) (ofU32 age) :
      Method MmapAgeStore StoreError Mapping) ⟨s, d, []⟩ = _ := Method.store_nil hIn
  rw [hSplice, Disk.overwrite, hFile, Option.map_some, hSplice] at hStore
  refine ⟨{ s with mmap := ⟨image (entries.set position (id, age)), some path⟩ },
    entries.set position (id, age), ?_,
    ⟨rfl, h.records, h.breedIndex, h.adjacencyIndex, fun other => ?_⟩, ageIn_set hPlace age⟩
  · rw [MmapAgeStore.updateAge, Method.bind_ok Method.self_ok]
    dsimp only
    rw [hPosition]
    dsimp only
    rw [writeAge, Method.bind_ok Method.self_ok, Method.bind_ok (Method.checked_ok h.recordCount)]
    dsimp only
    rw [h.mmap, Method.bind_ok hStore]
    rfl
  · rw [placeIn_congr (map_fst_set hAt age)]
    exact h.positions other

/-- An update of another id is refused, and changes nothing. -/
theorem Over.updateAge_refused (h : Over blob entries path s) (hNot : id ∉ blob.records.map (·.id))
    (age : UInt32) :
    MmapAgeStore.updateAge id age ⟨s, d, []⟩ = .error (.error (.notFound id)) ⟨s, d, []⟩ := by
  have hNone : s.positionIndex.lookup id = none := by rw [h.positions, if_neg hNot]
  rw [MmapAgeStore.updateAge, Method.bind_ok Method.self_ok]
  dsimp only
  rw [hNone]
  rfl

end Updating

/-! ## Creating and opening -/

section Opening

variable {S : Type} {t : S} {d : Disk} {path : Path} {records : List DogRecord}
  {edges : List (Uuid × Uuid)}
variable {entries : List (Uuid × UInt32)}

theorem extend_emptied (d : Disk) (path : Path) (bytes : Bytes) :
    Disk.extend (Function.update d path (some [])) path bytes =
      Function.update d path (some bytes) := by
  rw [Disk.extend, Function.update_self, Function.update_idem, Option.map_some, List.nil_append]

/-- Positions that are places in a new file. -/
theorem lookup_places_of_ids (hIds : entries.map Prod.fst = records.map (·.id)) (id : Uuid) :
    (places entries).lookup id = if id ∈ records.map (·.id) then placeIn entries id else none := by
  rw [lookup_places]
  split
  · rfl
  · next hNot =>
    rw [← hIds] at hNot
    cases hPlace : placeIn entries id with
    | none => rfl
    | some position =>
      obtain ⟨age, -, hAt⟩ := getElem?_place hPlace
      exact absurd (List.mem_map.mpr ⟨(id, age), List.mem_of_getElem? hAt, rfl⟩) hNot

/-- Creating writes the ages of the records. -/
theorem create_nil :
    ∃ s, (create records edges path : Method S DurabilityError MmapAgeStore) ⟨t, d, []⟩ =
        .ok s ⟨t, Function.update d path (some (image (records.map fun r => (r.id, r.age)))), []⟩ ∧
      Over ⟨records, edges⟩ (records.map fun r => (r.id, r.age)) path s := by
  have hFresh : (writeFresh (records.map fun r => (r.id, r.age)) path : Method S DurabilityError
      Mapping) ⟨t, d, []⟩ = .ok ⟨image (records.map fun r => (r.id, r.age)), some path⟩
        ⟨t, Function.update d path (some (image (records.map fun r => (r.id, r.age)))), []⟩ := by
    rw [writeFresh, Method.bind_ok Method.createDirAll_nil, Method.bind_ok Method.createFile_nil,
      Method.bind_ok Method.appendAll_nil, Method.bind_ok Method.sync_nil, extend_emptied,
        buildImage_eq]
    exact Method.mapFile_nil (Function.update_self ..)
  refine ⟨⟨DogRecord.byId records, DogRecord.byBreed records, DogRecord.adjacency edges,
    places (records.map fun r => (r.id, r.age)),
    ⟨image (records.map fun r => (r.id, r.age)), some path⟩⟩, ?_, rfl, rfl,
    rfl, rfl, lookup_places_of_ids (by rw [List.map_map]; rfl)⟩
  rw [create, Method.bind_ok hFresh]
  rfl

theorem openStore_eq (hFile : d path = some (image entries)) :
    (openStore records edges path : Method S DurabilityError MmapAgeStore) ⟨t, d, []⟩ =
      (reconcile (persistedOf entries) records path >>= fun p => pure
        ⟨DogRecord.byId records, DogRecord.byBreed records, DogRecord.adjacency edges, p.2, p.1⟩)
          ⟨t, d, []⟩ := by
  rw [openStore, Method.bind_ok (Method.openFile_nil hFile),
    Method.bind_ok (Method.mapFile_nil hFile),
    Method.bind_ok (Method.ofExcept_ok (readHeader_image entries)),
    Method.bind_ok (Method.checked_ok (persistedPairs_image entries))]
  rfl

theorem isNone_persistedOf (entries : List (Uuid × UInt32)) (id : Uuid) :
    ((persistedOf entries).lookup id).isNone = !(ageIn entries id).isSome := by
  rw [ageIn, Option.isSome_map, Option.not_isSome]

/-- The store that opens a file as it is. -/
def mappedStore (records : List DogRecord) (edges : List (Uuid × Uuid))
    (entries : List (Uuid × UInt32)) (path : Path) :
    MmapAgeStore :=
  ⟨DogRecord.byId records, DogRecord.byBreed records, DogRecord.adjacency edges,
    fill ((records.map (·.id)).map fun id => (id, (placeIn entries id).getD 0)),
      ⟨image entries, some path⟩⟩

/-- A file that covers the records has a place for each of them. -/
theorem foundPlaces_eq (hCovers : Covers entries ⟨records, edges⟩) :
    foundPlaces (persistedOf entries) records =
    .ok (fill ((records.map (·.id)).map fun id => (id, (placeIn entries id).getD 0))) := by
  have hLoop : ∀ list : List DogRecord, (∀ r ∈ list, r ∈ records) →
      list.mapM (foundPlace (persistedOf entries)) =
      .ok (list.map fun r => (r.id, (placeIn entries r.id).getD 0)) := by
    intro list hList
    induction list with
    | nil => rfl
    | cons r list ih =>
      have hHere : foundPlace (persistedOf entries) r =
          .ok (r.id, (placeIn entries r.id).getD 0) := by
        have hSome := hCovers r.id (List.mem_map.mpr ⟨r, hList r List.mem_cons_self, rfl⟩)
        rw [ageIn, Option.isSome_map] at hSome
        obtain ⟨⟨position, age⟩, hAt⟩ := Option.isSome_iff_exists.mp hSome
        rw [foundPlace, placeIn, hAt]
        rfl
      rw [List.mapM_cons, hHere, ih fun r' hr' => hList r' (List.mem_cons_of_mem r hr')]
      rfl
  rw [foundPlaces, hLoop records fun _ hr => hr, List.map_map]
  rfl

/-- With every record in the file, it is mapped as it is. -/
theorem openStore_found (hFile : d path = some (image entries))
    (hCovers : Covers entries ⟨records, edges⟩) :
    (openStore records edges path : Method S DurabilityError MmapAgeStore) ⟨t, d, []⟩ =
        .ok (mappedStore records edges entries path) ⟨t, d, []⟩ ∧
      Over ⟨records, edges⟩ entries path (mappedStore records edges entries path) := by
  have hAny : (records.any fun r => ((persistedOf entries).lookup r.id).isNone) = false := by
    rw [List.any_eq_false]
    intro r hr
    rw [isNone_persistedOf, hCovers r.id (List.mem_map.mpr ⟨r, hr, rfl⟩)]
    exact Bool.false_ne_true
  refine ⟨?_, rfl, rfl, rfl, rfl, fun id => ?_⟩
  · have hKept : (reconcile (persistedOf entries) records path : Method S DurabilityError _)
        ⟨t, d, []⟩ = .ok (⟨image entries, some path⟩,
          fill ((records.map (·.id)).map fun id => (id, (placeIn entries id).getD 0))) ⟨t,
            d, []⟩ := by
      rw [reconcile, hAny, if_neg Bool.false_ne_true, Method.bind_ok (Method.mapFile_nil hFile),
        Method.bind_ok (Method.checked_ok (foundPlaces_eq hCovers))]
      rfl
    rw [openStore_eq hFile, Method.bind_ok hKept]
    rfl
  · refine (lookup_fill_of_key (fun id => (placeIn entries id).getD 0) (records.map (·.id))
      id).trans ?_
    split
    · next hMem =>
      obtain ⟨position, hPlace⟩ :=
        Option.isSome_iff_exists.mp (isSome_placeIn.trans (hCovers id hMem))
      rw [hPlace, Option.getD_some]
    · rfl

/-- With a record that is not in the file, it is written anew: the ages it has, and those of the new
records. -/
theorem openStore_missing (hFile : d path = some (image entries))
    (hNew : ¬ Covers entries ⟨records, edges⟩) :
    ∃ s entries', (openStore records edges path : Method S DurabilityError MmapAgeStore)
        ⟨t, d, []⟩ =
        .ok s ⟨t, d.installed path (image entries'), []⟩ ∧ Over ⟨records, edges⟩ entries' path s ∧
      ∀ id, ageIn entries' id = ((DogRecord.byId records).lookup id).map fun r =>
        (ageIn entries id).getD r.age := by
  have hAny : (records.any fun r => ((persistedOf entries).lookup r.id).isNone) = true := by
    by_contra hNone
    rw [Bool.not_eq_true, List.any_eq_false] at hNone
    refine hNew fun id hMem => ?_
    obtain ⟨r, hr, rfl⟩ := List.mem_map.mp hMem
    have hHere := hNone r hr
    rw [isNone_persistedOf, Bool.not_eq_true, Bool.not_eq_false'] at hHere
    exact hHere
  have hRename : (writeViaRename (reconciled (persistedOf entries) records) path : Method S
      DurabilityError Mapping)
      ⟨t, d, []⟩ = .ok ⟨image (reconciled (persistedOf entries) records), some path⟩
        ⟨t, d.installed path (image (reconciled (persistedOf entries) records)), []⟩ := by
    rw [writeViaRename, Method.bind_ok Disk.write_nil, buildImage_eq,
      Method.bind_ok (Method.openFile_nil Disk.installed_self)]
    exact Method.mapFile_nil Disk.installed_self
  have hMade : (reconcile (persistedOf entries) records path : Method S DurabilityError _)
      ⟨t, d, []⟩ =
      .ok (⟨image (reconciled (persistedOf entries) records), some path⟩,
        places (reconciled (persistedOf entries) records))
        ⟨t, d.installed path (image (reconciled (persistedOf entries) records)), []⟩ := by
    rw [reconcile, hAny, if_pos rfl, Method.bind_ok hRename]
    rfl
  refine ⟨_, reconciled (persistedOf entries) records,
    (openStore_eq hFile).trans (Method.bind_ok hMade),
    ⟨rfl, rfl, rfl, rfl, lookup_places_of_ids (by rw [reconciled, List.map_map]; rfl)⟩,
      fun id => ?_⟩
  rw [reconciled, ageIn_map]
  cases hRecord : (DogRecord.byId records).lookup id with
  | none => rfl
  | some r =>
    obtain ⟨-, rfl⟩ := id_of_lookup_byId hRecord
    rw [Option.map_some, Option.map_some, ageIn]
    cases (persistedOf entries).lookup r.id <;> rfl

end Opening

end MmapAgeStore

end MultimodalDb
