import MultimodalDb.Codec
import MultimodalDb.Durability.RecordBlob
import MultimodalDb.Lib.Column
import MultimodalDb.Lib.MapPairs

/-!
# The ages file

Behind a header of twelve bytes there are three columns: every id, then every age, then every
marker. How many records there are is not stored. It is the length behind the header over the
twenty-one bytes of a record, and every offset depends on it.

An image is written into zeroed bytes record by record. `columns` is what a file looks like while
some of its records are not written yet; reading and overwriting are told of it cell by cell.
-/

namespace MultimodalDb

open Bytes MapPairs

namespace MmapAgeStore

def MAGIC : Bytes := "DOGMMAP".toUTF8.data.toList ++ [0]

def SCHEMA_VERSION : UInt32 := 1

def HEADER_LEN : Nat := 8 + 4

def COMMITTED : UInt8 := 1

def ID_WIDTH : Nat := 16

def AGE_WIDTH : Nat := 4

/-- The bytes of a record in all three columns. -/
def RECORD_STRIDE : Nat := ID_WIDTH + AGE_WIDTH + 1

/-! ## Offsets -/

/-- The number of records of a file that is this long. -/
def recordCountFor (len : Nat) : Except Panic Nat :=
  if HEADER_LEN ≤ len then .ok ((len - HEADER_LEN) / RECORD_STRIDE) else .error .overflow

def idsStart : Nat := HEADER_LEN

def agesStart (recordCount : Nat) : Nat := idsStart + recordCount * ID_WIDTH

def markersStart (recordCount : Nat) : Nat := agesStart recordCount + recordCount * AGE_WIDTH

/-! ## Reading -/

def isCommitted (bytes : Bytes) (recordCount position : Nat) : Bool :=
  bytes[markersStart recordCount + position]? = some COMMITTED

def readHeader (bytes : Bytes) : Except DurabilityError Unit :=
  if bytes.length < HEADER_LEN ∨ slice bytes 0 8 ≠ MAGIC then
    .error .invalidMagic
  else
    let found := toU32 (slice bytes 8 4)
    if found ≠ SCHEMA_VERSION then
      .error (.schemaVersionMismatch found SCHEMA_VERSION)
    else
      .ok ()

/-- The id at a position. -/
def idAt (bytes : Bytes) (position : Nat) : Uuid :=
  Uuid.ofNat (leValue (slice bytes (idsStart + position * ID_WIDTH) ID_WIDTH))

/-- The committed pairs of the positions before `count`, by id; a later position wins. -/
def persistedBefore (bytes : Bytes) (recordCount count : Nat) :
    AList (fun _ : Uuid => Nat × UInt32) :=
  (List.range count).foldl (fun persisted position =>
    if isCommitted bytes recordCount position then
      persisted.insert (idAt bytes position)
        (position, toU32 (slice bytes (agesStart recordCount + position * AGE_WIDTH) AGE_WIDTH))
    else persisted) ∅

/-- Every committed id with its position and age. -/
def persistedPairs (bytes : Bytes) : Except Panic (AList (fun _ : Uuid => Nat × UInt32)) := do
  let recordCount ← recordCountFor bytes.length
  return persistedBefore bytes recordCount recordCount

/-! ## Writing an image -/

def writeHeader (buf : Bytes) : Bytes := splice (splice buf 0 MAGIC) 8 (ofU32 SCHEMA_VERSION)

/-- One record: its id, its age and its marker. -/
def writeRecord (recordCount : Nat) (buf : Bytes) (position : Nat)
    (entry : Uuid × UInt32) : Bytes :=
  let buf := splice buf (idsStart + position * ID_WIDTH) entry.1.bytes
  let buf := splice buf (agesStart recordCount + position * AGE_WIDTH) (ofU32 entry.2)
  splice buf (markersStart recordCount + position) [COMMITTED]

/-- The complete file for these pairs, in this order. -/
def buildImage (entries : List (Uuid × UInt32)) : Bytes :=
  let recordCount := entries.length
  let buf := writeHeader (List.replicate (HEADER_LEN + recordCount * RECORD_STRIDE) 0)
  entries.zipIdx.foldl (fun buf p => writeRecord recordCount buf p.2 p.1) buf

/-! ## Columns -/

/-- A record of a file, if it has been written. -/
abbrev Cell : Type := Option (Uuid × UInt32)

def idCell (c : Cell) : Bytes := c.elim (List.replicate ID_WIDTH 0) (·.1.bytes)

def ageCell (c : Cell) : Bytes := c.elim (List.replicate AGE_WIDTH 0) fun e => ofU32 e.2

def markerCell (c : Cell) : Bytes := c.elim [0] fun _ => [COMMITTED]

@[simp] theorem length_idCell (c : Cell) : (idCell c).length = ID_WIDTH := by
  cases c with
  | none => simp [idCell]
  | some e => exact e.1.length_bytes

@[simp] theorem length_ageCell (c : Cell) : (ageCell c).length = AGE_WIDTH := by
  cases c <;> simp [ageCell, AGE_WIDTH]

@[simp] theorem length_markerCell (c : Cell) : (markerCell c).length = 1 := by
  cases c <;> rfl

def headerBytes : Bytes := MAGIC ++ ofU32 SCHEMA_VERSION

@[simp] theorem length_headerBytes : headerBytes.length = HEADER_LEN := by decide

/-- The header and the three columns. -/
def columns (ids ages markers : List Cell) : Bytes :=
  headerBytes ++ (Column.flat idCell ids ++
    (Column.flat ageCell ages ++ Column.flat markerCell markers))

/-- A file with these records. -/
def image (entries : List (Uuid × UInt32)) : Bytes :=
  columns (entries.map some) (entries.map some) (entries.map some)

section Columns

variable {ids ages markers : List Cell} {count position : Nat} {c : Cell}

theorem length_columns : (columns ids ages markers).length =
    HEADER_LEN + (ids.length * ID_WIDTH + (ages.length * AGE_WIDTH + markers.length)) := by
  simp only [columns, List.length_append, length_headerBytes, Column.length_flat length_idCell,
    Column.length_flat length_ageCell, Column.length_flat length_markerCell, Nat.mul_one]

/-! ### The id column -/

theorem succ_mul_le (width : Nat) (h : position < count) :
    position * width + width ≤ count * width := by
  rw [← Nat.succ_mul]
  exact Nat.mul_le_mul_right width h

theorem slice_ids (h : ids[position]? = some c) :
    slice (columns ids ages markers) (idsStart + position * ID_WIDTH) ID_WIDTH = idCell c := by
  have hIn := Column.slice_flat length_idCell h (Nat.zero_add ID_WIDTH).le
  have hLength := Column.length_flat length_idCell ids
  have hBound := succ_mul_le ID_WIDTH (List.getElem?_eq_some_iff.mp h).1
  rw [Nat.add_zero] at hIn
  rw [columns, slice_append_right _ _ (by rw [length_headerBytes, idsStart]; omega),
    length_headerBytes, idsStart,
    Nat.add_sub_cancel_left, slice_append_left _ (by omega), hIn, ← length_idCell c,
      slice_zero_length]

theorem splice_ids (h : ids[position]? = some c) (e : Uuid × UInt32) :
    splice (columns ids ages markers) (idsStart + position * ID_WIDTH) e.1.bytes =
      columns (ids.set position (some e)) ages markers := by
  have hLength := Column.length_flat length_idCell ids
  have hBound := succ_mul_le ID_WIDTH (List.getElem?_eq_some_iff.mp h).1
  have hWhole : splice (idCell c) 0 e.1.bytes = idCell (some e) := by
    rw [splice, e.1.length_bytes, List.drop_eq_nil_of_le (by simp [ID_WIDTH])]
    simp [idCell]
  have hSplice := Column.splice_flat length_idCell h (by rw [e.1.length_bytes]; decide) hWhole
  rw [Nat.add_zero] at hSplice
  rw [columns, splice_append_right _ _ (by rw [length_headerBytes, idsStart]; omega),
    length_headerBytes, idsStart,
    Nat.add_sub_cancel_left, splice_append_left _ (by rw [e.1.length_bytes, hLength]; exact hBound),
      hSplice]
  rfl

/-! ### The age column -/

/-- Where the ages begin, counted from the end of the ids. -/
theorem agesStart_sub (count offset : Nat) :
    agesStart count + offset - HEADER_LEN - count * ID_WIDTH = offset := by
  rw [agesStart, idsStart]
  omega

variable (ids markers) in
theorem slice_ages (h : ages[position]? = some c) :
    slice (columns ids ages markers) (agesStart ids.length + position * AGE_WIDTH) AGE_WIDTH =
      ageCell c := by
  have hIn := Column.slice_flat length_ageCell h (Nat.zero_add AGE_WIDTH).le
  have hIds := Column.length_flat length_idCell ids
  have hAges := Column.length_flat length_ageCell ages
  have hBound := succ_mul_le AGE_WIDTH (List.getElem?_eq_some_iff.mp h).1
  have hStart : agesStart ids.length = HEADER_LEN + ids.length * ID_WIDTH := rfl
  rw [Nat.add_zero] at hIn
  rw [columns, slice_append_right _ _ (by rw [length_headerBytes]; omega), length_headerBytes,
    slice_append_right _ _ (by omega), hIds, agesStart_sub, slice_append_left _ (by omega), hIn,
    ← length_ageCell c, slice_zero_length]

variable (ids markers) in
theorem splice_ages (h : ages[position]? = some c) (e : Uuid × UInt32) :
    splice (columns ids ages markers) (agesStart ids.length + position * AGE_WIDTH) (ofU32 e.2) =
      columns ids (ages.set position (some e)) markers := by
  have hIds := Column.length_flat length_idCell ids
  have hAges := Column.length_flat length_ageCell ages
  have hBound := succ_mul_le AGE_WIDTH (List.getElem?_eq_some_iff.mp h).1
  have hStart : agesStart ids.length = HEADER_LEN + ids.length * ID_WIDTH := rfl
  have hWhole : splice (ageCell c) 0 (ofU32 e.2) = ageCell (some e) := by
    rw [splice, length_ofU32, List.drop_eq_nil_of_le (by simp [AGE_WIDTH])]
    simp [ageCell]
  have hSplice := Column.splice_flat length_ageCell h (by rw [length_ofU32]; decide) hWhole
  rw [Nat.add_zero] at hSplice
  rw [columns, splice_append_right _ _ (by rw [length_headerBytes]; omega), length_headerBytes,
    splice_append_right _ _ (by omega), hIds, agesStart_sub,
    splice_append_left _ (by rw [length_ofU32, hAges]; exact hBound), hSplice]
  rfl

/-! ### The marker column -/

theorem markersStart_sub (count offset : Nat) :
    markersStart count + offset - HEADER_LEN - count * ID_WIDTH - count * AGE_WIDTH = offset := by
  rw [markersStart, agesStart, idsStart]
  omega

variable (ages) in
theorem splice_markers (hAges : ages.length = ids.length) (h : markers[position]? = some c)
    (e : Uuid × UInt32) :
    splice (columns ids ages markers) (markersStart ids.length + position) [COMMITTED] =
      columns ids ages (markers.set position (some e)) := by
  have hIds := Column.length_flat length_idCell ids
  have hLength := Column.length_flat length_ageCell ages
  have hStart : markersStart ids.length =
    HEADER_LEN + ids.length * ID_WIDTH + ids.length * AGE_WIDTH := rfl
  have hWhole : splice (markerCell c) 0 [COMMITTED] = markerCell (some e) := by
    cases c <;> rfl
  have hSplice := Column.splice_flat length_markerCell h (by decide) hWhole
  rw [Nat.mul_one, Nat.add_zero] at hSplice
  rw [hAges] at hLength
  rw [columns, splice_append_right _ _ (by rw [length_headerBytes]; omega), length_headerBytes,
    splice_append_right _ _ (by omega), splice_append_right _ _ (by omega), hIds, hLength,
      markersStart_sub, hSplice]
  rfl

variable (ages) in
theorem isCommitted_columns (hAges : ages.length = ids.length) (h : markers[position]? = some c) :
    isCommitted (columns ids ages markers) ids.length position = c.isSome := by
  have hIds := Column.length_flat length_idCell ids
  have hLength := Column.length_flat length_ageCell ages
  have hStart : markersStart ids.length =
    HEADER_LEN + ids.length * ID_WIDTH + ids.length * AGE_WIDTH := rfl
  have hIn := Column.slice_flat length_markerCell h (Nat.zero_add 1).le
  rw [Nat.mul_one, Nat.add_zero] at hIn
  rw [hAges] at hLength
  have hAt : (columns ids ages markers)[markersStart ids.length + position]? =
      (markerCell c)[0]? := by
    rw [columns, List.getElem?_append_right (by rw [length_headerBytes]; omega), length_headerBytes,
      List.getElem?_append_right (by omega), List.getElem?_append_right (by omega), hIds, hLength,
        markersStart_sub]
    have hHead := congrArg (·[0]?) hIn
    simpa [slice, List.getElem?_take, List.getElem?_drop] using hHead
  rw [isCommitted, hAt]
  cases c <;> rfl

end Columns

/-! ## Images -/

section Images

variable {entries : List (Uuid × UInt32)}

theorem length_image (entries : List (Uuid × UInt32)) :
    (image entries).length = HEADER_LEN + entries.length * RECORD_STRIDE := by
  rw [image, length_columns, List.length_map, RECORD_STRIDE]
  ring

theorem writeRecord_columns {cells : List Cell} {position : Nat} {c : Cell}
    (h : cells[position]? = some c)
    (e : Uuid × UInt32) : writeRecord cells.length (columns cells cells cells) position e =
      columns (cells.set position (some e)) (cells.set position (some e))
        (cells.set position (some e)) := by
  have hSet : (cells.set position (some e)).length = cells.length := List.length_set
  have hAges := splice_ages (cells.set position (some e)) cells h e
  have hMarkers := splice_markers (cells.set position (some e)) rfl h e
  rw [hSet] at hAges hMarkers
  unfold writeRecord
  dsimp only
  rw [splice_ids h, hAges, hMarkers]

/-- Zeroed bytes behind a header are columns with nothing written. -/
theorem writeHeader_replicate (count : Nat) :
    writeHeader (List.replicate (HEADER_LEN + count * RECORD_STRIDE) 0) =
      columns (List.replicate count none) (List.replicate count none)
        (List.replicate count none) := by
  have hFlat : ∀ (cell : Cell → Bytes) (width : Nat), cell none = List.replicate width 0 →
      Column.flat cell (List.replicate count none) = List.replicate (count * width) 0 := by
    intro cell width hNone
    induction count with
    | zero => simp
    | succ count ih => rw [List.replicate_succ, Column.flat_cons, hNone, ih,
        List.replicate_append_replicate, Nat.succ_mul, Nat.add_comm]
  rw [columns, hFlat idCell ID_WIDTH rfl, hFlat ageCell AGE_WIDTH rfl, hFlat markerCell 1 rfl,
    List.replicate_append_replicate, List.replicate_append_replicate, ← Nat.mul_add, ← Nat.mul_add,
      ← Nat.add_assoc]
  change writeHeader (List.replicate (HEADER_LEN + count * RECORD_STRIDE) 0) =
    headerBytes ++ List.replicate (count * RECORD_STRIDE) 0
  rw [← List.replicate_append_replicate]
  generalize List.replicate (count * RECORD_STRIDE) (0 : UInt8) = rest
  rw [writeHeader, splice_append_left _ (by decide), splice_append_left _ (by decide)]
  rfl

/-- **The image.** Written record by record it is the header and the three columns. -/
theorem buildImage_eq (entries : List (Uuid × UInt32)) : buildImage entries = image entries := by
  have hLoop : ∀ (done rest : List (Uuid × UInt32)),
      let cells := done.map some ++ List.replicate rest.length none
      (rest.zipIdx done.length).foldl (fun buf p => writeRecord cells.length buf p.2 p.1)
        (columns cells cells cells) = image (done ++ rest) := by
    intro done rest
    induction rest generalizing done with
    | nil => simp [image]
    | cons e rest ih =>
      intro cells
      have hAt : cells[done.length]? = some none := by
        simp [cells, List.replicate_succ]
      have hNext : cells.set done.length (some e) =
          (done ++ [e]).map some ++ List.replicate rest.length none := by
        simp [cells, List.set_append_right, List.replicate_succ]
      have hCount : cells.length =
          ((done ++ [e]).map some ++ List.replicate rest.length none).length := by
        rw [← hNext, List.length_set]
      have hPlace : done.length + 1 = (done ++ [e]).length := by simp
      rw [List.zipIdx_cons, List.foldl_cons, writeRecord_columns hAt, hNext, hCount,
        List.append_cons done e rest, hPlace]
      exact ih (done ++ [e])
  have hAll := hLoop [] entries
  rw [List.map_nil, List.nil_append, List.nil_append] at hAll
  unfold buildImage
  dsimp only
  rw [writeHeader_replicate, ← hAll, List.length_replicate]
  rfl

theorem readHeader_image (entries : List (Uuid × UInt32)) :
    readHeader (image entries) = .ok () := by
  have hMagic : slice (image entries) 0 8 = MAGIC := by
    rw [image, columns, slice_append_left _ (by decide)]
    rfl
  have hVersion : slice (image entries) 8 4 = ofU32 SCHEMA_VERSION := by
    rw [image, columns, slice_append_left _ (by decide)]
    rfl
  have hLength := length_image entries
  have hLong : ¬ ((image entries).length < HEADER_LEN ∨ slice (image entries) 0 8 ≠ MAGIC) := by
    rw [hLength, hMagic, not_or, not_lt, not_not]
    exact ⟨Nat.le_add_right .., rfl⟩
  unfold readHeader
  rw [if_neg hLong, hVersion, toU32_ofU32]
  exact if_neg (not_not.mpr rfl)

theorem recordCountFor_image (entries : List (Uuid × UInt32)) :
    recordCountFor (image entries).length = .ok entries.length := by
  rw [recordCountFor, length_image, if_pos (Nat.le_add_right ..), Nat.add_sub_cancel_left,
    Nat.mul_div_cancel _ (by decide)]

theorem idAt_image {position : Nat} {e : Uuid × UInt32} (h : entries[position]? = some e) :
    idAt (image entries) position = e.1 := by
  have hCell : (entries.map some)[position]? = some (some e) := by
    rw [List.getElem?_map, h, Option.map_some]
  rw [idAt, image, slice_ids hCell]
  change Uuid.ofNat (leValue e.1.bytes) = e.1
  obtain ⟨⟨bytes, hLength⟩, age⟩ := e
  rw [Uuid.ofNat]
  congr 1
  exact leBytes_leValue hLength

theorem ageAt_image {position : Nat} {e : Uuid × UInt32} (h : entries[position]? = some e) :
    slice (image entries) (agesStart entries.length + position * AGE_WIDTH) AGE_WIDTH =
      ofU32 e.2 := by
  have hCell : (entries.map some)[position]? = some (some e) := by
    rw [List.getElem?_map, h, Option.map_some]
  have hSlice := slice_ages (entries.map some) (entries.map some) hCell
  rw [List.length_map] at hSlice
  exact hSlice

/-- What a complete file holds. -/
theorem persistedPairs_image (entries : List (Uuid × UInt32)) :
    persistedPairs (image entries) =
      .ok (fill (entries.zipIdx.map fun p => (p.1.1, p.2, p.1.2))) := by
  have hLoop : ∀ count ≤ entries.length, persistedBefore (image entries) entries.length count =
      fill ((entries.take count).zipIdx.map fun p => (p.1.1, p.2, p.1.2)) := by
    intro count hCount
    induction count with
    | zero => rfl
    | succ count ih =>
      obtain ⟨e, hAt⟩ : ∃ e, entries[count]? = some e := ⟨_, List.getElem?_eq_getElem (by omega)⟩
      have hCell : (entries.map some)[count]? = some (some e) := by
        rw [List.getElem?_map, hAt, Option.map_some]
      have hCommitted : isCommitted (image entries) entries.length count = true := by
        have hMarker := isCommitted_columns (entries.map some) rfl hCell
        rwa [List.length_map] at hMarker
      have hOlder := ih (by omega)
      have hTake : entries.take (count + 1) = entries.take count ++ [e] := by
        rw [List.take_add_one, hAt]
        rfl
      rw [persistedBefore] at hOlder ⊢
      rw [List.range_succ, List.foldl_append, hOlder, List.foldl_cons, List.foldl_nil,
        if_pos hCommitted, idAt_image hAt,
        ageAt_image hAt, toU32_ofU32, hTake, List.zipIdx_append, List.map_append, fill, fill,
          List.foldl_append]
      simp [List.length_take_of_le (show count ≤ entries.length by omega)]
  have hAll := hLoop entries.length le_rfl
  rw [List.take_length] at hAll
  rw [persistedPairs, recordCountFor_image]
  exact congrArg Except.ok hAll

end Images

end MmapAgeStore

end MultimodalDb
