import MultimodalDb.Durability.CanonicalCached
import MultimodalDb.Lib.Undisturbed

/-!
# The record blob of a dog store

The companion of an ages file: the dogs and the edges as they were given. Its header has a
fingerprint of what never changes, so that the ids and breeds in order and the edges are compared
and the ages are not (`fingerprint_eq`).
-/

namespace MultimodalDb

open Bytes RecordBlob

structure DogBlob where
  records : List DogRecord
  edges : List (Uuid × Uuid)
  deriving DecidableEq

namespace DogBlob

instance : Serde DogBlob :=
  Codec.refine (fun b => (b.records, b.edges)) (fun p => some ⟨p.1, p.2⟩) (by
    rintro ⟨records, edges⟩ ⟨records', edges'⟩
    simp [eq_comm])

def MAGIC : Bytes := "DOGBLOB".toUTF8.data.toList ++ [0]

def BLOB_VERSION : UInt32 := 2

theorem MAGIC_length : MAGIC.length = 8 := by decide

/-- A breed as bytes. -/
def breedBytes (breed : String) : Bytes := breed.toUTF8.data.toList

/-- The ids and breeds, and the edges. -/
def content (b : DogBlob) : List (Uuid × String) × List (Uuid × Uuid) :=
  (b.records.map fun r => (r.id, r.breed), b.edges)

/-- The hash after a record, from the hash before it. -/
def updateRecord (hash : UInt64) (id : Uuid) (breed : String) : UInt64 :=
  update (update (update hash id.bytes) (leBytes 8 (breedBytes breed).length)) (breedBytes breed)

/-- FNV-1a 64 over the counts, the ids, the breeds behind their lengths, and the edges. -/
def fingerprint (b : DogBlob) : UInt64 :=
  let hash := update OFFSET_BASIS (leBytes 8 b.records.length)
  let hash := b.records.foldl (fun hash r => updateRecord hash r.id r.breed) hash
  let hash := update hash (leBytes 8 b.edges.length)
  b.edges.foldl (fun hash e => update (update hash e.1.bytes) e.2.bytes) hash

/-- The same content has the same fingerprint. -/
theorem fingerprint_eq {a b : DogBlob} (h : a.content = b.content) :
    a.fingerprint = b.fingerprint := by
  obtain ⟨records, edges⟩ := a
  obtain ⟨records', edges'⟩ := b
  obtain ⟨hRecords, rfl⟩ := Prod.mk.inj h
  have hLength : records.length = records'.length := by
    rw [← List.length_map (f := fun r : DogRecord => (r.id, r.breed)), hRecords, List.length_map]
  have hContent : ∀ (hash : UInt64) (list : List DogRecord),
      list.foldl (fun hash r => updateRecord hash r.id r.breed) hash =
      (list.map fun r => (r.id, r.breed)).foldl (fun hash p => updateRecord hash p.1 p.2) hash := by
    intro hash list
    rw [List.foldl_map]
  simp only [fingerprint, hLength, hContent, hRecords]

/-- The image of an encoded blob. -/
def image (b : DogBlob) (body : Bytes) : Bytes := encodeImage MAGIC BLOB_VERSION b.fingerprint body

def encode (b : DogBlob) : Except DurabilityError Bytes :=
  match Codec.encode b with
  | none => .error .serde
  | some body => .ok (b.image body)

/-- What a blob's bytes hold, or why they are refused. -/
def decodeImage (path : Path) (bytes : Bytes) : Except DurabilityError DogBlob :=
  match parseHeader bytes MAGIC BLOB_VERSION with
  | .error cause => .error (.recordBlobUnreadable path cause)
  | .ok claimed =>
    match Codec.decode (bytes.drop HEADER_LEN) with
    | none => .error (.recordBlobUnreadable path .bodyDoesNotDecode)
    | some (b : DogBlob) =>
      let actual := b.fingerprint
      if actual ≠ claimed
        then .error (.recordBlobUnreadable path (.fingerprintMismatch claimed actual)) else .ok b

section Operations

variable {S : Type}

def read (path : Path) : Method S DurabilityError DogBlob := do
  let bytes ← Method.readFile (fun e => .recordBlobUnreadable path (.cannotRead e)) path
  Method.ofExcept (decodeImage path bytes)

/-- Whether the blob at `path` already holds this record set, judged by its header. Any failure to
read it counts as not current. -/
def isCurrentAt (b : DogBlob) (path : Path) : Method S DurabilityError Bool := do
  let header ← Method.attempt (ε := DurabilityError) do
    Method.openFile .io path
    Method.readExact .io path HEADER_LEN
  return match header with
    | none => false
    | some header =>
      match parseHeader header MAGIC BLOB_VERSION with
      | .ok claimed => claimed = b.fingerprint
      | .error _ => false

end Operations

/-! ## A blob on disk -/

/-- The file holds this blob. -/
def Holds (b : DogBlob) (file : Option Bytes) : Prop :=
  ∃ body, Codec.encode b = some body ∧ file = some (b.image body)

section Rules

variable {S : Type} {s : S} {d : Disk} {b : DogBlob} {path : Path}

theorem holds_of_encode {bytes : Bytes} (h : b.encode = .ok bytes) : Holds b (some bytes) := by
  unfold DogBlob.encode at h
  split at h
  · cases h
  · next body hBody =>
    cases h
    exact ⟨body, hBody, rfl⟩

theorem drop_image (body : Bytes) : (b.image body).drop HEADER_LEN = body := by
  have hHead : (MAGIC ++ ofU32 BLOB_VERSION ++ ofU64 b.fingerprint).length = HEADER_LEN := by
    simp [MAGIC_length, HEADER_LEN, FINGERPRINT_OFFSET, VERSION_OFFSET]
  rw [image, encodeImage, ← hHead, List.drop_left]

/-- What was written is read back. -/
theorem read_nil (h : Holds b (d path)) :
    (read path : Method S DurabilityError DogBlob) ⟨s, d, []⟩ = .ok b ⟨s, d, []⟩ := by
  obtain ⟨body, hBody, hFile⟩ := h
  have hDecode : decodeImage path (b.image body) = .ok b := by
    unfold decodeImage
    rw [image, parseHeader_encodeImage MAGIC_length, ← image, drop_image,
      Codec.decode_eq_some.mpr hBody]
    exact if_neg (not_not.mpr rfl)
  rw [read, Method.bind_ok (Method.readFile_nil hFile), Method.ofExcept_ok hDecode]

theorem parseHeader_take (body : Bytes) :
    parseHeader ((b.image body).take HEADER_LEN) MAGIC BLOB_VERSION = .ok b.fingerprint := by
  have hTake : (b.image body).take HEADER_LEN =
      encodeImage MAGIC BLOB_VERSION b.fingerprint [] := by
    have hHead : (MAGIC ++ ofU32 BLOB_VERSION ++ ofU64 b.fingerprint).length = HEADER_LEN := by
      simp [MAGIC_length, HEADER_LEN, FINGERPRINT_OFFSET, VERSION_OFFSET]
    rw [image, encodeImage, ← hHead, List.take_left, encodeImage, List.append_nil]
  rw [hTake, parseHeader_encodeImage MAGIC_length]

/-- A blob is current over another just when the fingerprints are the same. -/
theorem isCurrentAt_nil {other : DogBlob} (h : Holds other (d path)) :
    (isCurrentAt b path : Method S DurabilityError Bool) ⟨s, d, []⟩ =
      .ok (decide (other.fingerprint = b.fingerprint)) ⟨s, d, []⟩ := by
  obtain ⟨body, -, hFile⟩ := h
  have hLong : HEADER_LEN ≤ (other.image body).length := by
    rw [image, length_encodeImage MAGIC_length]
    exact Nat.le_add_right ..
  have hHeader : (do
      Method.openFile DurabilityError.io path
      Method.readExact .io path HEADER_LEN : Method S DurabilityError Bytes) ⟨s, d, []⟩ =
      .ok ((other.image body).take HEADER_LEN) ⟨s, d, []⟩ := by
    rw [Method.bind_ok (Method.openFile_nil hFile), Method.readExact_nil hFile hLong]
  rw [isCurrentAt, Method.bind_ok (Method.attempt_ok hHeader)]
  dsimp only
  rw [parseHeader_take]
  rfl

/-- Where there is no blob, none is current. -/
theorem isCurrentAt_missing (h : d path = none) :
    (isCurrentAt b path : Method S DurabilityError Bool) ⟨s, d, []⟩ = .ok false ⟨s, d, []⟩ := by
  have hHeader : (do
      Method.openFile DurabilityError.io path
      Method.readExact .io path HEADER_LEN : Method S DurabilityError Bytes) ⟨s, d, []⟩ =
      .error (.error (.io .notFound)) ⟨s, d, []⟩ := Method.bind_error (Method.openFile_missing h)
  rw [isCurrentAt, Method.bind_ok (Method.attempt_error hHeader)]
  rfl

end Rules

end DogBlob

/-! ## Installing a file -/

namespace Disk

variable {d : Disk} {path : Path} {bytes : Bytes}

/-- The disk after an image is staged and renamed over a file. -/
def installed (d : Disk) (path : Path) (bytes : Bytes) : Disk :=
  Disk.move (Disk.extend (Function.update d (tempPath path) (some [])) (tempPath path) bytes)
    (tempPath path) path

theorem installed_self : d.installed path bytes path = some bytes := by
  simp [installed, Disk.move, Function.update_of_ne (tempPath_ne path).symm]

theorem installed_of_ne {other : Path} (h : other ≠ path) (hTemp : other ≠ tempPath path) :
    d.installed path bytes other = d other := by
  simp [installed, Disk.move, Function.update_of_ne h, Function.update_of_ne hTemp,
    Disk.extend_of_ne hTemp]

theorem write_nil {S : Type} {s : S} :
    (RecordBlob.write bytes path : Method S DurabilityError Unit) ⟨s, d, []⟩ =
    .ok () ⟨s, d.installed path bytes, []⟩ :=
  rfl

end Disk

end MultimodalDb
