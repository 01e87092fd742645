import MultimodalDb.Codec
import MultimodalDb.Durability.RecordBlob

/-!
# Tagged blobs

The companion files of the generic layers have one format: the shared header, the hash of a record
type's tag, and the encoding of a list. They differ in the magic and the version (`BlobFormat`). The
fingerprint in the header is the hash of the body, which lets `isCurrentAt` compare a list with a
file from its first 28 bytes; two lists with one fingerprint it cannot tell apart.
-/

namespace MultimodalDb

open Bytes RecordBlob

namespace GenericRecordBlob

def TAG_OFFSET : Nat := RecordBlob.HEADER_LEN

def TAGGED_HEADER_LEN : Nat := TAG_OFFSET + 8

/-- The hash of a tag's UTF-8 bytes. -/
def tagHash (tag : String) : UInt64 := fnv1a64 tag.toUTF8.data.toList

/-- A complete tagged image: the shared header, the tag's hash, then `body`. -/
def encodeTaggedImage (magic : Bytes) (version : UInt32) (fingerprint : UInt64) (tag : String)
    (body : Bytes) : Bytes :=
  encodeImage magic version fingerprint [] ++ ofU64 (tagHash tag) ++ body

/-- Check a tagged header, magic before version before tag, and return its fingerprint. -/
def parseTaggedHeader (bytes magic : Bytes) (expectedVersion : UInt32) (expectedTag : String) :
    Except UnreadableCause UInt64 :=
  match parseHeader bytes magic expectedVersion with
  | .error cause => .error cause
  | .ok fingerprint =>
    if bytes.length < TAGGED_HEADER_LEN then
      .error .tooShortForTag
    else
      let found := toU64 (slice bytes TAG_OFFSET 8)
      let expected := tagHash expectedTag
      if found ≠ expected then
        .error (.tagMismatch expectedTag expected found)
      else
        .ok fingerprint

theorem encodeTaggedImage_eq (magic : Bytes) (version : UInt32) (fingerprint : UInt64)
    (tag : String) (body : Bytes) :
    encodeTaggedImage magic version fingerprint tag body =
      encodeImage magic version fingerprint (ofU64 (tagHash tag) ++ body) := by
  simp [encodeTaggedImage, encodeImage, List.append_assoc]

@[simp] theorem length_encodeTaggedImage {magic : Bytes} (h : magic.length = 8) (version : UInt32)
    (fingerprint : UInt64) (tag : String) (body : Bytes) :
    (encodeTaggedImage magic version fingerprint tag body).length =
      TAGGED_HEADER_LEN + body.length := by
  rw [encodeTaggedImage_eq, length_encodeImage h, List.length_append, length_ofU64]
  simp only [TAGGED_HEADER_LEN, TAG_OFFSET]
  omega

theorem slice_encodeTaggedImage_tag {magic : Bytes} (h : magic.length = 8) (version : UInt32)
    (fingerprint : UInt64) (tag : String) (body : Bytes) :
    slice (encodeTaggedImage magic version fingerprint tag body) TAG_OFFSET 8 =
      ofU64 (tagHash tag) := by
  have hSlice := slice_middle (encodeImage magic version fingerprint []) (ofU64 (tagHash tag)) body
  rw [length_encodeImage h, length_ofU64, List.length_nil] at hSlice
  simpa only [encodeTaggedImage, TAG_OFFSET, Nat.add_zero, List.append_assoc] using hSlice

theorem parseTaggedHeader_encode {magic : Bytes} (h : magic.length = 8) (version : UInt32)
    (fingerprint : UInt64) (tag : String) (body : Bytes) :
    parseTaggedHeader (encodeTaggedImage magic version fingerprint tag body) magic version tag =
      .ok fingerprint := by
  unfold parseTaggedHeader
  rw [slice_encodeTaggedImage_tag h, length_encodeTaggedImage h, encodeTaggedImage_eq,
    parseHeader_encodeImage h]
  simp

/-- Only the first 28 bytes of a file decide what its tagged header says. -/
theorem parseTaggedHeader_take {bytes : Bytes} (hLen : TAGGED_HEADER_LEN ≤ bytes.length)
    (magic : Bytes) (version : UInt32) (tag : String) :
    parseTaggedHeader (bytes.take TAGGED_HEADER_LEN) magic version tag =
      parseTaggedHeader bytes magic version tag := by
  obtain ⟨front, hFront⟩ : ∃ front, front = bytes.take TAGGED_HEADER_LEN := ⟨_, rfl⟩
  have hFrontLen : front.length = 28 := by
    rw [hFront]
    exact List.length_take_of_le hLen
  have hBytes : bytes = front ++ bytes.drop TAGGED_HEADER_LEN := by
    rw [hFront, List.take_append_drop]
  have hSlice : ∀ start len, start + len ≤ 28 → slice bytes start len = slice front start len := by
    intro start len h
    rw [hBytes, slice_append_left _ (by omega)]
  have hLen' : 28 ≤ bytes.length := hLen
  rw [← hFront]
  unfold parseTaggedHeader parseHeader
  rw [hSlice 0 8 (by omega), hSlice VERSION_OFFSET 4 (by decide),
    hSlice FINGERPRINT_OFFSET 8 (by decide), hSlice TAG_OFFSET 8 (by decide)]
  have hShort : (bytes.length < HEADER_LEN) = (front.length < HEADER_LEN) := by
    simp only [HEADER_LEN, FINGERPRINT_OFFSET, VERSION_OFFSET, eq_iff_iff]
    omega
  have hShortTag : (bytes.length < TAGGED_HEADER_LEN) = (front.length < TAGGED_HEADER_LEN) := by
    simp only [TAGGED_HEADER_LEN, TAG_OFFSET, HEADER_LEN, FINGERPRINT_OFFSET, VERSION_OFFSET,
      eq_iff_iff]
    omega
  simp only [hShort, hShortTag]

variable {R : Type} [Serde R]

/-- The fingerprint of a list: the hash of its encoding. -/
def fingerprint (records : List R) : Option UInt64 := (Codec.encode records).map fnv1a64

end GenericRecordBlob

/-- What tells one kind of tagged blob from another. -/
structure BlobFormat where
  magic : Bytes
  version : UInt32
  length_magic : magic.length = 8

namespace BlobFormat

open GenericRecordBlob

variable (F : BlobFormat) {R : Type} [Serde R]

/-- The image of an encoded list. -/
def image (tag : String) (body : Bytes) : Bytes :=
  encodeTaggedImage F.magic F.version (fnv1a64 body) tag body

/-- The complete image of a list. -/
def encode (tag : String) (records : List R) : Except DurabilityError Bytes :=
  match Codec.encode records with
  | none => .error .serde
  | some body => .ok (F.image tag body)

/-- Whether the blob at `path` already holds this list, judged by its header. Any failure to read it
counts as not current. -/
def isCurrentAt {S : Type} (tag : String) (records : List R) (path : Path) :
    Method S DurabilityError Bool := do
  let header ← Method.attempt (ε := DurabilityError) do
    Method.openFile .io path
    Method.readExact .io path TAGGED_HEADER_LEN
  return match header, fingerprint records with
    | some header, some fp =>
      match parseTaggedHeader header F.magic F.version tag with
      | .ok claimed => claimed = fp
      | .error _ => false
    | _, _ => false

/-- What a blob's bytes hold, or why they are refused. -/
def decodeImage (tag : String) (path : Path) (bytes : Bytes) : Except DurabilityError (List R) :=
  match parseTaggedHeader bytes F.magic F.version tag with
  | .error cause => .error (.recordBlobUnreadable path cause)
  | .ok claimed =>
    let body := bytes.drop TAGGED_HEADER_LEN
    let actual := fnv1a64 body
    if actual ≠ claimed then
      .error (.recordBlobUnreadable path (.fingerprintMismatch claimed actual))
    else
      match Codec.decode body with
      | none => .error (.recordBlobUnreadable path .bodyDoesNotDecode)
      | some records => .ok records

/-- Read and check the blob at `path`. -/
def read {S : Type} (tag : String) (path : Path) : Method S DurabilityError (List R) := do
  let bytes ← Method.readFile (fun e => .recordBlobUnreadable path (.cannotRead e)) path
  Method.ofExcept (F.decodeImage tag path bytes)

/-! ## What the three operations do -/

@[simp] theorem length_image (tag : String) (body : Bytes) :
    (F.image tag body).length = TAGGED_HEADER_LEN + body.length :=
  length_encodeTaggedImage F.length_magic ..

theorem decodeImage_image (tag : String) (path : Path) {records : List R} {body : Bytes}
    (h : Codec.encode records = some body) :
    F.decodeImage tag path (F.image tag body) = .ok records := by
  have hDrop : (F.image tag body).drop TAGGED_HEADER_LEN = body := by
    have hHeader : (encodeTaggedImage F.magic F.version (fnv1a64 body) tag []).length =
        TAGGED_HEADER_LEN := length_encodeTaggedImage F.length_magic ..
    rw [← hHeader, image, encodeTaggedImage, encodeTaggedImage, List.append_nil, List.drop_left]
  unfold decodeImage
  rw [image, parseTaggedHeader_encode F.length_magic, ← image, hDrop]
  simp [Codec.decode_eq_some.mpr h]

/-- A file whose header carries the fingerprint of this list. -/
def CurrentAt (tag : String) (records : List R) (file : Option Bytes) : Prop :=
  ∃ bytes fp, file = some bytes ∧ fingerprint records = some fp ∧
    parseTaggedHeader bytes F.magic F.version tag = .ok fp

theorem currentAt_image {tag : String} {records other : List R} {body : Bytes}
    (h : Codec.encode other = some body)
    (hCurrent : F.CurrentAt tag records (some (F.image tag body))) :
    fingerprint records = fingerprint other := by
  obtain ⟨bytes, fp, hBytes, hFp, hHeader⟩ := hCurrent
  cases hBytes
  rw [image, parseTaggedHeader_encode F.length_magic] at hHeader
  cases hHeader
  rw [hFp, fingerprint, h, Option.map_some]

section Rules

variable {S : Type} {s : S} {d : Disk} {A C : Stop DurabilityError → S → Disk → Prop}

/-- The blob is never taken to be current when its header says otherwise. -/
theorem wp_isCurrentAt {tag : String} {records : List R} {path : Path}
    {Q : Bool → S → Disk → Prop}
    (hOk : ∀ b, (b = true → F.CurrentAt tag records (d path)) → Q b s d) (hStop : ∀ e, C e s d) :
    Method.wp (F.isCurrentAt tag records path) s d Q A C := by
  have hNone : Q false s d := hOk false (fun h => nomatch h)
  refine Method.wp_bind (Method.wp_attempt (Method.wp_bind (Method.wp_openFile
    (fun bytes hFile => ?_) (fun _ => ?_) (fun e => ?_))))
  · refine Method.wp_readExact (fun hLen => Method.wp_pure ?_) (fun _ => Method.wp_pure ?_)
      (fun e => ?_)
    · refine hOk _ (fun hTrue => ?_)
      rw [hFile, Option.getD_some] at hLen hTrue
      split at hTrue
      · next fp hHeader hFp =>
        cases hHeader
        rw [parseTaggedHeader_take hLen] at hTrue
        split at hTrue
        · next claimed hParse =>
          rw [decide_eq_true_iff] at hTrue
          exact ⟨bytes, fp, hFile, hFp, hTrue ▸ hParse⟩
        · cases hTrue
      · cases hTrue
    · exact hNone
    · cases e
      · exact Method.wp_pure hNone
      · exact hStop _
      · exact hStop _
  · exact Method.wp_pure hNone
  · cases e
    · exact Method.wp_pure hNone
    · exact hStop _
    · exact hStop _

theorem wp_read {tag : String} {path : Path} {Q : List R → S → Disk → Prop}
    (hOk : ∀ bytes records, d path = some bytes → F.decodeImage tag path bytes = .ok records →
      Q records s d)
    (hMissing : d path = none → A (.error (.recordBlobUnreadable path (.cannotRead .notFound))) s d)
    (hBad : ∀ bytes e, d path = some bytes → F.decodeImage (R := R) tag path bytes = .error e →
      A (.error e) s d)
    (hStop : ∀ e, C e s d) : Method.wp (F.read tag path) s d Q A C :=
  Method.wp_bind (Method.wp_readFile
    (fun bytes hFile => Method.wp_ofExcept (fun records => hOk bytes records hFile)
      (fun e => hBad bytes e hFile))
    hMissing hStop)

theorem wp_read_image {tag : String} {path : Path} {records : List R} {body : Bytes}
    {Q : List R → S → Disk → Prop} (hFile : d path = some (F.image tag body))
    (hBody : Codec.encode records = some body) (hOk : Q records s d) (hStop : ∀ e, C e s d) :
    Method.wp (F.read tag path) s d Q A C := by
  have hImage := F.decodeImage_image tag path hBody
  refine F.wp_read (fun bytes found h hFound => ?_) (fun h => ?_) (fun bytes e h hBad => ?_) hStop
  · cases hFile.symm.trans h
    cases hImage.symm.trans hFound
    exact hOk
  · cases hFile.symm.trans h
  · cases hFile.symm.trans h
    cases hImage.symm.trans hBad

end Rules

end BlobFormat

end MultimodalDb
