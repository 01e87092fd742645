import MultimodalDb.Generic.TaggedBlob

/-!
# The record blob

A generic store's companion file holds the record set the store was built from, as a tagged blob
with a magic of its own. What is known of tagged blobs holds of it (`format`).
-/

namespace MultimodalDb

open Bytes RecordBlob

namespace GenericRecordBlob

def MAGIC : Bytes := "GENBLOB".toUTF8.data.toList ++ [0]

def BLOB_VERSION : UInt32 := 2

theorem MAGIC_length : MAGIC.length = 8 := by decide

variable {R : Type} [Serde R]

/-- The image of an encoded record set. -/
def image (tag : String) (body : Bytes) : Bytes :=
  encodeTaggedImage MAGIC BLOB_VERSION (fnv1a64 body) tag body

/-- The complete image of a record set. -/
def encode (tag : String) (records : List R) : Except DurabilityError Bytes :=
  match Codec.encode records with
  | none => .error .serde
  | some body => .ok (image tag body)

/-- Whether the blob at `path` already holds this record set, judged by its header. Any failure to
read it counts as not current. -/
def isCurrentAt {S : Type} (tag : String) (records : List R) (path : Path) :
    Method S DurabilityError Bool := do
  let header ← Method.attempt (ε := DurabilityError) do
    Method.openFile .io path
    Method.readExact .io path TAGGED_HEADER_LEN
  return match header, fingerprint records with
    | some header, some fp =>
      match parseTaggedHeader header MAGIC BLOB_VERSION tag with
      | .ok claimed => claimed = fp
      | .error _ => false
    | _, _ => false

/-- What a blob's bytes hold, or why they are refused. -/
def decodeImage (tag : String) (path : Path) (bytes : Bytes) : Except DurabilityError (List R) :=
  match parseTaggedHeader bytes MAGIC BLOB_VERSION tag with
  | .error cause => .error (.recordBlobUnreadable path cause)
  | .ok claimed =>
    let body := bytes.drop TAGGED_HEADER_LEN
    let actual := fnv1a64 body
    if actual ≠ claimed then
      .error (.recordBlobUnreadable path (.fingerprintMismatch claimed actual))
    else
      match Codec.decode body with
      | none => .error (.recordBlobUnreadable path .bodyDoesNotDecode)
      | some records => .ok records

/-- Read and check the blob at `path`. -/
def read {S : Type} (tag : String) (path : Path) : Method S DurabilityError (List R) := do
  let bytes ← Method.readFile (fun e => .recordBlobUnreadable path (.cannotRead e)) path
  Method.ofExcept (decodeImage tag path bytes)

/-! ## What the three operations do -/

/-- The record blob as a tagged blob. -/
def format : BlobFormat := ⟨MAGIC, BLOB_VERSION, MAGIC_length⟩

@[simp] theorem length_image (tag : String) (body : Bytes) :
    (image tag body).length = TAGGED_HEADER_LEN + body.length :=
  format.length_image ..

/-- A file whose header carries the fingerprint of this record set. -/
def CurrentAt (tag : String) (records : List R) (file : Option Bytes) : Prop :=
  ∃ bytes fp, file = some bytes ∧ fingerprint records = some fp ∧
    parseTaggedHeader bytes MAGIC BLOB_VERSION tag = .ok fp

theorem currentAt_image {tag : String} {records other : List R} {body : Bytes}
    (h : Codec.encode other = some body)
    (hCurrent : CurrentAt tag records (some (image tag body))) :
    fingerprint records = fingerprint other :=
  format.currentAt_image h hCurrent

section Rules

variable {S : Type} {s : S} {d : Disk} {A C : Stop DurabilityError → S → Disk → Prop}

/-- The blob is never taken to be current when its header says otherwise. -/
theorem wp_isCurrentAt {tag : String} {records : List R} {path : Path}
    {Q : Bool → S → Disk → Prop}
    (hOk : ∀ b, (b = true → CurrentAt tag records (d path)) → Q b s d) (hStop : ∀ e, C e s d) :
    Method.wp (isCurrentAt tag records path) s d Q A C :=
  format.wp_isCurrentAt hOk hStop

theorem wp_read_image {tag : String} {path : Path} {records : List R} {body : Bytes}
    {Q : List R → S → Disk → Prop} (hFile : d path = some (image tag body))
    (hBody : Codec.encode records = some body) (hOk : Q records s d) (hStop : ∀ e, C e s d) :
    Method.wp (read tag path) s d Q A C :=
  format.wp_read_image hFile hBody hOk hStop

end Rules

/-- Where a store whose slot file lives at `path` keeps its blob. -/
def blobPath (path : Path) : Path := companionPath path

end GenericRecordBlob

end MultimodalDb
