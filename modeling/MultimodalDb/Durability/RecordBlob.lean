import MultimodalDb.Codec
import MultimodalDb.Lib.Files

/-!
# What the companion blobs share

The errors of the durability layer, and the parts every companion file is made of: the FNV-1a 64
hash, the twenty-byte header (magic, version, fingerprint, all little-endian) and the atomic install
of a complete image. An image is written to a temporary path, synced and renamed over the companion,
so that a failure or a crash at any call leaves the companion as it was or wholly new
(`wp_write`).
-/

namespace MultimodalDb

open Bytes

/-! ## Errors -/

/-- The `cause` of an unreadable companion. The text of a `bincode` error is not modelled. -/
inductive UnreadableCause where
  | cannotRead (e : IoError)
  | notABlob
  | versionMismatch (found expected : UInt32)
  | tooShortForTag
  | tagMismatch (expectedTag : String) (expected found : UInt64)
  | fingerprintMismatch (claimed actual : UInt64)
  | labelsFingerprintMismatch
  | bodyDoesNotDecode
  | entryDoesNotDecode (index : Nat)
  | tombstoneDoesNotDecode (index : Nat)
  | unknownKind (index : Nat) (kind : UInt8)
  deriving DecidableEq

/-- A `u64` as the format `{:#018x}` shows it. -/
def hex (v : UInt64) : String :=
  let digits := Nat.toDigits 16 v.toNat
  "0x" ++ String.ofList (List.replicate (16 - digits.length) '0' ++ digits)

def UnreadableCause.text : UnreadableCause → String
  | .cannotRead _ => "cannot read file"
  | .notABlob => "magic number mismatch or file too short for a header — not a record blob"
  | .versionMismatch found expected =>
    "blob version mismatch: file has " ++ toString found ++ ", this build expects " ++
      toString expected
  | .tooShortForTag => "file too short for a tagged header"
  | .tagMismatch expectedTag expected found =>
    "schema tag mismatch: this store expects `" ++ expectedTag ++ "` (" ++ hex expected ++
      "), file holds " ++ hex found
  | .fingerprintMismatch claimed actual =>
    "fingerprint mismatch: header claims " ++ hex claimed ++ ", body hashes to " ++ hex actual
  | .labelsFingerprintMismatch => "fingerprint mismatch"
  | .bodyDoesNotDecode => "body does not decode"
  | .entryDoesNotDecode index => "entry " ++ toString index ++ " does not decode"
  | .tombstoneDoesNotDecode index => "tombstone " ++ toString index ++ " does not decode"
  | .unknownKind index kind =>
    "entry " ++ toString index ++ " has unknown kind " ++ toString kind

/-- What an update of a dog store reports. The text of a durability failure is not modelled. -/
inductive StoreError where
  | notFound (id : Uuid)
  | durability
  deriving DecidableEq

inductive DurabilityError where
  | io (e : IoError)
  | serde
  | store (e : StoreError)
  | invalidMagic
  | schemaVersionMismatch (found expected : UInt32)
  | recordBlobUnreadable (path : Path) (cause : UnreadableCause)
  | slotWidthMismatch (path : Path) (bodyLen slotWidth : Nat)
  deriving DecidableEq

/-- An unknown id stays what it is, and everything else is a durability failure. -/
def StoreError.ofDurability : DurabilityError → StoreError
  | .store e => e
  | _ => .durability

namespace RecordBlob

/-! ## FNV-1a 64 -/

def OFFSET_BASIS : UInt64 := 0xcbf29ce484222325

def PRIME : UInt64 := 0x00000100000001b3

/-- The hash after `bytes`, from the hash before them. -/
def update (hash : UInt64) (bytes : Bytes) : UInt64 :=
  bytes.foldl (fun h b => (h ^^^ b.toUInt64) * PRIME) hash

def fnv1a64 (bytes : Bytes) : UInt64 := update OFFSET_BASIS bytes

/-! ## The header -/

def VERSION_OFFSET : Nat := 8

def FINGERPRINT_OFFSET : Nat := VERSION_OFFSET + 4

def HEADER_LEN : Nat := FINGERPRINT_OFFSET + 8

/-- A complete image: the header, then `body`. -/
def encodeImage (magic : Bytes) (version : UInt32) (fingerprint : UInt64) (body : Bytes) : Bytes :=
  magic ++ ofU32 version ++ ofU64 fingerprint ++ body

/-- Check a header and return the fingerprint it records. -/
def parseHeader (bytes magic : Bytes) (expectedVersion : UInt32) :
    Except UnreadableCause UInt64 :=
  if bytes.length < HEADER_LEN ∨ slice bytes 0 8 ≠ magic then
    .error .notABlob
  else
    let found := toU32 (slice bytes VERSION_OFFSET 4)
    if found ≠ expectedVersion then
      .error (.versionMismatch found expectedVersion)
    else
      .ok (toU64 (slice bytes FINGERPRINT_OFFSET 8))

theorem slice_encodeImage_magic {magic : Bytes} (h : magic.length = 8) (version : UInt32)
    (fingerprint : UInt64) (body : Bytes) :
    slice (encodeImage magic version fingerprint body) 0 8 = magic := by
  simp [slice, encodeImage, List.append_assoc, ← h]

theorem slice_encodeImage_version {magic : Bytes} (h : magic.length = 8) (version : UInt32)
    (fingerprint : UInt64) (body : Bytes) :
    slice (encodeImage magic version fingerprint body) VERSION_OFFSET 4 = ofU32 version := by
  have hSlice := slice_middle magic (ofU32 version) (ofU64 fingerprint ++ body)
  rw [h, length_ofU32] at hSlice
  simpa only [encodeImage, VERSION_OFFSET, List.append_assoc] using hSlice

theorem slice_encodeImage_fingerprint {magic : Bytes} (h : magic.length = 8) (version : UInt32)
    (fingerprint : UInt64) (body : Bytes) :
    slice (encodeImage magic version fingerprint body) FINGERPRINT_OFFSET 8 =
      ofU64 fingerprint := by
  have hSlice := slice_middle (magic ++ ofU32 version) (ofU64 fingerprint) body
  rw [List.length_append, h, length_ofU32, length_ofU64] at hSlice
  simpa only [encodeImage, FINGERPRINT_OFFSET, VERSION_OFFSET, List.append_assoc] using hSlice

@[simp] theorem length_encodeImage {magic : Bytes} (h : magic.length = 8) (version : UInt32)
    (fingerprint : UInt64) (body : Bytes) :
    (encodeImage magic version fingerprint body).length = HEADER_LEN + body.length := by
  simp [encodeImage, HEADER_LEN, FINGERPRINT_OFFSET, VERSION_OFFSET, h]
  omega

theorem parseHeader_encodeImage {magic : Bytes} (h : magic.length = 8) (version : UInt32)
    (fingerprint : UInt64) (body : Bytes) :
    parseHeader (encodeImage magic version fingerprint body) magic version = .ok fingerprint := by
  unfold parseHeader
  rw [slice_encodeImage_magic h, if_neg (by simp [h]), slice_encodeImage_version h,
    slice_encodeImage_fingerprint h]
  simp

/-! ## The companion file -/

def COMPANION_SUFFIX : List Char := ".records".toList

def TEMP_SUFFIX : List Char := ".rewrite-tmp".toList

def companionPath (path : Path) : Path := path ++ COMPANION_SUFFIX

/-- Where an image is staged before it is renamed over `path`. -/
def tempPath (path : Path) : Path := path ++ TEMP_SUFFIX

theorem tempPath_ne (path : Path) : tempPath path ≠ path :=
  append_suffix_ne (by decide) path

/-- `EncodedRecordBlob::write`: install a complete image at `path` in one step. -/
def write {S : Type} (image : Bytes) (path : Path) : Method S DurabilityError Unit := do
  Method.createFile .io (tempPath path)
  Method.appendAll .io (tempPath path) image
  Method.sync .io
  Method.rename .io (tempPath path) path

/-- **The companion is replaced whole or not at all.** Only the staging file can be left behind. -/
theorem wp_write {S : Type} {s : S} {d : Disk} {image : Bytes} {path : Path}
    {Q : Unit → S → Disk → Prop} {A C : Stop DurabilityError → S → Disk → Prop}
    (hOk : ∀ d' : Disk, d' path = some image → d' (tempPath path) = none →
      (∀ p, p ≠ path → p ≠ tempPath path → d' p = d p) → Q () s d')
    (hStop : ∀ e d', (∀ p, p ≠ tempPath path → d' p = d p) → C e s d') :
    Method.wp (write image path) s d Q A C := by
  have hTemp : tempPath path ≠ path := tempPath_ne path
  refine Method.wp_bind (Method.wp_createFile ?_ (fun e => hStop e d fun _ _ => rfl))
  refine Method.wp_bind (Method.wp_appendAll ?_ (fun n e => hStop e _ fun p hp => ?_))
  · refine Method.wp_bind (Method.wp_sync ?_ (fun e => hStop e _ fun p hp => ?_))
    · refine Method.wp_rename (hOk _ ?_ ?_ fun p hPath hp => ?_) (fun e => hStop e _ fun p hp => ?_)
      · simp [Disk.move, Function.update_of_ne hTemp.symm]
      · simp [Disk.move]
      · simp [Disk.move, Function.update_of_ne hp, Function.update_of_ne hPath,
          Disk.extend_of_ne hp]
      · simp [hp]
    · simp [hp]
  · simp [hp]

end RecordBlob

end MultimodalDb
