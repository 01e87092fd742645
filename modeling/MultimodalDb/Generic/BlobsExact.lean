import MultimodalDb.Generic.EdgeFiles
import MultimodalDb.Durability.DogBlob

/-!
# Blobs are read exactly

What a reader of tagged blobs accepts is an image that the encoder writes, byte for byte
(`decodeImage_eq_ok`): the header parsers accept the headers they encode and no others, and the
codec accepts encodings only. So whatever else a file may hold is refused (`ExactlyRead`): an image
that stops early or goes on, one of another kind or version, one under a tag with another hash.
-/

namespace MultimodalDb

open Bytes RecordBlob GenericRecordBlob

/-! ## Headers -/

section Headers

variable {bytes magic : Bytes} {version : UInt32} {fingerprint : UInt64} {tag : String}

/-- Bytes from a Bytes.slice and what lies behind it. -/
theorem drop_eq_slice (bytes : Bytes) (start len : Nat) :
    bytes.drop start = Bytes.slice bytes start len ++ bytes.drop (start + len) := by
  rw [Bytes.slice, ← List.drop_drop, List.take_append_drop]

theorem parseHeader_eq_ok (hMagic : magic.length = 8) :
    parseHeader bytes magic version = .ok fingerprint ↔
      ∃ body, bytes = encodeImage magic version fingerprint body := by
  constructor
  · intro h
    unfold parseHeader at h
    split at h
    · cases h
    · next hFront =>
      rw [not_or, not_lt, not_not] at hFront
      obtain ⟨hLen, hFound⟩ := hFront
      have hLen : 20 ≤ bytes.length := hLen
      dsimp only at h
      split at h
      · cases h
      · next hVersion =>
        rw [not_not] at hVersion
        cases h
        refine ⟨bytes.drop 20, ?_⟩
        have hVersionLen : (Bytes.slice bytes 8 4).length = 4 := length_slice (by omega)
        have hPrintLen : (Bytes.slice bytes 12 8).length = 8 := length_slice (by omega)
        have hVersionBytes : ofU32 (toU32 (Bytes.slice bytes VERSION_OFFSET 4)) =
            Bytes.slice bytes 8 4 :=
          ofU32_toU32 hVersionLen
        have hPrintBytes : ofU64 (toU64 (Bytes.slice bytes FINGERPRINT_OFFSET 8)) =
            Bytes.slice bytes 12 8 :=
          ofU64_toU64 hPrintLen
        rw [encodeImage, ← hVersion, hVersionBytes, hPrintBytes, ← hFound]
        calc bytes = Bytes.slice bytes 0 8 ++ bytes.drop 8 := drop_eq_slice bytes 0 8
          _ = Bytes.slice bytes 0 8 ++ Bytes.slice bytes 8 4 ++ Bytes.slice bytes 12 8 ++
            bytes.drop 20 := by
            rw [drop_eq_slice bytes 8 4, drop_eq_slice bytes 12 8]
            simp only [List.append_assoc]
  · rintro ⟨body, rfl⟩
    exact parseHeader_encodeImage hMagic version fingerprint body

theorem parseTaggedHeader_eq_ok (hMagic : magic.length = 8) :
    parseTaggedHeader bytes magic version tag = .ok fingerprint ↔
      ∃ body, bytes = encodeTaggedImage magic version fingerprint tag body := by
  constructor
  · intro h
    unfold parseTaggedHeader at h
    split at h
    · cases h
    · next claimed hHeader =>
      obtain ⟨rest, rfl⟩ := (parseHeader_eq_ok hMagic).mp hHeader
      split at h
      · cases h
      · next hLen =>
        dsimp only at h
        split at h
        · cases h
        · next hTag =>
          rw [not_not] at hTag
          cases h
          rw [length_encodeImage hMagic] at hLen
          simp only [TAGGED_HEADER_LEN, TAG_OFFSET, not_lt, Nat.add_le_add_iff_left] at hLen
          have hSlice : Bytes.slice (encodeImage magic version fingerprint rest) TAG_OFFSET 8 =
              Bytes.slice rest 0 8 := by
            have hHead : (encodeImage magic version fingerprint []).length = TAG_OFFSET :=
              length_encodeImage hMagic version fingerprint []
            have hSplit : encodeImage magic version fingerprint rest =
                encodeImage magic version fingerprint [] ++ rest := by simp [encodeImage]
            rw [hSplit, slice_append_right _ _ hHead.le, hHead, Nat.sub_self]
          have hTagBytes : Bytes.slice rest 0 8 = ofU64 (tagHash tag) := by
            rw [← hTag, hSlice, ofU64_toU64 (length_slice hLen)]
          refine ⟨rest.drop 8, ?_⟩
          rw [encodeTaggedImage_eq, ← hTagBytes]
          exact congrArg _ (drop_eq_slice rest 0 8)
  · rintro ⟨body, rfl⟩
    exact parseTaggedHeader_encode hMagic version fingerprint tag body

end Headers

/-! ## Images -/

namespace BlobFormat

variable {F : BlobFormat} {R : Type} [Serde R] {tag : String} {path : Path} {bytes image : Bytes}
  {records : List R}

theorem encode_eq_ok : F.encode tag records = .ok image ↔
    ∃ body, Codec.encode records = some body ∧ image = F.image tag body := by
  unfold encode
  cases Codec.encode records with
  | none => simp
  | some body => simp [eq_comm]

/-- **What is accepted is an image**, of the list that is returned. -/
theorem decodeImage_eq_ok :
    F.decodeImage tag path bytes = .ok records ↔ F.encode tag records = .ok bytes := by
  rw [encode_eq_ok]
  constructor
  · intro h
    unfold decodeImage at h
    split at h
    · cases h
    · next claimed hHeader =>
      obtain ⟨body, rfl⟩ := (parseTaggedHeader_eq_ok F.length_magic).mp hHeader
      have hHead : (encodeTaggedImage F.magic F.version claimed tag []).length =
          TAGGED_HEADER_LEN :=
        length_encodeTaggedImage F.length_magic ..
      have hDrop : (encodeTaggedImage F.magic F.version claimed tag body).drop TAGGED_HEADER_LEN =
          body := by
        rw [← hHead, encodeTaggedImage, encodeTaggedImage, List.append_nil, List.drop_left]
      dsimp only at h
      rw [hDrop] at h
      split at h
      · cases h
      · next hPrint =>
        rw [not_not] at hPrint
        split at h
        · cases h
        · next hDecoded =>
          cases h
          exact ⟨body, Codec.decode_eq_some.mp hDecoded, by rw [image, hPrint]⟩
  · rintro ⟨body, hBody, rfl⟩
    exact F.decodeImage_image tag path hBody

/-- A file that is refused is refused as an unreadable blob. -/
theorem decodeImage_error {e : DurabilityError}
    (h : F.decodeImage (R := R) tag path bytes = .error e) :
    ∃ cause, e = .recordBlobUnreadable path cause := by
  unfold decodeImage at h
  split at h
  · cases h
    exact ⟨_, rfl⟩
  · dsimp only at h
    split at h
    · cases h
      exact ⟨_, rfl⟩
    · split at h
      · cases h
        exact ⟨_, rfl⟩
      · cases h

theorem drop_image (F : BlobFormat) (tag : String) (body rest : Bytes) :
    (F.image tag body ++ rest).drop TAGGED_HEADER_LEN = body ++ rest := by
  have hHead : (encodeTaggedImage F.magic F.version (fnv1a64 body) tag []).length =
      TAGGED_HEADER_LEN :=
    length_encodeTaggedImage F.length_magic ..
  rw [← hHead, image, encodeTaggedImage, encodeTaggedImage, List.append_nil, List.append_assoc,
    List.drop_left]

/-- No image goes on from another one. -/
theorem rest_of_encode {others : List R} {rest : Bytes} (h : F.encode tag records = .ok image)
    (h' : F.encode tag others = .ok (image ++ rest)) : rest = [] := by
  obtain ⟨body, hBody, rfl⟩ := encode_eq_ok.mp h
  obtain ⟨body', hBody', hImage⟩ := encode_eq_ok.mp h'
  have hDrop := congrArg (List.drop TAGGED_HEADER_LEN) hImage
  have hLast := F.drop_image tag body' []
  rw [List.append_nil, List.append_nil] at hLast
  rw [F.drop_image, hLast] at hDrop
  have hFirst := Serde.get_put hBody rest
  have hWhole := Serde.get_put hBody' []
  rw [List.append_nil, ← hDrop, hFirst] at hWhole
  exact congrArg Prod.snd (Option.some.inj hWhole)

end BlobFormat

/-! ## Readers -/

/-- A file that is no blob of the kind that is read. -/
def Refused {α : Type} (path : Path) (r : Except DurabilityError α) : Prop :=
  ∃ cause, r = .error (.recordBlobUnreadable path cause)

/-- A reader of a kind of blob gives back what was encoded and accepts nothing else: no image that
stops early or goes on, and none of another kind, of another version or under a tag of another hash.
-/
structure ExactlyRead (F : BlobFormat) {R : Type} [Serde R] (path : Path) (tag : String)
    (encode : List R → Except DurabilityError Bytes)
    (reader : Bytes → Except DurabilityError (List R)) : Prop where
  reads : ∀ {list image}, encode list = .ok image → reader image = .ok list
  exact : ∀ {bytes list}, reader bytes = .ok list → encode list = .ok bytes
  cut : ∀ {list image bytes}, encode list = .ok image → bytes <+: image → bytes ≠ image →
    Refused path (reader bytes)
  grown : ∀ {list image bytes}, encode list = .ok image → image <+: bytes → bytes ≠ image →
    Refused path (reader bytes)
  foreign : ∀ {magic}, magic.length = 8 → magic ≠ F.magic → ∀ version fingerprint body,
    Refused path (reader (encodeImage magic version fingerprint body))
  outdated : ∀ {version}, version ≠ F.version → ∀ fingerprint body,
    Refused path (reader (encodeImage F.magic version fingerprint body))
  mistagged : ∀ {other}, tagHash other ≠ tagHash tag → ∀ fingerprint body,
    Refused path (reader (encodeTaggedImage F.magic F.version fingerprint other body))

/-- A reader that accepts the encoder's images is exact. -/
theorem exactlyRead_of (F : BlobFormat) {R : Type} [Serde R] {path : Path} {tag : String}
    {reader : Bytes → Except DurabilityError (List R)}
    (hOk : ∀ bytes list, reader bytes = .ok list ↔ F.encode tag list = .ok bytes)
    (hError : ∀ bytes e, reader bytes = .error e → ∃ cause, e = .recordBlobUnreadable path cause) :
    ExactlyRead F path tag (F.encode tag) reader := by
  have hRefused : ∀ {bytes}, (∀ list : List R, F.encode tag list ≠ .ok bytes) →
      Refused path (reader bytes) := by
    intro bytes hNone
    cases hRead : reader bytes with
    | ok list => exact absurd ((hOk bytes list).mp hRead) (hNone list)
    | error e =>
      obtain ⟨cause, rfl⟩ := hError bytes e hRead
      exact ⟨cause, rfl⟩
  -- every image has the kind's header
  have hHeader : ∀ {list : List R} {bytes}, F.encode tag list = .ok bytes → ∃ fingerprint body,
      bytes = encodeTaggedImage F.magic F.version fingerprint tag body := by
    intro list bytes h
    obtain ⟨body, -, rfl⟩ := BlobFormat.encode_eq_ok.mp h
    exact ⟨_, body, rfl⟩
  constructor
  · exact fun {list image} h => (hOk image list).mpr h
  · exact fun {bytes list} h => (hOk bytes list).mp h
  · rintro list image bytes hImage ⟨rest, rfl⟩ hNe
    refine hRefused fun other hOther => hNe ?_
    rw [BlobFormat.rest_of_encode hOther hImage, List.append_nil]
  · rintro list image bytes hImage ⟨rest, rfl⟩ hNe
    refine hRefused fun other hOther => hNe ?_
    rw [BlobFormat.rest_of_encode hImage hOther, List.append_nil]
  · intro magic hLen hNe version fingerprint body
    refine hRefused fun list hList => hNe ?_
    obtain ⟨fingerprint', body', hBytes⟩ := hHeader hList
    rw [encodeTaggedImage_eq] at hBytes
    have hSlice := congrArg (Bytes.slice · 0 8) hBytes
    rwa [slice_encodeImage_magic hLen, slice_encodeImage_magic F.length_magic] at hSlice
  · intro version hNe fingerprint body
    refine hRefused fun list hList => hNe ?_
    obtain ⟨fingerprint', body', hBytes⟩ := hHeader hList
    rw [encodeTaggedImage_eq] at hBytes
    have hSlice := congrArg (fun bytes => toU32 (Bytes.slice bytes VERSION_OFFSET 4)) hBytes
    rwa [slice_encodeImage_version F.length_magic, slice_encodeImage_version F.length_magic,
      toU32_ofU32, toU32_ofU32] at hSlice
  · intro other hNe fingerprint body
    refine hRefused fun list hList => hNe ?_
    obtain ⟨fingerprint', body', hBytes⟩ := hHeader hList
    have hSlice := congrArg (fun bytes => toU64 (Bytes.slice bytes TAG_OFFSET 8)) hBytes
    rwa [slice_encodeTaggedImage_tag F.length_magic, slice_encodeTaggedImage_tag F.length_magic,
      toU64_ofU64, toU64_ofU64] at hSlice

/-- A label manifest is accepted as any tagged blob is. -/
theorem decodeLabels_eq_ok {tag : String} {path : Path} {bytes : Bytes} {labels : List String} :
    LabelManifest.decodeLabels tag path bytes = .ok labels ↔
      LabelManifest.format.encode tag labels = .ok bytes := by
  have hImage : LabelManifest.format.decodeImage tag path bytes = .ok labels ↔ _ :=
    BlobFormat.decodeImage_eq_ok
  rw [← hImage]
  unfold LabelManifest.decodeLabels BlobFormat.decodeImage
  have hFormat : parseTaggedHeader bytes LabelManifest.format.magic
      LabelManifest.format.version tag =
      parseTaggedHeader bytes LabelManifest.MAGIC LabelManifest.VERSION tag := rfl
  rw [hFormat]
  cases parseTaggedHeader bytes LabelManifest.MAGIC LabelManifest.VERSION tag with
  | error cause => simp
  | ok claimed =>
    dsimp only
    split
    · simp
    · cases (Codec.decode (bytes.drop TAGGED_HEADER_LEN) : Option (List String)) <;> rfl

theorem decodeLabels_error {tag : String} {path : Path} {bytes : Bytes} {e : DurabilityError}
    (h : LabelManifest.decodeLabels tag path bytes = .error e) :
    ∃ cause, e = .recordBlobUnreadable path cause := by
  unfold LabelManifest.decodeLabels at h
  split at h
  · cases h
    exact ⟨_, rfl⟩
  · dsimp only at h
    split at h
    · cases h
      exact ⟨_, rfl⟩
    · split at h
      · cases h
        exact ⟨_, rfl⟩
      · cases h

/-- **Blob files are read exactly**: record blobs, edge blobs and label manifests, whose magics
differ from one another and from a dog blob's. -/
theorem blobs_read_exactly {R Id : Type} [Serde R] [Serde Id] (tag : String) (path : Path) :
    ExactlyRead GenericRecordBlob.format path tag (GenericRecordBlob.encode (R := R) tag)
        (GenericRecordBlob.decodeImage tag path) ∧
      ExactlyRead EdgeBlob.format path tag (EdgeBlob.format.encode (R := Id × Id) tag)
        (EdgeBlob.format.decodeImage tag path) ∧
      ExactlyRead LabelManifest.format path tag (LabelManifest.format.encode tag)
        (LabelManifest.decodeLabels tag path) ∧
      [DogBlob.MAGIC, GenericRecordBlob.MAGIC, EdgeBlob.MAGIC, LabelManifest.MAGIC].Nodup := by
  refine ⟨?_, ?_, ?_, by decide⟩
  · exact exactlyRead_of GenericRecordBlob.format
      (fun _ _ => BlobFormat.decodeImage_eq_ok (F := GenericRecordBlob.format))
      fun _ _ h => BlobFormat.decodeImage_error (F := GenericRecordBlob.format) h
  · exact exactlyRead_of EdgeBlob.format (fun _ _ => BlobFormat.decodeImage_eq_ok)
      fun _ _ h => BlobFormat.decodeImage_error h
  · exact exactlyRead_of LabelManifest.format (fun _ _ => decodeLabels_eq_ok)
      fun _ _ h => decodeLabels_error h

end MultimodalDb
