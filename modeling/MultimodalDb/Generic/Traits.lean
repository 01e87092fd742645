import MultimodalDb.Codec

/-!
# What a record type provides

The traits a stored record implements, with the laws their documentation states. A value that lives
in a mapped file has a fixed width, and every byte string of that width is the form of one value. A
record has an id, one indexed field, one scannable field that can be written back into it, and a tag
that names its type in file headers.

The marker types that tell several fields of one record apart are phantom, and a store is built over
one index and one scannable field, so one class carries them all.
-/

namespace MultimodalDb

open Bytes

/-- A value with a fixed-width form in a mapped file. -/
class MmapFieldValue (α : Type) where
  byteWidth : Nat
  writeLe : α → Bytes
  readLe : Bytes → α
  length_writeLe : ∀ a, (writeLe a).length = byteWidth
  readLe_writeLe : ∀ a, readLe (writeLe a) = a
  writeLe_readLe : ∀ bs, bs.length = byteWidth → writeLe (readLe bs) = bs
  byteWidth_pos : 0 < byteWidth

attribute [simp] MmapFieldValue.length_writeLe MmapFieldValue.readLe_writeLe

instance : MmapFieldValue UInt32 where
  byteWidth := 4
  writeLe := ofU32
  readLe := toU32
  length_writeLe := length_ofU32
  readLe_writeLe := toU32_ofU32
  writeLe_readLe _ := ofU32_toU32
  byteWidth_pos := by decide

instance : MmapFieldValue Int64 where
  byteWidth := 8
  writeLe v := ofU64 v.toUInt64
  readLe bs := Int64.ofUInt64 (toU64 bs)
  length_writeLe _ := length_ofU64 _
  readLe_writeLe _ := congrArg Int64.ofUInt64 (toU64_ofU64 _)
  writeLe_readLe _ := ofU64_toU64
  byteWidth_pos := by decide

/-- The bytes of an id as they are; only a slice of another width makes the original panic. -/
instance : MmapFieldValue Uuid where
  byteWidth := 16
  writeLe := Uuid.bytes
  readLe bs := if h : bs.length = 16 then ⟨bs, h⟩ else Uuid.ofNat 0
  length_writeLe := Uuid.length_bytes
  readLe_writeLe v := dif_pos v.length_bytes
  writeLe_readLe bs h := by rw [dif_pos h]
  byteWidth_pos := by decide

/-- `Record`, `IndexedField`, `ScannableField` and `SchemaTag` of a record type. Writing the
scannable field back changes that field and nothing else a store looks at. -/
class StoredRecord (R : Type) (Id IV SV : outParam Type) where
  id : R → Id
  indexedValue : R → IV
  scannableValue : R → SV
  setScannableValue : SV → R → R
  SCHEMA_TAG : String
  id_set : ∀ v r, id (setScannableValue v r) = id r
  indexedValue_set : ∀ v r, indexedValue (setScannableValue v r) = indexedValue r
  scannableValue_set : ∀ v r, scannableValue (setScannableValue v r) = v
  set_set : ∀ v w r, setScannableValue v (setScannableValue w r) = setScannableValue v r
  set_scannableValue : ∀ r, setScannableValue (scannableValue r) r = r

attribute [simp] StoredRecord.id_set StoredRecord.indexedValue_set
  StoredRecord.scannableValue_set StoredRecord.set_set StoredRecord.set_scannableValue

end MultimodalDb
