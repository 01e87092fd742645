import MultimodalDb.Durability.RecordBlob
import MultimodalDb.Generic.Traits
import MultimodalDb.Lib.Column
import Mathlib.Data.List.AList

/-!
# Slot files

A memory-mapped column of fixed-width slots behind a twelve-byte header. A slot is an id, a value
and a marker byte; only a slot whose marker says so is committed. Slots are overwritten in place
through the mapping, and new ones are appended through a handle of their own, after which the file
is mapped again.

Positions count whole slots behind the header. A file may end in fewer bytes than a slot has, and
then the whole slots are still read by position, but an append goes to the end of the file.

Arithmetic below zero and reads past the end of the mapping panic, as in a build with overflow
checks.
-/

namespace MultimodalDb

open Bytes

/-- The mapped file and the path it was opened at. -/
structure SlotFile (Id V : Type) where
  mmap : Mapping
  path : Path

/-- One slot, as its bytes spell it. -/
@[ext] structure Slot (Id V : Type) where
  id : Id
  value : V
  marker : UInt8
  deriving DecidableEq

namespace SlotFile

def MAGIC : Bytes := "GMMAPST".toUTF8.data.toList ++ [0]

def SCHEMA_VERSION : UInt32 := 2

def HEADER_LEN : Nat := 8 + 4

def COMMITTED : UInt8 := 1

def COMPACT_SUFFIX : List Char := ".compact".toList

section Layout

variable (Id V : Type) [MmapFieldValue Id] [MmapFieldValue V]

abbrev idWidth : Nat := MmapFieldValue.byteWidth Id

abbrev valueWidth : Nat := MmapFieldValue.byteWidth V

/-- The id, the value and the marker byte. -/
def slotWidth : Nat := idWidth Id + valueWidth V + 1

def slotOffset (position : Nat) : Nat := HEADER_LEN + position * slotWidth Id V

end Layout

variable {Id V : Type} [MmapFieldValue Id] [MmapFieldValue V] [DecidableEq Id] {S : Type}

/-! ## Reading -/

/-- The value stored in slot `position`. -/
def readValue (f : SlotFile Id V) (position : Nat) : Except Panic V :=
  match window f.mmap.bytes (slotOffset Id V position + idWidth Id) (valueWidth V) with
  | some bytes => .ok (MmapFieldValue.readLe bytes)
  | none => .error .outOfBounds

/-- Every byte after the header. -/
def slotBytes (f : SlotFile Id V) : Except Panic Bytes :=
  if HEADER_LEN ≤ f.mmap.bytes.length then .ok (f.mmap.bytes.drop HEADER_LEN)
  else .error .outOfBounds

/-- The number of bytes after the header. -/
def bodyLen (f : SlotFile Id V) : Except Panic Nat :=
  if HEADER_LEN ≤ f.mmap.bytes.length then .ok (f.mmap.bytes.length - HEADER_LEN)
  else .error .overflow

/-- The number of whole slots, committed or not. -/
def slotCount (f : SlotFile Id V) : Except Panic Nat := do
  let len ← bodyLen f
  return len / slotWidth Id V

def trailingPartialBytes (f : SlotFile Id V) : Except Panic Nat := do
  let len ← bodyLen f
  return len % slotWidth Id V

/-- Whether `liveCount` slots account for every byte after the header. -/
def isGapless (f : SlotFile Id V) (liveCount : Nat) : Except Panic Bool := do
  let len ← bodyLen f
  return liveCount * slotWidth Id V = len

/-- Whether the marker byte of slot `position` reads as committed. -/
def isCommitted (Id V : Type) [MmapFieldValue Id] [MmapFieldValue V] (bytes : Bytes)
    (position : Nat) : Bool :=
  bytes[slotOffset Id V position + idWidth Id + valueWidth V]? = some COMMITTED

/-- The committed pairs of the slots before `count`, by id; a later slot wins. -/
def pairsBefore (bytes : Bytes) (count : Nat) : AList (fun _ : Id => Nat × V) :=
  (List.range count).foldl (fun persisted position =>
    if isCommitted Id V bytes position then
      let start := slotOffset Id V position
      let id : Id := MmapFieldValue.readLe (slice bytes start (idWidth Id))
      let value : V := MmapFieldValue.readLe (slice bytes (start + idWidth Id) (valueWidth V))
      persisted.insert id (position, value)
    else persisted) ∅

/-- Every committed `(id, value)` with the position it was found at. -/
def committedPairs (f : SlotFile Id V) : Except Panic (AList (fun _ : Id => Nat × V)) := do
  let count ← slotCount f
  return pairsBefore f.mmap.bytes count

def readHeader (bytes : Bytes) : Except DurabilityError Unit :=
  if bytes.length < HEADER_LEN ∨ slice bytes 0 8 ≠ MAGIC then
    .error .invalidMagic
  else
    let found := toU32 (slice bytes 8 4)
    if found ≠ SCHEMA_VERSION then
      .error (.schemaVersionMismatch found SCHEMA_VERSION)
    else
      .ok ()

/-! ## Writing in place -/

/-- Store into the mapping of the file. -/
def storeAt {ε : Type} (start : Nat) (bytes : Bytes) : Method (SlotFile Id V) ε Unit := do
  let f ← Method.self
  let mmap ← Method.store f.mmap start bytes
  Method.modifySelf (fun f => { f with mmap := mmap })

/-- Overwrite the value bytes of slot `position`. -/
def writeValue {ε : Type} (position : Nat) (value : V) : Method (SlotFile Id V) ε Unit :=
  storeAt (slotOffset Id V position + idWidth Id) (MmapFieldValue.writeLe value)

/-- Retire slot `position`. -/
def clearMarker {ε : Type} (position : Nat) : Method (SlotFile Id V) ε Unit :=
  storeAt (slotOffset Id V position + idWidth Id + valueWidth V) [0]

/-! ## Creating and replacing the file -/

/-- Write a whole slot: id, then value, then marker. -/
def writeSlotInto {ε : Type} (mmap : Mapping) (position : Nat) (id : Id) (value : V) :
    Method S ε Mapping := do
  let start := slotOffset Id V position
  let mmap ← Method.store mmap start (MmapFieldValue.writeLe id)
  let mmap ← Method.store mmap (start + idWidth Id) (MmapFieldValue.writeLe value)
  Method.store mmap (start + idWidth Id + valueWidth V) [COMMITTED]

def writeHeader {ε : Type} (mmap : Mapping) : Method S ε Mapping := do
  let mmap ← Method.store mmap 0 MAGIC
  Method.store mmap 8 (ofU32 SCHEMA_VERSION)

/-- The loop over the slots of a new file, from `position` on. -/
def writeSlots {ε : Type} (mmap : Mapping) : Nat → List (Id × V) → Method S ε Mapping
  | _, [] => pure mmap
  | position, (id, value) :: rest => do
    let mmap ← writeSlotInto mmap position id value
    writeSlots mmap (position + 1) rest

/-- Build a fresh file holding one committed slot for each pair, in order. -/
def create (path : Path) (slots : List (Id × V)) : Method S DurabilityError (SlotFile Id V) := do
  Method.createDirAll .io path
  Method.createFile .io path
  Method.setLen .io path (HEADER_LEN + slots.length * slotWidth Id V)
  let mmap ← Method.mapFile .io path
  let mmap ← writeHeader mmap
  let mmap ← writeSlots mmap 0 slots
  Method.sync .io
  return ⟨mmap, path⟩

/-- Replace the file's slots, through a fresh file renamed over it. The old mapping is released
first, and a placeholder stands in until the new file is mapped. -/
def rewrite (slots : List (Id × V)) : Method (SlotFile Id V) DurabilityError Unit := do
  let f ← Method.self
  let temp := f.path ++ COMPACT_SUFFIX
  let _fresh : SlotFile Id V ← create temp slots
  let placeholder ← Method.mapAnon .io 1
  Method.modifySelf (fun f => { f with mmap := placeholder })
  Method.rename .io temp f.path
  Method.openFile .io f.path
  let mmap ← Method.mapFile .io f.path
  Method.modifySelf (fun f => { f with mmap := mmap })

/-- Map an existing file and check its header. -/
def openAt (path : Path) : Method S DurabilityError (SlotFile Id V) := do
  Method.openFile .io path
  let mmap ← Method.mapFile .io path
  Method.ofExcept (readHeader mmap.bytes)
  return ⟨mmap, path⟩

/-! ## Appending -/

/-- The bytes of a committed slot. -/
def slotBuffer (id : Id) (value : V) : Bytes :=
  MmapFieldValue.writeLe id ++ (MmapFieldValue.writeLe value ++ [COMMITTED])

/-- Append one committed slot in one write, and report the position read back from the offset the
write ended at. -/
def appendCommittedSlot (path : Path) (id : Id) (value : V) : Method S DurabilityError Nat := do
  Method.appendAll .io path (slotBuffer id value)
  let endOffset ← Method.fileLen .io path
  return (endOffset - HEADER_LEN) / slotWidth Id V - 1

def appendEachSlot (path : Path) : List (Id × V) → Method S DurabilityError (List Nat)
  | [] => pure []
  | (id, value) :: rest => do
    let position ← appendCommittedSlot path id value
    let positions ← appendEachSlot path rest
    return position :: positions

/-- Append one committed slot for each pair, map the file again, and report the positions. -/
def appendCommittedSlots (slots : List (Id × V)) :
    Method (SlotFile Id V) DurabilityError (List Nat) := do
  let f ← Method.self
  Method.openFile .io f.path
  let positions ← appendEachSlot f.path slots
  Method.openFile .io f.path
  let mmap ← Method.mapFile .io f.path
  Method.modifySelf (fun f => { f with mmap := mmap })
  return positions

/-- Force the mapping to the physical disk. -/
def flush : Method (SlotFile Id V) DurabilityError Unit := Method.sync .io

end SlotFile

end MultimodalDb
