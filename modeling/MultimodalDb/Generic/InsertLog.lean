import MultimodalDb.Generic.RecordBlob
import MultimodalDb.Lib.Frames

/-!
# The insert log

The append-only companion file that holds every record inserted at run time, and a tombstone for
every one deleted, since the record blob was last rewritten. After the tagged header come entries: a
kind byte, a four-byte length, the encoded record or id. Version 1 of the format had no kind byte;
it is still read, and rewritten on the next append.

The reader walks the file by position (`rawEntriesFrom`). Seen as frames, the walk is `Frame.scan`
(`rawEntries_eq_scan`), so everything known about frames carries over: a file is read as the
complete entries up to the first torn one, and nothing behind that is ever seen.
-/

namespace MultimodalDb

open Bytes GenericRecordBlob

/-- An item, or a tombstone for the key an earlier entry or the blob holds. -/
inductive LogEntry (T K : Type) where
  | item (value : T)
  | tombstone (key : K)
  deriving DecidableEq

namespace InsertLog

def MAGIC : Bytes := "GENINSL".toUTF8.data.toList ++ [0]

def LOG_VERSION : UInt32 := 2

def LOG_VERSION_1 : UInt32 := 1

def VERSION_OFFSET : Nat := 8

def KIND_ITEM : UInt8 := 0

def KIND_TOMBSTONE : UInt8 := 1

def LOG_SUFFIX : List Char := ".inserts".toList

def UPGRADE_SUFFIX : List Char := ".upgrade".toList

/-- Where a store whose slot file lives at `path` keeps its insert log. -/
def logPath (path : Path) : Path := path ++ LOG_SUFFIX

/-! ## The format -/

/-- The version a file declares, when there is enough of it to declare one. -/
def declaredVersion (file : Option Bytes) : Option UInt32 :=
  (file.bind (window · VERSION_OFFSET 4)).map toU32

/-- The entries from position `pos` on, as kinds and payloads, up to the first torn one. -/
def rawEntriesFrom (bytes : Bytes) (version : UInt32) : Nat → Nat → List (UInt8 × Bytes)
  | 0, _ => []
  | fuel + 1, pos =>
    -- version 1 has no kind byte
    match (if version = LOG_VERSION_1 then some (KIND_ITEM, pos)
      else bytes[pos]?.map (·, pos + 1)) with
    | none => []
    | some (kind, pos) =>
      match window bytes pos 4 with
      | none => []
      | some lenBytes =>
        let len := leValue lenBytes
        match window bytes (pos + 4) len with
        | none => []
        | some payload => (kind, payload) :: rawEntriesFrom bytes version fuel (pos + 4 + len)

/-- Every complete entry after the header. Each takes at least one byte, so the length is enough
fuel. -/
def rawEntries (bytes : Bytes) (version : UInt32) : List (UInt8 × Bytes) :=
  rawEntriesFrom bytes version bytes.length TAGGED_HEADER_LEN

/-- One version-2 entry. -/
def entryBytes (kind : UInt8) (payload : Bytes) : Bytes :=
  kind :: leBytes 4 payload.length ++ payload

/-! ## The operations -/

section Operations

variable {S T K : Type}

def onDiskVersion (log : Path) : Method S DurabilityError (Option UInt32) := do
  let file ← Method.readIfPresent .io log
  return declaredVersion file

/-- Rewrite a version-1 log as version 2, through a temporary file and a rename. -/
def upgradeIfVersion1 (log : Path) (tag : String) : Method S DurabilityError Unit := do
  let version ← onDiskVersion log
  if version = some LOG_VERSION_1 then
    let bytes ← Method.readFile .io log
    match parseTaggedHeader bytes MAGIC LOG_VERSION_1 tag with
    | .error cause => Method.fail (.recordBlobUnreadable log cause)
    | .ok _ =>
      let image := encodeTaggedImage MAGIC LOG_VERSION 0 tag [] ++
        (rawEntries bytes LOG_VERSION_1).flatMap (fun (_, payload) => entryBytes KIND_ITEM payload)
      let tmp := log ++ UPGRADE_SUFFIX
      Method.createFile .io tmp
      Method.appendAll .io tmp image
      Method.openFile .io tmp
      Method.sync .io
      Method.rename .io tmp log

/-- Append one entry, after the header on a new file, and sync it. -/
def appendEntry (log : Path) (tag : String) (kind : UInt8) (payload : Bytes) :
    Method S DurabilityError Unit := do
  if payload.length < 2 ^ 32 then
    upgradeIfVersion1 log tag
    Method.openOrCreate .io log
    let len ← Method.fileLen .io log
    let header := if len = 0 then encodeTaggedImage MAGIC LOG_VERSION 0 tag [] else []
    Method.appendAll .io log (header ++ entryBytes kind payload)
    Method.sync .io
  else
    Method.fail (.io .invalidInput)

def appendItem [Serde T] (log : Path) (tag : String) (item : T) :
    Method S DurabilityError Unit :=
  match Codec.encode item with
  | none => Method.fail .serde
  | some payload => appendEntry log tag KIND_ITEM payload

def appendTombstone [Serde K] (log : Path) (tag : String) (key : K) :
    Method S DurabilityError Unit :=
  match Codec.encode key with
  | none => Method.fail .serde
  | some payload => appendEntry log tag KIND_TOMBSTONE payload

/-- Decode one raw entry. -/
def decodeEntry [Serde T] [Serde K] (log : Path) (index : Nat) (kind : UInt8) (payload : Bytes) :
    Except DurabilityError (LogEntry T K) :=
  if kind = KIND_ITEM then
    match Codec.decode payload with
    | some item => .ok (.item item)
    | none => .error (.recordBlobUnreadable log (.entryDoesNotDecode index))
  else if kind = KIND_TOMBSTONE then
    match Codec.decode payload with
    | some key => .ok (.tombstone key)
    | none => .error (.recordBlobUnreadable log (.tombstoneDoesNotDecode index))
  else
    .error (.recordBlobUnreadable log (.unknownKind index kind))

def decodeEntries [Serde T] [Serde K] (log : Path) :
    Nat → List (UInt8 × Bytes) → Except DurabilityError (List (LogEntry T K))
  | _, [] => .ok []
  | index, (kind, payload) :: raw =>
    match decodeEntry log index kind payload with
    | .error e => .error e
    | .ok entry =>
      match decodeEntries log (index + 1) raw with
      | .error e => .error e
      | .ok entries => .ok (entry :: entries)

/-- The header check and the framing walk: every complete entry, undecoded. -/
def readRaw (log : Path) (tag : String) : Method S DurabilityError (List (UInt8 × Bytes)) := do
  let file ← Method.readIfPresent .io log
  match file with
  | none => return []
  | some bytes =>
    let declared ← onDiskVersion log
    let version := if declared = some LOG_VERSION_1 then LOG_VERSION_1 else LOG_VERSION
    match parseTaggedHeader bytes MAGIC version tag with
    | .error cause => Method.fail (.recordBlobUnreadable log cause)
    | .ok _ => return rawEntries bytes version

/-- Every complete entry of the log, oldest first. A missing log is empty. -/
def readEntries [Serde T] [Serde K] (log : Path) (tag : String) :
    Method S DurabilityError (List (LogEntry T K)) := do
  let raw ← readRaw log tag
  Method.ofExcept (decodeEntries log 0 raw)

def clear (log : Path) : Method S DurabilityError Unit := Method.removeIfPresent .io log

end Operations

/-! ## The walk as a scan of frames -/

/-- The tag bytes of an entry: none in version 1, the kind byte after. -/
def tagWidth (version : UInt32) : Nat := if version = LOG_VERSION_1 then 0 else 1

/-- What the walk reports of a frame. -/
def rawOfFrame {head : Nat} (f : Frame head) : UInt8 × Bytes := (f.tag.headD KIND_ITEM, f.payload)

/-- An entry as a frame with one tag byte. -/
def entryFrame (kind : UInt8) (payload : Bytes) (h : payload.length < 256 ^ 4) : Frame 1 :=
  ⟨[kind], payload, rfl, h⟩

theorem bytes_entryFrame (kind : UInt8) (payload : Bytes) (h : payload.length < 256 ^ 4) :
    (entryFrame kind payload h).bytes = entryBytes kind payload := rfl

theorem MAGIC_length : MAGIC.length = 8 := by decide

/-- The walk of version `version` behind any front part is the scan of what follows it. -/
theorem rawEntriesFrom_append (front rest : Bytes) (version : UInt32) (fuel : Nat) :
    rawEntriesFrom (front ++ rest) version fuel front.length =
      (Frame.scan (tagWidth version) fuel rest).map rawOfFrame := by
  induction fuel generalizing front rest with
  | zero => rfl
  | succ fuel ih =>
    have hWindow : ∀ start len, window (front ++ rest) (front.length + start) len =
        window rest start len := window_append_right front rest
    -- the position behind the kind byte, and the kind itself
    have hKind : (if version = LOG_VERSION_1 then some (KIND_ITEM, front.length)
        else (front ++ rest)[front.length]?.map (·, front.length + 1)) =
        if tagWidth version ≤ rest.length then
          some ((rest.take (tagWidth version)).headD KIND_ITEM, front.length + tagWidth version)
        else none := by
      unfold tagWidth
      split
      · simp
      · cases rest <;> simp
    rw [rawEntriesFrom, hKind, Frame.scan]
    cases hNext : Frame.nextFrame (tagWidth version) rest with
    | none =>
      unfold Frame.nextFrame at hNext
      split
      · rfl
      · next kind pos hPos =>
        split at hPos
        · cases hPos
          rw [hWindow]
          split at hNext
          · next hHead =>
            rw [window_eq_some hHead]
            dsimp only
            rw [Nat.add_assoc front.length, hWindow]
            split at hNext
            · cases hNext
            · next hLen => rw [window_eq_none (by omega)]; rfl
          · next hHead => rw [window_eq_none (by omega)]; rfl
        · cases hPos
    | some found =>
      obtain ⟨f, rest'⟩ := found
      obtain rfl := Frame.eq_of_nextFrame hNext
      have hLen := f.length_bytes
      have hPayload : slice (f.bytes ++ rest') (tagWidth version + 4) f.payload.length =
          f.payload := by
        have h := slice_middle (f.tag ++ leBytes 4 f.payload.length) f.payload rest'
        rw [List.length_append, f.length_tag, length_leBytes] at h
        simpa only [Frame.bytes, List.append_assoc] using h
      have hTag : (f.bytes ++ rest').take (tagWidth version) = f.tag := by
        rw [Frame.bytes, List.append_assoc, List.take_append_of_le_length f.length_tag.ge,
          List.take_of_length_le f.length_tag.le]
      have hTotal : (f.bytes ++ rest').length = tagWidth version + 4 + f.payload.length +
          rest'.length := by rw [List.length_append, hLen]
      rw [if_pos (by omega)]
      simp only [hWindow, hTag]
      rw [window_eq_some (by omega), Frame.lengthField_append]
      simp only [leValue_leBytes f.length_payload, Nat.add_assoc]
      rw [hWindow, ← Nat.add_assoc, window_eq_some (by omega), hPayload]
      simp only [List.map_cons, rawOfFrame]
      have hPos : front.length + (tagWidth version + 4 + f.payload.length) =
          (front ++ f.bytes).length := by rw [List.length_append, hLen]
      rw [Nat.add_assoc, ← Nat.add_assoc (tagWidth version), hPos, ← List.append_assoc, ih]

/-- Every complete entry of a file that holds a whole header. -/
theorem rawEntries_eq_scan {bytes : Bytes} (h : TAGGED_HEADER_LEN ≤ bytes.length)
    (version : UInt32) :
    rawEntries bytes version = (Frame.scan (tagWidth version) bytes.length
      (bytes.drop TAGGED_HEADER_LEN)).map rawOfFrame := by
  have hFront : (bytes.take TAGGED_HEADER_LEN).length = TAGGED_HEADER_LEN :=
    List.length_take_of_le h
  have hScan := rawEntriesFrom_append (bytes.take TAGGED_HEADER_LEN)
    (bytes.drop TAGGED_HEADER_LEN) version bytes.length
  rwa [List.take_append_drop, hFront] at hScan

/-! ## Images -/

/-- A header of either version with `body` behind it. -/
def headed (version : UInt32) (tag : String) (body : Bytes) : Bytes :=
  encodeTaggedImage MAGIC version 0 tag body

/-- The bytes of a version-2 log holding these entries. -/
def logImage (tag : String) (entries : List (Frame 1)) : Bytes :=
  headed LOG_VERSION tag (Frame.flat entries)

theorem headed_append (version : UInt32) (tag : String) (body rest : Bytes) :
    headed version tag body ++ rest = headed version tag (body ++ rest) :=
  List.append_assoc ..

@[simp] theorem length_headed (version : UInt32) (tag : String) (body : Bytes) :
    (headed version tag body).length = TAGGED_HEADER_LEN + body.length :=
  length_encodeTaggedImage MAGIC_length ..

theorem drop_headed (version : UInt32) (tag : String) (body : Bytes) :
    (headed version tag body).drop TAGGED_HEADER_LEN = body := by
  have h := length_headed version tag []
  rw [List.length_nil, Nat.add_zero] at h
  rw [← h, ← List.nil_append body, ← headed_append, List.drop_left]
  simp

theorem parseTaggedHeader_headed (version : UInt32) (tag : String) (body : Bytes) :
    parseTaggedHeader (headed version tag body) MAGIC version tag = .ok 0 :=
  parseTaggedHeader_encode MAGIC_length ..

@[simp] theorem declaredVersion_headed (version : UInt32) (tag : String) (body : Bytes) :
    declaredVersion (some (headed version tag body)) = some version := by
  have hSlice : slice (headed version tag body) VERSION_OFFSET 4 = ofU32 version := by
    rw [headed, encodeTaggedImage_eq]
    exact RecordBlob.slice_encodeImage_version MAGIC_length ..
  have hLen : VERSION_OFFSET + 4 ≤ (headed version tag body).length := by
    rw [length_headed]
    exact Nat.le_add_right_of_le (by decide)
  rw [declaredVersion, Option.bind_some, window_eq_some hLen, Option.map_some, hSlice,
    toU32_ofU32]

/-- **What a reader sees of a log.** The complete entries, whatever torn bytes follow them. -/
theorem rawEntries_headed (version : UInt32) (tag : String)
    (entries : List (Frame (tagWidth version))) {tail : Bytes}
    (hTail : Frame.nextFrame (tagWidth version) tail = none) :
    rawEntries (headed version tag (Frame.flat entries ++ tail)) version =
      entries.map rawOfFrame := by
  have hLen := length_headed version tag (Frame.flat entries ++ tail)
  have hFuel : entries.length ≤ (headed version tag (Frame.flat entries ++ tail)).length := by
    have := Frame.length_le_flat entries
    rw [hLen, List.length_append]
    omega
  rw [rawEntries_eq_scan (by omega), drop_headed, Frame.scan_frames entries hTail hFuel]

theorem rawEntries_logImage (tag : String) (entries : List (Frame 1)) {tail : Bytes}
    (hTail : Frame.nextFrame 1 tail = none) :
    rawEntries (logImage tag entries ++ tail) LOG_VERSION = entries.map rawOfFrame := by
  rw [logImage, headed_append]
  exact rawEntries_headed LOG_VERSION tag entries hTail

end InsertLog

end MultimodalDb
