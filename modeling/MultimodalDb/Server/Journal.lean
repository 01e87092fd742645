import MultimodalDb.Lib.Files
import MultimodalDb.Lib.Frames
import MultimodalDb.Server.Protocol

/-!
# The batch journal

The redo log behind a journaled adapter: a header, then one entry for each batch, its encoded length
and its encoding. `open` reads the complete entries and cuts off a torn one at the end; `append`
adds an entry in two writes, either of which may stop half-way; `truncate` leaves the header alone.

* `wp_openJournal`: a header with frames and a tail that is none of them opens to the frames'
  batches.
* `wp_appendUnsynced`: an append adds its frame, or a part of it and fails.
-/

namespace MultimodalDb

open Bytes

abbrev Batch := List TransactionOp

/-- What is wrong with a journal file, or with a batch for one. -/
inductive FormatFault where
  | notABatchJournal
  | formatVersion (version : UInt32)
  | entryDoesNotDecode (pos : Nat)
  | batchTooLarge
  deriving DecidableEq

inductive JournalError where
  | io (e : IoError)
  | format (what : FormatFault)
  | codec
  | replay (batch index : Nat) (code : ErrorCode)
  | durability
  deriving DecidableEq

def JOURNAL_MAGIC : Bytes := "TXNJRNL".toUTF8.data.toList ++ [0]

def JOURNAL_FORMAT_VERSION : UInt32 := 1

def JOURNAL_CHECKPOINT_BYTES : Nat := 2 ^ 20

def HEADER_LEN : Nat := 12

/-- An open journal file. Its write position is the end of the file throughout. -/
structure BatchJournal where
  path : Path
  len : Nat
  deriving DecidableEq

namespace BatchJournal

/-! ## The operations -/

/-- The batches of the complete entries from position `pos` on, and where the last of them ends. -/
def entriesFrom (bytes : Bytes) : Nat → Nat → Except JournalError (List Batch × Nat)
  | 0, pos => .ok ([], pos)
  | fuel + 1, pos =>
    match window bytes pos 4 with
    | none => .ok ([], pos)
    | some lenBytes =>
      let len := leValue lenBytes
      match window bytes (pos + 4) len with
      | none => .ok ([], pos)
      | some payload =>
        match Codec.decode payload with
        | none => .error (.format (.entryDoesNotDecode pos))
        | some batch =>
          match entriesFrom bytes fuel (pos + 4 + len) with
          | .error e => .error e
          | .ok (batches, complete) => .ok (batch :: batches, complete)

/-- `open`: the journal at `path`, created when there is none, and its batches, oldest first. Each
entry takes at least four bytes, so the length is enough fuel. -/
def openJournal {S : Type} (path : Path) : Method S JournalError (BatchJournal × List Batch) := do
  Method.openOrCreate .io path
  let bytes ← Method.readFile .io path
  if bytes.isEmpty then
    Method.appendAll .io path JOURNAL_MAGIC
    Method.appendAll .io path (ofU32 JOURNAL_FORMAT_VERSION)
    Method.sync .io
    return (⟨path, HEADER_LEN⟩, [])
  else if bytes.length < HEADER_LEN ∨ bytes.take 8 ≠ JOURNAL_MAGIC then
    Method.fail (.format .notABatchJournal)
  else if toU32 (Bytes.slice bytes 8 4) ≠ JOURNAL_FORMAT_VERSION then
    Method.fail (.format (.formatVersion (toU32 (Bytes.slice bytes 8 4))))
  else
    let (entries, complete) ← Method.ofExcept (entriesFrom bytes bytes.length HEADER_LEN)
    if complete ≠ bytes.length then
      Method.setLen .io path complete
      Method.sync .io
    return (⟨path, complete⟩, entries)

/-- `append_unsynced`: `len` advances only when the whole entry was written. -/
def appendUnsynced (batch : Batch) : Method BatchJournal JournalError Unit :=
  match Codec.encode batch with
  | none => Method.fail .codec
  | some payload =>
    if payload.length < 2 ^ 32 then do
      let journal ← Method.self
      Method.appendAll .io journal.path (leBytes 4 payload.length)
      Method.appendAll .io journal.path payload
      Method.modifySelf (fun j => { j with len := j.len + (4 + payload.length) })
    else
      Method.fail (.format .batchTooLarge)

def needsCheckpoint (journal : BatchJournal) : Bool := JOURNAL_CHECKPOINT_BYTES < journal.len

/-- `truncate`: drop every entry. Seeking to the new end of the file cannot fail. -/
def truncate : Method BatchJournal JournalError Unit := do
  let journal ← Method.self
  Method.setLen .io journal.path HEADER_LEN
  Method.sync .io
  Method.modifySelf (fun j => { j with len := HEADER_LEN })

/-! ## Images -/

def header : Bytes := JOURNAL_MAGIC ++ ofU32 JOURNAL_FORMAT_VERSION

/-- The bytes of a journal that holds these entries. -/
def image (frames : List (Frame 0)) : Bytes := header ++ Frame.flat frames

/-- An entry as a frame without a tag. -/
def entryFrame (payload : Bytes) (h : payload.length < 256 ^ 4) : Frame 0 :=
  ⟨[], payload, List.length_nil, h⟩

theorem bytes_entryFrame (payload : Bytes) (h : payload.length < 256 ^ 4) :
    (entryFrame payload h).bytes = leBytes 4 payload.length ++ payload := rfl

/-- A frame that encodes a batch. -/
def Encodes (f : Frame 0) (batch : Batch) : Prop := Codec.encode batch = some f.payload

theorem Encodes.decode {f : Frame 0} {batch : Batch} (h : Encodes f batch) :
    Codec.decode f.payload = some batch :=
  Codec.decode_eq_some.mpr h

theorem JOURNAL_MAGIC_length : JOURNAL_MAGIC.length = 8 := by decide

theorem header_length : header.length = HEADER_LEN := by decide

@[simp] theorem length_image (frames : List (Frame 0)) :
    (image frames).length = HEADER_LEN + (Frame.flat frames).length := by
  rw [image, List.length_append, header_length]

theorem image_append (frames more : List (Frame 0)) :
    image (frames ++ more) = image frames ++ Frame.flat more := by
  rw [image, image, Frame.flat_append, List.append_assoc]

theorem image_nil : image [] = header := List.append_nil _

theorem take_header (rest : Bytes) : (header ++ rest).take 8 = JOURNAL_MAGIC := by
  rw [header, List.append_assoc, ← JOURNAL_MAGIC_length, List.take_left]

theorem version_header (rest : Bytes) :
    toU32 (Bytes.slice (header ++ rest) 8 4) = JOURNAL_FORMAT_VERSION := by
  have h := slice_middle JOURNAL_MAGIC (ofU32 JOURNAL_FORMAT_VERSION) rest
  rw [JOURNAL_MAGIC_length, length_ofU32] at h
  rw [header, List.append_assoc, h, toU32_ofU32]

/-! ## Reading entries -/

/-- One turn of the loop, behind any front part. -/
theorem entriesFrom_succ (front rest : Bytes) (fuel : Nat) :
    entriesFrom (front ++ rest) (fuel + 1) front.length =
      match Frame.nextFrame 0 rest with
      | none => .ok ([], front.length)
      | some (f, _) =>
        match Codec.decode f.payload with
        | none => .error (.format (.entryDoesNotDecode front.length))
        | some batch =>
          match entriesFrom (front ++ rest) fuel (front.length + f.bytes.length) with
          | .error e => .error e
          | .ok (batches, complete) => .ok (batch :: batches, complete) := by
  have hWindow : ∀ start len, window (front ++ rest) (front.length + start) len =
      window rest start len := window_append_right front rest
  have hFirst := hWindow 0 4
  rw [Nat.add_zero] at hFirst
  rw [entriesFrom, hFirst]
  cases hNext : Frame.nextFrame 0 rest with
  | none =>
    unfold Frame.nextFrame at hNext
    split at hNext
    · next hHead =>
      rw [window_eq_some hHead]
      dsimp only
      rw [hWindow]
      split at hNext
      · cases hNext
      · next hLen => rw [window_eq_none (by omega)]
    · next hHead => rw [window_eq_none (by omega)]
  | some found =>
    obtain ⟨f, rest'⟩ := found
    obtain rfl := Frame.eq_of_nextFrame hNext
    have hLen := f.length_bytes
    have hTotal : (f.bytes ++ rest').length = 4 + f.payload.length + rest'.length := by
      rw [List.length_append, hLen, Nat.zero_add]
    have hPayload : Bytes.slice (f.bytes ++ rest') 4 f.payload.length = f.payload := by
      have h := slice_middle (f.tag ++ leBytes 4 f.payload.length) f.payload rest'
      rw [List.length_append, f.length_tag, length_leBytes] at h
      simpa only [Frame.bytes, List.append_assoc] using h
    rw [window_eq_some (by omega), Frame.lengthField_append]
    dsimp only
    rw [leValue_leBytes f.length_payload, hWindow, window_eq_some (by omega), hPayload]
    have hPos : front.length + 4 + f.payload.length = front.length + f.bytes.length := by omega
    rw [hPos]

/-- **What a reader sees of a journal.** The batches of the complete entries. -/
theorem entriesFrom_flat {frames : List (Frame 0)} {batches : List Batch}
    (h : List.Forall₂ Encodes frames batches) {tail : Bytes} (hTail : Frame.nextFrame 0 tail = none)
    (front : Bytes) {fuel : Nat} (hFuel : frames.length ≤ fuel) :
    entriesFrom (front ++ (Frame.flat frames ++ tail)) fuel front.length =
      .ok (batches, front.length + (Frame.flat frames).length) := by
  induction h generalizing front fuel with
  | nil =>
    cases fuel with
    | zero => rfl
    | succ fuel =>
      rw [Frame.flat_nil, List.nil_append, entriesFrom_succ, hTail]
      rfl
  | @cons f batch frames batches hf hRest ih =>
    cases fuel with
    | zero => cases hFuel
    | succ fuel =>
      have hIh := ih (front ++ f.bytes) (Nat.le_of_succ_le_succ hFuel)
      rw [List.append_assoc, List.length_append] at hIh
      rw [Frame.flat_cons, List.append_assoc, entriesFrom_succ, Frame.nextFrame_append]
      simp only [hf.decode, hIh, List.length_append, Nat.add_assoc]

theorem entriesFrom_image {frames : List (Frame 0)} {batches : List Batch}
    (h : List.Forall₂ Encodes frames batches) {tail : Bytes}
    (hTail : Frame.nextFrame 0 tail = none) :
    entriesFrom (image frames ++ tail) (image frames ++ tail).length HEADER_LEN =
      .ok (batches, (image frames).length) := by
  have hFuel : frames.length ≤ (image frames ++ tail).length := by
    have := Frame.length_le_flat frames
    rw [List.length_append, length_image]
    omega
  have hRead := entriesFrom_flat h hTail header hFuel
  rw [← List.append_assoc, header_length] at hRead
  rw [length_image]
  exact hRead

/-! ## Rules -/

section Rules

variable {S : Type} {s : S} {d : Disk} {A C : Stop JournalError → S → Disk → Prop} {path : Path}
variable {frames : List (Frame 0)} {batches : List Batch} {tail : Bytes}

/-- A journal that is missing or empty is created. -/
theorem wp_openJournal_fresh {Q : BatchJournal × List Batch → S → Disk → Prop}
    (hFile : d path = none ∨ d path = some [])
    (hOk : Q (⟨path, HEADER_LEN⟩, []) s (Function.update d path (some (image []))))
    (hStop : ∀ e, C e s d)
    (hTorn : ∀ e n, C e s (Function.update d path (some (header.take n)))) :
    Method.wp (openJournal path) s d Q A C := by
  have hEmpty : (d path).getD [] = [] := by
    rcases hFile with h | h <;> rw [h] <;> rfl
  refine Method.wp_bind (Method.wp_openOrCreate ?_ hStop)
  rw [hEmpty]
  have hSelf : ∀ bs : Bytes, Function.update d path (some bs) path = some bs :=
    fun _ => Function.update_self ..
  have hExtend : ∀ bs more : Bytes, Disk.extend (Function.update d path (some bs)) path more =
      Function.update d path (some (bs ++ more)) := by
    intro bs more
    rw [Disk.extend, hSelf, Option.map_some, Function.update_idem]
  refine Method.wp_bind (Method.wp_readFile (fun bytes hBytes => ?_)
    (fun hNone => absurd (hNone.symm.trans (hSelf [])) (by simp)) (fun e => hTorn e 0))
  rw [hSelf, Option.some.injEq] at hBytes
  subst hBytes
  rw [if_pos List.isEmpty_nil]
  have hMagic : ∀ n, JOURNAL_MAGIC.take n = header.take (min n 8) := by
    intro n
    rw [header, List.take_append_of_le_length (by rw [JOURNAL_MAGIC_length]; omega),
      ← JOURNAL_MAGIC_length, ← List.take_take, List.take_length]
  have hWhole : ∀ n, JOURNAL_MAGIC ++ (ofU32 JOURNAL_FORMAT_VERSION).take n =
      header.take (8 + n) := by
    intro n
    rw [header, ← JOURNAL_MAGIC_length, List.take_length_add_append]
  refine Method.wp_bind (Method.wp_appendAll ?_ (fun n e => ?_))
  · rw [hExtend, List.nil_append]
    refine Method.wp_bind (Method.wp_appendAll ?_ (fun n e => ?_))
    · rw [hExtend]
      refine Method.wp_bind (Method.wp_sync (Method.wp_pure ?_) (fun e => ?_))
      · rw [image_nil] at hOk
        exact hOk
      · have h := hTorn e header.length
        rwa [List.take_length] at h
    · rw [hExtend, hWhole]
      exact hTorn e _
  · rw [hExtend, List.nil_append, hMagic]
    exact hTorn e _

/-- **Opening.** The complete entries are returned, and the tail behind them is cut off. -/
theorem wp_openJournal (hBatches : List.Forall₂ Encodes frames batches)
    (hTail : Frame.nextFrame 0 tail = none) (hFile : d path = some (image frames ++ tail))
    {Q : BatchJournal × List Batch → S → Disk → Prop}
    (hOk : Q (⟨path, (image frames).length⟩, batches) s
      (Function.update d path (some (image frames))))
    (hStop : ∀ e, C e s d) (hCut : ∀ e, C e s (Function.update d path (some (image frames)))) :
    Method.wp (openJournal path) s d Q A C := by
  have hLen : (image frames ++ tail).length = (image frames).length + tail.length :=
    List.length_append
  have hHeader : HEADER_LEN ≤ (image frames).length := by
    rw [length_image]
    omega
  have hParts : image frames ++ tail = header ++ (Frame.flat frames ++ tail) := List.append_assoc ..
  have hCreated : Function.update d path (some ((d path).getD [])) = d := by
    rw [hFile]
    exact Function.update_eq_self_iff.mpr hFile.symm
  refine Method.wp_bind (Method.wp_openOrCreate ?_ hStop)
  rw [hCreated]
  refine Method.wp_bind (Method.wp_readFile (fun bytes hBytes => ?_)
    (fun hNone => absurd (hNone.symm.trans hFile) (by simp)) hStop)
  rw [hFile, Option.some.injEq] at hBytes
  subst hBytes
  rw [if_neg, if_neg, if_neg]
  · refine Method.wp_bind (Method.wp_ofExcept (fun found hFound => ?_) (fun e hError => ?_))
    · rw [entriesFrom_image hBatches hTail, Except.ok.injEq] at hFound
      subst hFound
      dsimp only
      split
      · refine Method.wp_bind (Method.wp_setLen ?_ hStop)
        rw [hFile, Option.map_some, List.take_left, hLen, Nat.sub_eq_zero_of_le (by omega),
          List.replicate_zero, List.append_nil]
        exact Method.wp_bind (Method.wp_sync (Method.wp_pure hOk) hCut)
      · next hSame =>
        have hNil : tail = [] := by
          rw [← List.length_eq_zero_iff]
          omega
        rw [hNil, List.append_nil] at hFile
        rw [← hFile, Function.update_eq_self] at hOk
        exact Method.wp_pure hOk
    · rw [entriesFrom_image hBatches hTail] at hError
      cases hError
  · rw [hParts, version_header]
    exact fun h => h rfl
  · rw [hParts, take_header, ← hParts]
    rintro (h | h)
    · omega
    · exact h rfl
  · rw [List.isEmpty_iff_length_eq_zero]
    unfold HEADER_LEN at hHeader
    omega

end Rules

section Rules

variable {j : BatchJournal} {d : Disk} {A C : Stop JournalError → BatchJournal → Disk → Prop}

/-- **Appending.** The frame is added at the end; stopped, a part of it is. -/
theorem wp_appendUnsynced {batch : Batch} {Q : Unit → BatchJournal → Disk → Prop}
    (hOk : ∀ f, Encodes f batch → Q () ⟨j.path, j.len + f.bytes.length⟩ (d.extend j.path f.bytes))
    (hRefused : (∀ f, ¬ Encodes f batch) → ∀ e, e ≠ .crash → A e j d)
    (hTorn : ∀ f e n, Encodes f batch → C e j (d.extend j.path (f.bytes.take n))) :
    Method.wp (appendUnsynced batch) j d Q A C := by
  unfold appendUnsynced
  split
  · next hNone =>
    refine Method.wp_fail (hRefused (fun f hf => ?_) _ (by simp))
    rw [Encodes, hNone] at hf
    cases hf
  · next payload hSome =>
    split
    · next hLen =>
      have hf : Encodes (entryFrame payload hLen) batch := hSome
      have hBytes := bytes_entryFrame payload hLen
      have hExtend : ∀ bs more, (d.extend j.path bs).extend j.path more =
          d.extend j.path (bs ++ more) := by
        intro bs more
        rw [Disk.extend, Disk.extend_self, Disk.extend, Disk.extend, Function.update_idem,
          Option.map_map]
        congr 2
        funext old
        exact List.append_assoc ..
      refine Method.wp_bind (Method.wp_self (Method.wp_bind (Method.wp_appendAll ?_ fun n e => ?_)))
      · refine Method.wp_bind (Method.wp_appendAll ?_ fun n e => ?_)
        · rw [hExtend, ← hBytes]
          refine Method.wp_modifySelf ?_
          have hOk := hOk _ hf
          rwa [Frame.length_bytes, Nat.zero_add] at hOk
        · rw [hExtend]
          have hTorn := hTorn _ e (4 + n) hf
          rwa [hBytes, List.take_append, length_leBytes, Nat.add_sub_cancel_left,
            List.take_of_length_le (by rw [length_leBytes]; omega)] at hTorn
      · have hTorn := hTorn _ e (min n 4) hf
        rwa [hBytes, List.take_append_of_le_length (by rw [length_leBytes]; omega),
          ← List.take_take,
          List.take_of_length_le (by rw [length_leBytes] : (leBytes 4 payload.length).length ≤ 4)]
          at hTorn
    · next hLen =>
      refine Method.wp_fail (hRefused (fun f hf => hLen ?_) _ (by simp))
      rw [Encodes, hSome, Option.some.injEq] at hf
      rw [hf]
      exact f.length_payload

/-- **Truncating.** Only the header is left; `len` says so once the sync went through. -/
theorem wp_truncate {Q : Unit → BatchJournal → Disk → Prop} {frames : List (Frame 0)} {tail : Bytes}
    (hFile : d j.path = some (image frames ++ tail))
    (hOk : Q () ⟨j.path, HEADER_LEN⟩ (Function.update d j.path (some (image []))))
    (hSame : ∀ e, C e j d)
    (hCut : ∀ e, C e j (Function.update d j.path (some (image [])))) :
    Method.wp truncate j d Q A C := by
  have hTake : (image frames ++ tail).take HEADER_LEN = image [] := by
    rw [image_nil, image, List.append_assoc, ← header_length, List.take_left]
  have hZero : HEADER_LEN - (image frames ++ tail).length = 0 := by
    rw [List.length_append, length_image]
    omega
  refine Method.wp_bind (Method.wp_self (Method.wp_bind (Method.wp_setLen ?_ hSame)))
  rw [hFile, Option.map_some, hTake, hZero, List.replicate_zero, List.append_nil]
  exact Method.wp_bind (Method.wp_sync (Method.wp_modifySelf hOk) hCut)

end Rules

end BatchJournal

end MultimodalDb
