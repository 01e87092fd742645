import MultimodalDb.Generic.InsertLog
import Mathlib.Data.List.Forall2

/-!
# Rules for the insert log

What each operation on the log does to the file, for every plan of failures, and the abstract view a
store takes of it: `Holds tag entries file` says that the file is a whole log of exactly these
entries, or missing when there are none. On such a file an append adds its entry at the end
(`wp_append`) and a read returns the entries in order (`wp_readEntries`).
-/

namespace MultimodalDb

open Bytes GenericRecordBlob

namespace InsertLog

/-! ## Appending to the file -/

section Files

variable {S : Type} {s : S} {d : Disk} {A C : Stop DurabilityError → S → Disk → Prop}
variable {log : Path} {tag : String} {kind : UInt8} {payload : Bytes}

/-- What an append writes: the entry, after a header when the file is empty. -/
def appended (tag : String) (file : Option Bytes) (kind : UInt8) (payload : Bytes) : Bytes :=
  (if (file.getD []).length = 0 then headed LOG_VERSION tag [] else []) ++ entryBytes kind payload

theorem wp_onDiskVersion {Q : Option UInt32 → S → Disk → Prop}
    (hOk : Q (declaredVersion (d log)) s d) (hStop : ∀ e, C e s d) :
    Method.wp (onDiskVersion log) s d Q A C :=
  Method.wp_bind (Method.wp_readIfPresent (Method.wp_pure hOk) hStop)

/-- A log that is not of version 1 is left alone. -/
theorem wp_upgradeIfVersion1_of_ne {Q : Unit → S → Disk → Prop}
    (hVersion : declaredVersion (d log) ≠ some LOG_VERSION_1) (hOk : Q () s d)
    (hStop : ∀ e, C e s d) : Method.wp (upgradeIfVersion1 log tag) s d Q A C := by
  refine Method.wp_bind (wp_onDiskVersion ?_ hStop)
  rw [if_neg hVersion]
  exact Method.wp_pure hOk

/-- An append adds its bytes at the end of the file; stopped, it has added a prefix of them. -/
theorem wp_appendEntry {Q : Unit → S → Disk → Prop}
    (hVersion : declaredVersion (d log) ≠ some LOG_VERSION_1)
    (hOk : payload.length < 2 ^ 32 →
      Q () s (Function.update d log (some ((d log).getD [] ++ appended tag (d log) kind payload))))
    (hLong : ¬ payload.length < 2 ^ 32 → A (.error (.io .invalidInput)) s d)
    (hSame : ∀ e, C e s d)
    (hStop : ∀ e n, C e s (Function.update d log
      (some ((d log).getD [] ++ (appended tag (d log) kind payload).take n)))) :
    Method.wp (appendEntry log tag kind payload) s d Q A C := by
  unfold appendEntry
  split
  · next hLen =>
    have hEmpty : ∀ bs, Function.update d log (some bs) log = some bs :=
      fun _ => Function.update_self ..
    refine Method.wp_bind (wp_upgradeIfVersion1_of_ne hVersion ?_ hSame)
    refine Method.wp_bind (Method.wp_openOrCreate ?_ hSame)
    have hCreated : ∀ e, C e s (Function.update d log (some ((d log).getD []))) := fun e => by
      simpa using hStop e 0
    refine Method.wp_bind (Method.wp_fileLen ?_ hCreated)
    rw [hEmpty, Option.getD_some]
    have hExtend : ∀ bytes, Disk.extend (Function.update d log (some ((d log).getD []))) log bytes =
        Function.update d log (some ((d log).getD [] ++ bytes)) := fun bytes => by
      rw [Disk.extend, hEmpty, Option.map_some, Function.update_idem]
    refine Method.wp_bind (Method.wp_appendAll ?_ (fun n e => ?_))
    · rw [hExtend]
      refine Method.wp_sync (hOk hLen) (fun e => ?_)
      have hFull := hStop e (appended tag (d log) kind payload).length
      rwa [List.take_length] at hFull
    · rw [hExtend]
      exact hStop e n
  · next hLen => exact Method.wp_fail (hLong hLen)

end Files

/-! ## Logs as lists of entries -/

section Entries

variable {T K : Type} [Serde T] [Serde K]

/-- The kind byte of an entry. -/
def kindOf : LogEntry T K → UInt8
  | .item _ => KIND_ITEM
  | .tombstone _ => KIND_TOMBSTONE

/-- The payload of an entry, when it can be encoded. -/
def payloadOf : LogEntry T K → Option Bytes
  | .item value => Codec.encode value
  | .tombstone key => Codec.encode key

/-- Append an entry of either kind. -/
def append {S : Type} (log : Path) (tag : String) : LogEntry T K → Method S DurabilityError Unit
  | .item value => appendItem log tag value
  | .tombstone key => appendTombstone log tag key

theorem append_of_payload {S : Type} {entry : LogEntry T K} {payload : Bytes}
    (h : payloadOf entry = some payload) (log : Path) (tag : String) :
    append (S := S) log tag entry = appendEntry log tag (kindOf entry) payload := by
  cases entry with
  | item value =>
    change Codec.encode value = some payload at h
    simp only [append, appendItem, h, kindOf]
  | tombstone key =>
    change Codec.encode key = some payload at h
    simp only [append, appendTombstone, h, kindOf]

theorem append_of_unencodable {S : Type} {entry : LogEntry T K} (h : payloadOf entry = none)
    (log : Path) (tag : String) : append (S := S) log tag entry = Method.fail .serde := by
  cases entry with
  | item value =>
    change Codec.encode value = none at h
    simp only [append, appendItem, h]
  | tombstone key =>
    change Codec.encode key = none at h
    simp only [append, appendTombstone, h]

/-- A frame that encodes an entry. -/
def Encodes (f : Frame 1) (entry : LogEntry T K) : Prop :=
  f.tag = [kindOf entry] ∧ payloadOf entry = some f.payload

/-- A file that is a whole log of exactly these entries. -/
def Holds (tag : String) (entries : List (LogEntry T K)) (file : Option Bytes) : Prop :=
  (file = none ∧ entries = []) ∨
    ∃ frames, file = some (logImage tag frames) ∧ List.Forall₂ Encodes frames entries

theorem holds_none (tag : String) : Holds tag ([] : List (LogEntry T K)) none :=
  Or.inl ⟨rfl, rfl⟩

theorem Holds.encodable {tag : String} {entries : List (LogEntry T K)} {file : Option Bytes}
    (h : Holds tag entries file) : ∀ entry ∈ entries, (payloadOf entry).isSome := by
  rcases h with ⟨-, rfl⟩ | ⟨frames, -, hFrames⟩
  · simp
  · induction hFrames with
    | nil => simp
    | cons hEncodes _ ih =>
      intro entry hMem
      rcases List.mem_cons.mp hMem with rfl | hMem
      · rw [hEncodes.2]
        rfl
      · exact ih entry hMem

/-- A file that reads as exactly these entries: part of another may follow them. -/
def Reads (tag : String) (entries : List (LogEntry T K)) (file : Option Bytes) : Prop :=
  (file = none ∧ entries = []) ∨
    ∃ frames tail, file = some (logImage tag frames ++ tail) ∧ Frame.nextFrame 1 tail = none ∧
      List.Forall₂ Encodes frames entries

theorem Holds.reads {tag : String} {entries : List (LogEntry T K)} {file : Option Bytes}
    (h : Holds tag entries file) : Reads tag entries file := by
  rcases h with hNone | ⟨frames, hFile, hFrames⟩
  · exact Or.inl hNone
  · exact Or.inr ⟨frames, [], by rw [hFile, List.append_nil], by simp [Frame.nextFrame], hFrames⟩

theorem Reads.declaredVersion_ne {tag : String} {entries : List (LogEntry T K)}
    {file : Option Bytes}
    (h : Reads tag entries file) : declaredVersion file ≠ some LOG_VERSION_1 := by
  rcases h with ⟨rfl, -⟩ | ⟨frames, tail, rfl, -⟩
  · simp [declaredVersion]
  · rw [logImage, headed_append, declaredVersion_headed]
    decide

theorem Holds.declaredVersion_ne {tag : String} {entries : List (LogEntry T K)}
    {file : Option Bytes}
    (h : Holds tag entries file) : declaredVersion file ≠ some LOG_VERSION_1 :=
  h.reads.declaredVersion_ne

/-- The file after an append that ran to its end. -/
theorem Holds.snoc {tag : String} {entries : List (LogEntry T K)} {file : Option Bytes}
    (h : Holds tag entries file) {entry : LogEntry T K} {payload : Bytes}
    (hPayload : payloadOf entry = some payload) (hLen : payload.length < 2 ^ 32) :
    Holds tag (entries ++ [entry])
      (some (file.getD [] ++ appended tag file (kindOf entry) payload)) := by
  have hFrame : Encodes (entryFrame (kindOf entry) payload hLen) entry := ⟨rfl, hPayload⟩
  refine Or.inr ?_
  rcases h with ⟨rfl, rfl⟩ | ⟨frames, rfl, hFrames⟩
  · refine ⟨[entryFrame (kindOf entry) payload hLen], ?_, .cons hFrame .nil⟩
    simp [appended, logImage, headed_append, bytes_entryFrame]
  · refine ⟨frames ++ [entryFrame (kindOf entry) payload hLen], ?_,
      List.rel_append hFrames (.cons hFrame .nil)⟩
    have hLong : ¬ (logImage tag frames).length = 0 := by
      rw [logImage, length_headed]
      exact Nat.ne_of_gt (Nat.add_pos_left (by decide) _)
    rw [appended, Option.getD_some, if_neg hLong, List.nil_append, logImage, logImage,
      headed_append, Frame.flat_append, Frame.flat_cons, Frame.flat_nil, List.append_nil,
      bytes_entryFrame]

theorem decodeEntry_of_encodes {f : Frame 1} {entry : LogEntry T K} (h : Encodes f entry)
    (log : Path) (index : Nat) :
    decodeEntry log index (f.tag.headD KIND_ITEM) f.payload = .ok entry := by
  obtain ⟨hTag, hPayload⟩ := h
  unfold decodeEntry
  cases entry with
  | item value => simp [hTag, kindOf, Codec.decode_eq_some.mpr hPayload]
  | tombstone key =>
    have hKind : KIND_TOMBSTONE ≠ KIND_ITEM := by decide
    simp [hTag, kindOf, hKind, Codec.decode_eq_some.mpr hPayload]

theorem decodeEntries_of_encodes {frames : List (Frame 1)} {entries : List (LogEntry T K)}
    (h : List.Forall₂ Encodes frames entries) (log : Path) (index : Nat) :
    decodeEntries log index (frames.map rawOfFrame) = .ok entries := by
  induction h generalizing index with
  | nil => rfl
  | cons hEncodes _ ih =>
    simp only [List.map_cons, rawOfFrame, decodeEntries, decodeEntry_of_encodes hEncodes]
    simp only [ih]

/-- The version a reader takes a file for. -/
def versionOf (file : Option Bytes) : UInt32 :=
  if declaredVersion file = some LOG_VERSION_1 then LOG_VERSION_1 else LOG_VERSION

/-- What a file holds for a reader. -/
def entriesOf (log : Path) (tag : String) :
    Option Bytes → Except DurabilityError (List (LogEntry T K))
  | none => .ok []
  | some bytes =>
    match parseTaggedHeader bytes MAGIC (versionOf (some bytes)) tag with
    | .error cause => .error (.recordBlobUnreadable log cause)
    | .ok _ => decodeEntries log 0 (rawEntries bytes (versionOf (some bytes)))

section Rules

variable {S : Type} {s : S} {d : Disk} {A C : Stop DurabilityError → S → Disk → Prop}
variable {log : Path} {tag : String} {entries : List (LogEntry T K)}

/-- Reading a log returns its complete entries, whatever torn bytes follow them. -/
theorem wp_readEntries_image {Q : List (LogEntry T K) → S → Disk → Prop} {frames : List (Frame 1)}
    {tail : Bytes} (hFile : d log = some (logImage tag frames ++ tail))
    (hTail : Frame.nextFrame 1 tail = none) (hFrames : List.Forall₂ Encodes frames entries)
    (hOk : Q entries s d) (hStop : ∀ e, C e s d) :
    Method.wp (readEntries log tag) s d Q A C := by
  have hRaw := rawEntries_logImage tag frames hTail
  have hNe : some LOG_VERSION ≠ some LOG_VERSION_1 := by decide
  refine Method.wp_bind (Method.wp_bind (Method.wp_readIfPresent ?_ hStop))
  rw [hFile]
  refine Method.wp_bind (wp_onDiskVersion ?_ hStop)
  rw [hFile, logImage, headed_append, declaredVersion_headed, if_neg hNe]
  dsimp only
  rw [parseTaggedHeader_headed]
  rw [logImage, headed_append] at hRaw
  simp only [hRaw]
  refine Method.wp_pure (Method.wp_ofExcept (fun a ha => ?_) (fun e he => ?_))
  · rw [decodeEntries_of_encodes hFrames] at ha
    cases ha
    exact hOk
  · rw [decodeEntries_of_encodes hFrames] at he
    cases he

theorem wp_readEntries_none {Q : List (LogEntry T K) → S → Disk → Prop}
    (hFile : d log = none) (hOk : Q [] s d) (hStop : ∀ e, C e s d) :
    Method.wp (readEntries log tag) s d Q A C := by
  refine Method.wp_bind (Method.wp_bind (Method.wp_readIfPresent ?_ hStop))
  rw [hFile]
  exact Method.wp_pure (Method.wp_pure hOk)

/-- Reading a log returns the entries it reads as. -/
theorem wp_readEntries_reads {Q : List (LogEntry T K) → S → Disk → Prop}
    (hReads : Reads tag entries (d log)) (hOk : Q entries s d) (hStop : ∀ e, C e s d) :
    Method.wp (readEntries log tag) s d Q A C := by
  rcases hReads with ⟨hFile, rfl⟩ | ⟨frames, tail, hFile, hTail, hFrames⟩
  · exact wp_readEntries_none hFile hOk hStop
  · exact wp_readEntries_image hFile hTail hFrames hOk hStop

/-- Reading a whole log returns its entries. -/
theorem wp_readEntries {Q : List (LogEntry T K) → S → Disk → Prop}
    (hHolds : Holds tag entries (d log)) (hOk : Q entries s d) (hStop : ∀ e, C e s d) :
    Method.wp (readEntries log tag) s d Q A C :=
  wp_readEntries_reads hHolds.reads hOk hStop

/-- Reading any file returns what it holds or refuses it, and changes nothing. -/
theorem wp_readEntries_any {Q : List (LogEntry T K) → S → Disk → Prop}
    (hOk : ∀ entries, entriesOf log tag (d log) = .ok entries → Q entries s d)
    (hRefused : ∀ e, A (.error e) s d) (hStop : ∀ e, C e s d) :
    Method.wp (readEntries log tag) s d Q A C := by
  refine Method.wp_bind (Method.wp_bind (Method.wp_readIfPresent ?_ hStop))
  cases hFile : d log with
  | none =>
    refine Method.wp_pure (Method.wp_ofExcept (fun entries hEntries => hOk entries ?_) fun e _ =>
      hRefused e)
    rw [hFile]
    exact hEntries
  | some bytes =>
    refine Method.wp_bind (wp_onDiskVersion ?_ hStop)
    rw [hFile]
    cases hHeader : parseTaggedHeader bytes MAGIC (versionOf (some bytes)) tag with
    | error cause =>
      rw [versionOf] at hHeader
      simp only [hHeader]
      exact Method.wp_fail (hRefused _)
    | ok fingerprint =>
      have hHeader' := hHeader
      rw [versionOf] at hHeader'
      simp only [hHeader']
      refine Method.wp_pure (Method.wp_ofExcept (fun entries hEntries => hOk entries ?_) fun e _ =>
        hRefused e)
      rw [hFile, entriesOf]
      simp only [hHeader]
      exact hEntries

/-- Appending to a whole log adds the entry at its end. An entry that cannot be encoded, or is too
long for its length prefix, is refused with nothing written. -/
theorem wp_append {Q : Unit → S → Disk → Prop} (entry : LogEntry T K)
    (hHolds : Holds tag entries (d log))
    (hOk : ∀ file, Holds tag (entries ++ [entry]) file → Q () s (Function.update d log file))
    (hRefused : ∀ e, A (.error e) s d)
    (hSame : ∀ e, C e s d)
    (hStop : ∀ e payload n, payloadOf entry = some payload →
      C e s (Function.update d log
        (some ((d log).getD [] ++ (appended tag (d log) (kindOf entry) payload).take n)))) :
    Method.wp (append log tag entry) s d Q A C := by
  cases hPayload : payloadOf entry with
  | none =>
    rw [append_of_unencodable hPayload]
    exact Method.wp_fail (hRefused _)
  | some payload =>
    rw [append_of_payload hPayload]
    exact wp_appendEntry hHolds.declaredVersion_ne
      (fun hLen => hOk _ (hHolds.snoc hPayload hLen)) (fun _ => hRefused _) hSame
      (fun e n => hStop e payload n hPayload)

theorem wp_clear {Q : Unit → S → Disk → Prop}
    (hOk : Q () s (Function.update d log none)) (hStop : ∀ e, C e s d) :
    Method.wp (clear log) s d Q A C :=
  Method.wp_removeIfPresent hOk hStop

end Rules

end Entries

end InsertLog

end MultimodalDb
