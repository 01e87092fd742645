import MultimodalDb.Generic.InsertLogRules
import MultimodalDb.Generic.OrderCustomer

/-!
# Torn insert logs

Two ways a log ends inside an entry: a crash cuts the file, or an append fails after part of its
bytes and the process goes on.

A cut is harmless from the header on. The reader returns exactly the entries wholly before it
(`readEntries_cut`); a file too short for its header is refused.

A failed append is harmless only while nothing is appended behind it. There is nothing to
resynchronise on, so the next entry is read as the missing bytes of the torn one, and an append that
was acknowledged is lost (`torn_append_loses_a_later_entry`). As long as every append that writes
starts on a whole log, and the header of a new one is written whole or not at all, every
acknowledged entry is read back (`acknowledged_entries_are_read`).
-/

namespace MultimodalDb

open Bytes GenericRecordBlob

namespace InsertLog

variable {T K : Type} [Serde T] [Serde K]

/-! ## Attempts that may fail -/

/-- An attempt to append, and for a failing one how many of its bytes got written. -/
structure Attempt (T K : Type) where
  entry : LogEntry T K
  cut : Option Nat

/-- What the I/O calls of an attempt do: the fourth writes the entry. -/
def Attempt.plan (a : Attempt T K) : List Outcome :=
  a.cut.elim [] (fun n => [.done, .done, .done, .failed n])

/-- One attempt: whether it was acknowledged, and the disk it leaves. -/
def tryAppend (log : Path) (tag : String) (d : Disk) (a : Attempt T K) : Bool × Disk :=
  match append (S := Unit) log tag a.entry ⟨(), d, a.plan⟩ with
  | .ok _ p => (true, p.disk)
  | .error _ p => (false, p.disk)

/-- The acknowledged entries, in order, and the disk at the end. -/
def runAttempts (log : Path) (tag : String) : Disk → List (Attempt T K) → List (LogEntry T K) × Disk
  | d, [] => ([], d)
  | d, a :: rest =>
    let (acknowledged, d') := tryAppend log tag d a
    let (more, d'') := runAttempts log tag d' rest
    (if acknowledged then a.entry :: more else more, d'')

/-- The entries a reader finds in the log. -/
def entriesAt (log : Path) (tag : String) (d : Disk) : Option (List (LogEntry T K)) :=
  Method.value (readEntries (S := Unit) log tag ⟨(), d, []⟩)

/-- Every acknowledged entry is read back, in order, and nothing that was never attempted. -/
def AcknowledgedSurvive (log : Path) (tag : String) (d : Disk) (attempts : List (Attempt T K)) :
    Prop :=
  ∃ entries, entriesAt log tag (runAttempts log tag d attempts).2 = some entries ∧
    (runAttempts log tag d attempts).1.Sublist entries ∧
    ∀ entry ∈ entries, ∃ a ∈ attempts, a.entry = entry

/-- A missing log, or one that ends with a complete entry. -/
def WholeLog (tag : String) (file : Option Bytes) : Prop :=
  file = none ∨ ∃ frames, file = some (logImage tag frames)

/-- An attempt that a log withstands: it writes nothing, or behind a complete entry, or into a log
without a byte; there a write that fails gets past the header. -/
def Withstands (tag : String) (file : Option Bytes) (cut : Option Nat) : Prop :=
  cut = some 0 ∨ (file.getD [] = [] ∧ ∀ n, cut = some n → TAGGED_HEADER_LEN ≤ n) ∨
    ∃ frames, file = some (logImage tag frames)

/-- Every attempt is one that the log withstands, and the file that is read in the end is not one
without a byte. -/
def WithstandsAll (log : Path) (tag : String) : Disk → List (Attempt T K) → Prop
  | d, [] => d log ≠ some []
  | d, a :: rest =>
    Withstands tag (d log) a.cut ∧ WithstandsAll log tag (tryAppend log tag d a).2 rest

/-- An append whose write fails after `n` bytes leaves exactly these. -/
theorem appendEntry_torn {log : Path} {tag : String} {kind : UInt8} {payload : Bytes} {d : Disk}
    (hVersion : declaredVersion (d log) ≠ some LOG_VERSION_1) (hLen : payload.length < 2 ^ 32)
    (n : Nat) :
    appendEntry (S := Unit) log tag kind payload ⟨(), d, [.done, .done, .done, .failed n]⟩ =
      .error (.error (.io .other)) ⟨(), Function.update d log
        (some ((d log).getD [] ++ (appended tag (d log) kind payload).take n)), []⟩ := by
  have hExtend : ∀ bytes, Disk.extend (Function.update d log (some ((d log).getD []))) log bytes =
      Function.update d log (some ((d log).getD [] ++ bytes)) := fun bytes => by
    rw [Disk.extend, Function.update_self, Option.map_some, Function.update_idem]
  unfold appendEntry
  rw [if_pos hLen]
  simp only [upgradeIfVersion1, onDiskVersion, Method.readIfPresent, Method.openOrCreate,
    Method.fileLen, Method.appendAll, Method.call, bind, EStateM.bind, pure, EStateM.pure,
    hVersion, if_false, Function.update_self, Option.getD_some, List.tail_cons, hExtend]
  rfl

/-- The bytes that an attempt adds. -/
def Attempt.written (a : Attempt T K) (tag : String) (file : Option Bytes)
    (payload : Bytes) : Bytes :=
  a.cut.elim (appended tag file (kindOf a.entry) payload)
    (appended tag file (kindOf a.entry) payload).take

/-- **One attempt** is refused before its write, or adds its bytes, and is acknowledged when these
are all. -/
theorem tryAppend_cases {log : Path} {d : Disk}
    (hVersion : declaredVersion (d log) ≠ some LOG_VERSION_1) (tag : String) (a : Attempt T K) :
    tryAppend log tag d a = (false, d) ∨ ∃ payload, payloadOf a.entry = some payload ∧
      payload.length < 2 ^ 32 ∧ tryAppend log tag d a = (a.cut.isNone,
        Function.update d log (some ((d log).getD [] ++ a.written tag (d log) payload))) := by
  obtain ⟨entry, cut⟩ := a
  unfold tryAppend
  cases hPayload : payloadOf entry with
  | none =>
    rw [append_of_unencodable hPayload]
    exact Or.inl rfl
  | some payload =>
    rw [append_of_payload hPayload]
    by_cases hLen : payload.length < 2 ^ 32
    · refine Or.inr ⟨payload, rfl, hLen, ?_⟩
      cases cut with
      | none =>
        have hwp : Method.wp (appendEntry (S := Unit) log tag (kindOf entry) payload) () d
            (fun _ _ d' => d' = Function.update d log
              (some ((d log).getD [] ++ appended tag (d log) (kindOf entry) payload)))
            (fun _ _ _ => False) (fun _ _ _ => True) :=
          wp_appendEntry hVersion (fun _ => rfl) (fun hLong => hLong hLen) (fun _ => trivial)
            (fun _ _ => trivial)
        obtain ⟨u, p, hRun, hDisk, -⟩ := Method.wp_total hwp
        rw [Attempt.plan, Option.elim_none, hRun]
        exact congrArg _ hDisk
      | some n =>
        rw [Attempt.plan, Option.elim_some, appendEntry_torn hVersion hLen n]
        rfl
    · refine Or.inl ?_
      unfold appendEntry
      rw [if_neg hLen]
      rfl

/-! ## Appending to whole logs -/

/-- A log whose complete entries contain every acknowledged one and only attempted ones. -/
def Readable (tag : String) (attempted acknowledged : List (LogEntry T K)) (file : Option Bytes) :
    Prop :=
  (file.getD [] = [] ∧ acknowledged = []) ∨
    ∃ frames tail entries, file = some (logImage tag frames ++ tail) ∧
      Frame.nextFrame 1 tail = none ∧ List.Forall₂ Encodes frames entries ∧
      acknowledged.Sublist entries ∧ ∀ entry ∈ entries, entry ∈ attempted

theorem Readable.of_holds {tag : String} {attempted acknowledged entries : List (LogEntry T K)}
    {file : Option Bytes} (hHolds : Holds tag entries file) (hSub : acknowledged.Sublist entries)
    (hMem : ∀ entry ∈ entries, entry ∈ attempted) : Readable tag attempted acknowledged file := by
  rcases hHolds with ⟨rfl, rfl⟩ | ⟨frames, rfl, hFrames⟩
  · exact Or.inl ⟨rfl, List.sublist_nil.mp hSub⟩
  · exact Or.inr ⟨frames, [], entries, by rw [List.append_nil], by simp [Frame.nextFrame], hFrames,
      hSub, hMem⟩

theorem Readable.mono {tag : String} {attempted attempted' acknowledged : List (LogEntry T K)}
    {file : Option Bytes} (h : Readable tag attempted acknowledged file)
    (hMore : ∀ entry ∈ attempted, entry ∈ attempted') :
    Readable tag attempted' acknowledged file := by
  rcases h with hEmpty | ⟨frames, tail, entries, hFile, hTail, hFrames, hSub, hMem⟩
  · exact Or.inl hEmpty
  · exact Or.inr ⟨frames, tail, entries, hFile, hTail, hFrames, hSub,
      fun entry hEntry => hMore entry (hMem entry hEntry)⟩

theorem declaredVersion_of_empty {file : Option Bytes} (h : file.getD [] = []) :
    declaredVersion file = none := by
  cases file with
  | none => rfl
  | some bytes =>
    obtain rfl : bytes = [] := h
    rfl

theorem Readable.declaredVersion_ne {tag : String} {attempted acknowledged : List (LogEntry T K)}
    {file : Option Bytes} (h : Readable tag attempted acknowledged file) :
    declaredVersion file ≠ some LOG_VERSION_1 := by
  rcases h with ⟨hEmpty, -⟩ | ⟨frames, tail, entries, hFile, hTail, hFrames, -⟩
  · rw [declaredVersion_of_empty hEmpty]
    exact nofun
  · have hReads : Reads tag entries file := Or.inr ⟨frames, tail, hFile, hTail, hFrames⟩
    exact hReads.declaredVersion_ne

/-- A file without a byte is appended to as a missing one. -/
theorem appended_of_empty {file : Option Bytes} (h : file.getD [] = []) (tag : String)
    (kind : UInt8)
    (payload : Bytes) : appended tag file kind payload = appended tag none kind payload := by
  unfold appended
  rw [h, Option.getD_none]

theorem logImage_inj {tag : String} {frames frames' : List (Frame 1)} {tail : Bytes}
    (hTail : Frame.nextFrame 1 tail = none)
    (h : logImage tag frames ++ tail = logImage tag frames') : frames = frames' := by
  have hDrop := congrArg (List.drop TAGGED_HEADER_LEN) h
  rw [logImage, headed_append, drop_headed, logImage, drop_headed] at hDrop
  have hScan := Frame.scan_frames frames hTail (Nat.le_add_right frames.length frames'.length)
  rw [hDrop, ← List.append_nil (Frame.flat frames'), Frame.scan_frames frames'
    (by simp [Frame.nextFrame]) (Nat.le_add_left ..)] at hScan
  exact hScan.symm

/-- A log that can be appended to holds a list of entries, or has no byte yet. -/
theorem Readable.holds {tag : String} {attempted acknowledged : List (LogEntry T K)}
    {frames : List (Frame 1)}
    (h : Readable tag attempted acknowledged (some (logImage tag frames))) :
    ∃ entries, Holds tag entries (some (logImage tag frames)) ∧ acknowledged.Sublist entries ∧
      ∀ entry ∈ entries, entry ∈ attempted := by
  rcases h with ⟨hEmpty, -⟩ | ⟨frames', tail, entries, hFile, hTail, hFrames, hSub, hMem⟩
  · have hLength := congrArg List.length hEmpty
    rw [Option.getD_some, logImage, length_headed] at hLength
    exact absurd hLength (Nat.ne_of_gt (Nat.add_pos_left (by decide) _))
  · obtain rfl := logImage_inj hTail (Option.some.inj hFile).symm
    exact ⟨entries, Or.inr ⟨frames', rfl, hFrames⟩, hSub, hMem⟩

/-- Part of an entry behind complete ones is torn, and the whole of it is one more. -/
theorem Readable.of_part {tag : String} {attempted acknowledged entries : List (LogEntry T K)}
    {frames : List (Frame 1)} (hFrames : List.Forall₂ Encodes frames entries)
    (hSub : acknowledged.Sublist entries) (hMem : ∀ entry ∈ entries, entry ∈ attempted)
    {f : Frame 1} {entry : LogEntry T K} (hf : Encodes f entry) (n : Nat) :
    Readable tag (attempted ++ [entry]) acknowledged
      (some (logImage tag frames ++ f.bytes.take n)) := by
  have hMem' : ∀ other ∈ entries, other ∈ attempted ++ [entry] := fun other hOther =>
    List.mem_append_left _ (hMem other hOther)
  refine Or.inr ?_
  by_cases hTorn : n < f.bytes.length
  · exact ⟨frames, f.bytes.take n, entries, rfl, Frame.nextFrame_take f hTorn, hFrames, hSub, hMem'⟩
  · refine ⟨frames ++ [f], [], entries ++ [entry], ?_, by simp [Frame.nextFrame],
      List.rel_append hFrames (.cons hf .nil), hSub.trans (List.sublist_append_left ..), ?_⟩
    · rw [List.take_of_length_le (by omega), List.append_nil, logImage, logImage, headed_append,
        Frame.flat_append, Frame.flat_cons, Frame.flat_nil, List.append_nil]
    · intro other hOther
      rcases List.mem_append.mp hOther with hOther | hOther
      · exact hMem' other hOther
      · exact List.mem_append_right _ hOther

/-- The bytes a failed write leaves behind a whole log are part of one entry. -/
theorem Holds.torn {tag : String} {entries : List (LogEntry T K)} {file : Option Bytes}
    (h : Holds tag entries file) {entry : LogEntry T K} {payload : Bytes}
    (hPayload : payloadOf entry = some payload) (hLen : payload.length < 2 ^ 32) {n : Nat}
    (hHeader : file = none → TAGGED_HEADER_LEN ≤ n) :
    ∃ frames f m, List.Forall₂ Encodes frames entries ∧ Encodes f entry ∧
      (n < (appended tag file (kindOf entry) payload).length → m < f.bytes.length) ∧
      file.getD [] ++ (appended tag file (kindOf entry) payload).take n =
        logImage tag frames ++ f.bytes.take m := by
  have hf : Encodes (entryFrame (kindOf entry) payload hLen) entry := ⟨rfl, hPayload⟩
  rcases h with ⟨rfl, rfl⟩ | ⟨frames, rfl, hFrames⟩
  · have hHeaderLen := length_headed LOG_VERSION tag []
    rw [List.length_nil, Nat.add_zero] at hHeaderLen
    have := hHeader rfl
    refine ⟨[], _, n - TAGGED_HEADER_LEN, .nil, hf, fun hShort => ?_, ?_⟩
    · rw [appended, Option.getD_none, if_pos List.length_nil, List.length_append, hHeaderLen]
        at hShort
      rw [bytes_entryFrame]
      omega
    · rw [appended, Option.getD_none, List.nil_append, if_pos List.length_nil, List.take_append,
        List.take_of_length_le (by omega), hHeaderLen]
      rfl
  · have hLong : ¬ (logImage tag frames).length = 0 := by
      rw [logImage, length_headed]
      exact Nat.ne_of_gt (Nat.add_pos_left (by decide) _)
    rw [appended, Option.getD_some, if_neg hLong, List.nil_append]
    exact ⟨frames, _, n, hFrames, hf, id, rfl⟩

/-- An attempt that writes, behind the entries that a log holds. -/
theorem Holds.attempt {tag : String} {attempted acknowledged entries : List (LogEntry T K)}
    {file : Option Bytes} (hHolds : Holds tag entries file) (hSub : acknowledged.Sublist entries)
    (hMem : ∀ entry ∈ entries, entry ∈ attempted) {a : Attempt T K} {payload : Bytes}
    (hPayload : payloadOf a.entry = some payload) (hLen : payload.length < 2 ^ 32)
    (hHeader : file = none → ∀ n, a.cut = some n → TAGGED_HEADER_LEN ≤ n) :
    Readable tag (attempted ++ [a.entry]) (acknowledged ++ if a.cut.isNone then [a.entry] else [])
      (some (file.getD [] ++ a.written tag file payload)) := by
  obtain ⟨entry, _ | n⟩ := a
  · refine .of_holds (hHolds.snoc hPayload hLen) (hSub.append (List.Sublist.refl [entry]))
      (fun other hOther => ?_)
    rcases List.mem_append.mp hOther with hOther | hOther
    · exact List.mem_append_left _ (hMem other hOther)
    · exact List.mem_append_right _ hOther
  · obtain ⟨frames, f, m, hFrames, hf, -, hFile⟩ :=
      hHolds.torn hPayload hLen (fun hNone => hHeader hNone n rfl)
    change Readable tag _ (acknowledged ++ []) (some (file.getD [] ++ List.take n _))
    rw [List.append_nil, hFile]
    exact .of_part hFrames hSub hMem hf m

/-- One attempt that the log withstands. -/
theorem tryAppend_readable {log : Path} {tag : String} {d : Disk} {a : Attempt T K}
    {attempted acknowledged : List (LogEntry T K)}
    (h : Readable tag attempted acknowledged (d log)) (hWithstands : Withstands tag (d log) a.cut) :
    Readable tag (attempted ++ [a.entry])
      (acknowledged ++ if (tryAppend log tag d a).1 then [a.entry] else [])
      ((tryAppend log tag d a).2 log) := by
  have hMore : ∀ entry ∈ attempted, entry ∈ attempted ++ [a.entry] := fun _ hEntry =>
    List.mem_append_left _ hEntry
  rcases tryAppend_cases h.declaredVersion_ne tag a with hTry | ⟨payload, hPayload, hLen, hTry⟩
  · rw [hTry]
    simpa using h.mono hMore
  · rw [hTry]
    dsimp only
    rw [Function.update_self]
    rcases hWithstands with hNothing | ⟨hEmpty, hHeader⟩ | ⟨frames, hFile⟩
    · have hNone : a.written tag (d log) payload = [] := by
        rw [Attempt.written, hNothing, Option.elim_some, List.take_zero]
      rw [hNone, hNothing, List.append_nil]
      have hKept := h.mono hMore
      rcases h with ⟨hEmpty, rfl⟩ | ⟨frames, tail, entries, hFile, hRest⟩
      · exact Or.inl ⟨hEmpty, rfl⟩
      · rw [hFile] at hKept ⊢
        simpa using hKept
    · have hSub : acknowledged = [] := by
        rcases h with ⟨-, hNone⟩ | ⟨frames, tail, entries, hFile, -⟩
        · exact hNone
        · rw [hFile, Option.getD_some, List.append_eq_nil_iff] at hEmpty
          have hLength := congrArg List.length hEmpty.1
          rw [logImage, length_headed] at hLength
          exact absurd hLength (Nat.ne_of_gt (Nat.add_pos_left (by decide) _))
      have hSame : a.written tag (d log) payload = a.written tag none payload := by
        rw [Attempt.written, Attempt.written, appended_of_empty hEmpty]
      rw [hEmpty, hSame, hSub]
      exact (holds_none tag).attempt (List.Sublist.refl _)
        (fun _ hEntry => absurd hEntry List.not_mem_nil) hPayload hLen fun _ => hHeader
    · rw [hFile] at h ⊢
      obtain ⟨entries, hHolds, hSub, hMem⟩ := h.holds
      exact hHolds.attempt hSub hMem hPayload hLen fun hNone => absurd hNone (Option.some_ne_none _)

/-- A run of attempts that the log withstands. -/
theorem runAttempts_readable {log : Path} {tag : String} {d : Disk} {attempts : List (Attempt T K)}
    {attempted acknowledged : List (LogEntry T K)}
    (h : Readable tag attempted acknowledged (d log)) (hWhole : WithstandsAll log tag d attempts) :
    Readable tag (attempted ++ attempts.map Attempt.entry)
      (acknowledged ++ (runAttempts log tag d attempts).1)
      ((runAttempts log tag d attempts).2 log) ∧
        (runAttempts log tag d attempts).2 log ≠ some [] := by
  induction attempts generalizing d attempted acknowledged with
  | nil => exact ⟨by simpa [runAttempts] using h, hWhole⟩
  | cons a rest ih =>
    obtain ⟨hWithstands, hRest⟩ := hWhole
    have hNext := ih (tryAppend_readable h hWithstands) hRest
    rw [List.append_assoc, List.append_assoc] at hNext
    have hAcked : (if (tryAppend log tag d a).1 then [a.entry] else []) ++
        (runAttempts log tag (tryAppend log tag d a).2 rest).1 =
        (runAttempts log tag d (a :: rest)).1 := by
      simp only [runAttempts]
      split <;> rfl
    rw [hAcked] at hNext
    exact hNext

theorem Readable.entriesAt {log : Path} {tag : String}
    {attempted acknowledged : List (LogEntry T K)} {d : Disk}
    (h : Readable tag attempted acknowledged (d log)) (hByte : d log ≠ some []) :
    ∃ entries, entriesAt log tag d = some entries ∧ acknowledged.Sublist entries ∧
      ∀ entry ∈ entries, entry ∈ attempted := by
  have hValue : ∀ entries : List (LogEntry T K),
      Method.wp (readEntries (S := Unit) log tag) () d (fun found _ _ => found = entries)
        (fun _ _ _ => False) (fun _ _ _ => True) →
          InsertLog.entriesAt log tag d = some entries := by
    intro entries hwp
    obtain ⟨found, p, hRun, rfl, -⟩ := Method.wp_total hwp
    unfold InsertLog.entriesAt
    rw [hRun]
    rfl
  rcases h with ⟨hEmpty, rfl⟩ | ⟨frames, tail, entries, hFile, hTail, hFrames, hSub, hMem⟩
  · have hNone : d log = none := by
      cases hFile : d log with
      | none => rfl
      | some bytes =>
        rw [hFile] at hEmpty hByte
        exact absurd (congrArg some hEmpty) hByte
    exact ⟨[], hValue [] (wp_readEntries_none hNone rfl (fun _ => trivial)), List.Sublist.refl _,
      by simp⟩
  · exact ⟨entries, hValue entries
      (wp_readEntries_image hFile hTail hFrames rfl (fun _ => trivial)), hSub, hMem⟩

/-- **Acknowledged entries are read back** in every run of attempts that the log withstands: in
order, and with nothing that was never attempted. -/
theorem acknowledged_entries_are_read {log : Path} {tag : String} {d : Disk}
    (hFresh : d log = none) {attempts : List (Attempt T K)}
    (hWhole : WithstandsAll log tag d attempts) :
    AcknowledgedSurvive log tag d attempts := by
  have hStart : Readable tag ([] : List (LogEntry T K)) [] (d log) :=
    Or.inl ⟨by rw [hFresh]; rfl, rfl⟩
  obtain ⟨hEnd, hByte⟩ := runAttempts_readable hStart hWhole
  obtain ⟨entries, hRead, hSub, hMem⟩ := hEnd.entriesAt hByte
  refine ⟨entries, hRead, hSub, fun entry hEntry => ?_⟩
  obtain ⟨a, ha, rfl⟩ := List.mem_map.mp (hMem entry hEntry)
  exact ⟨a, ha, rfl⟩

/-- A log of orders whose creation writes nothing at first; then it takes one entry, and fails
inside the second. -/
theorem acknowledged_entries_are_read_sample :
    AcknowledgedSurvive (logPath "orders".toList) "order_customer::Order" (fun _ => none)
      ([⟨.item (Order.sample 1 5), some 0⟩, ⟨.item (Order.sample 1 5), none⟩,
        ⟨.tombstone (Uuid.ofNat 1), some 3⟩] : List (Attempt Order Uuid)) :=
  acknowledged_entries_are_read rfl
    ⟨Or.inl rfl, Or.inr (Or.inl ⟨by decide +kernel, nofun⟩),
      Or.inr (Or.inr ⟨[⟨[KIND_ITEM], (Codec.encode (Order.sample 1 5)).getD [], rfl, by decide⟩],
        by decide +kernel⟩), (by decide +kernel : _ ≠ some [])⟩

/-- An append that fails after one byte swallows the next acknowledged entry, and one that fails
inside the header of a new log makes the log unreadable. -/
theorem torn_append_loses_a_later_entry :
    ¬ AcknowledgedSurvive (logPath "orders".toList) "order_customer::Order" (fun _ => none)
        ([⟨.item (Order.sample 1 5), none⟩, ⟨.item (Order.sample 2 5), some 1⟩,
          ⟨.item (Order.sample 3 5), none⟩] : List (Attempt Order Uuid)) ∧
      ¬ AcknowledgedSurvive (logPath "orders".toList) "order_customer::Order" (fun _ => none)
        ([⟨.item (Order.sample 1 5), some 10⟩] : List (Attempt Order Uuid)) := by
  constructor
  · rintro ⟨entries, hRead, hSub, -⟩
    have hFound : entriesAt (T := Order) (K := Uuid) (logPath "orders".toList)
        "order_customer::Order" (runAttempts (logPath "orders".toList) "order_customer::Order"
          (fun _ => none) ([⟨.item (Order.sample 1 5), none⟩, ⟨.item (Order.sample 2 5), some 1⟩,
            ⟨.item (Order.sample 3 5), none⟩] : List (Attempt Order Uuid))).2 =
        some [.item (Order.sample 1 5)] := by decide +kernel
    rw [hFound] at hRead
    cases hRead
    exact absurd hSub.length_le (by decide +kernel)
  · rintro ⟨entries, hRead, -, -⟩
    have hFound : entriesAt (T := Order) (K := Uuid) (logPath "orders".toList)
        "order_customer::Order" (runAttempts (logPath "orders".toList) "order_customer::Order"
          (fun _ => none) ([⟨.item (Order.sample 1 5), some 10⟩] : List (Attempt Order Uuid))).2 =
        none := by decide +kernel
    rw [hFound] at hRead
    cases hRead

/-! ## Cutting a log -/

/-- Appends that are all acknowledged; `none` when one is refused. -/
def appendEach (log : Path) (tag : String) : Disk → List (LogEntry T K) → Option Disk
  | d, [] => some d
  | d, entry :: rest =>
    match append (S := Unit) log tag entry ⟨(), d, []⟩ with
    | .ok _ p => appendEach log tag p.disk rest
    | .error _ _ => none

/-- The bytes an entry takes in the log: kind, length, payload. -/
def entryLen (entry : LogEntry T K) : Nat := 5 + ((payloadOf entry).getD []).length

/-- The entries that end within the first `room` bytes behind the header. -/
def wholeEntries : List (LogEntry T K) → Nat → List (LogEntry T K)
  | [], _ => []
  | entry :: rest, room =>
    if entryLen entry ≤ room then entry :: wholeEntries rest (room - entryLen entry) else []

theorem appendEach_holds {log : Path} {tag : String} {d d' : Disk}
    {written entries : List (LogEntry T K)} (hHolds : Holds tag written (d log))
    (hRun : appendEach log tag d entries = some d') : Holds tag (written ++ entries) (d' log) := by
  induction entries generalizing d written with
  | nil =>
    cases hRun
    rwa [List.append_nil]
  | cons entry rest ih =>
    have hwp : Method.wp (append (S := Unit) log tag entry) () d
        (fun _ _ d' => Holds tag (written ++ [entry]) (d' log)) (fun _ _ _ => True)
        (fun _ _ _ => True) :=
      wp_append entry hHolds (fun file hFile => by rwa [Function.update_self]) (fun _ => trivial)
        (fun _ => trivial) (fun _ _ _ _ => trivial)
    unfold appendEach at hRun
    split at hRun
    · next p hOk =>
      have h := ih (hwp.of_ok hOk) hRun
      rwa [List.append_assoc] at h
    · cases hRun

theorem wholeBefore_encodes {frames : List (Frame 1)} {entries : List (LogEntry T K)}
    (h : List.Forall₂ Encodes frames entries) (room : Nat) :
    List.Forall₂ Encodes (Frame.wholeBefore frames room) (wholeEntries entries room) := by
  induction h generalizing room with
  | nil => exact .nil
  | @cons f entry _ _ hEncodes _ ih =>
    have hLen : entryLen entry = f.bytes.length := by
      rw [entryLen, hEncodes.2, Option.getD_some, Frame.length_bytes]
    rw [Frame.wholeBefore, wholeEntries, hLen]
    split
    · exact .cons hEncodes (ih _)
    · exact .nil

/-- A file that is not as long as a header is refused, whatever its bytes. -/
theorem parseTaggedHeader_short {bytes : Bytes} (h : bytes.length < TAGGED_HEADER_LEN)
    (magic : Bytes) (version : UInt32) (tag : String) :
    ∃ cause, parseTaggedHeader bytes magic version tag = .error cause := by
  unfold parseTaggedHeader
  split
  · next cause _ => exact ⟨cause, rfl⟩
  · exact ⟨_, if_pos h⟩

/-- Reading a file that is too short for its header. -/
theorem readEntries_short {log : Path} {d : Disk} {bytes : Bytes}
    (hFile : d log = some bytes) (h : bytes.length < TAGGED_HEADER_LEN) (tag : String) :
    ∃ cause p, readEntries (S := Unit) (T := T) (K := K) log tag ⟨(), d, []⟩ =
      .error (.error (.recordBlobUnreadable log cause)) p := by
  have hwp : Method.wp (readEntries (S := Unit) (T := T) (K := K) log tag) () d
      (fun _ _ _ => False)
      (fun e _ _ => ∃ cause, e = .error (.recordBlobUnreadable log cause)) (fun _ _ _ => True) := by
    refine Method.wp_bind (Method.wp_bind (Method.wp_readIfPresent ?_ (fun _ => trivial)))
    rw [hFile]
    refine Method.wp_bind (wp_onDiskVersion ?_ (fun _ => trivial))
    obtain ⟨cause, hCause⟩ := parseTaggedHeader_short h MAGIC
      (if declaredVersion (d log) = some LOG_VERSION_1 then LOG_VERSION_1 else LOG_VERSION) tag
    dsimp only
    rw [hCause]
    exact Method.wp_fail ⟨cause, rfl⟩
  cases hRun : readEntries (S := Unit) (T := T) (K := K) log tag ⟨(), d, []⟩ with
  | ok entries p => exact (hwp.of_ok hRun).elim
  | error e p =>
    obtain ⟨cause, rfl⟩ := hwp.of_error_nil hRun
    exact ⟨cause, p, rfl⟩

/-- **A log cut at any byte from the end of its header on** reads as the entries wholly before the
cut. -/
theorem readEntries_cut {log : Path} {tag : String} {d : Disk} {entries : List (LogEntry T K)}
    {bytes : Bytes} (hHolds : Holds tag entries (some bytes)) {cut : Nat}
    (hCut : TAGGED_HEADER_LEN ≤ cut) (hFile : d log = some (bytes.take cut)) :
    entriesAt log tag d = some (wholeEntries entries (cut - TAGGED_HEADER_LEN)) := by
  rcases hHolds with ⟨hNone, -⟩ | ⟨frames, hImage, hFrames⟩
  · cases hNone
  · cases hImage
    obtain ⟨tail, hTake, hTail⟩ := Frame.take_flat frames (cut - TAGGED_HEADER_LEN)
    have hHeaderLen := length_headed LOG_VERSION tag []
    rw [List.length_nil, Nat.add_zero] at hHeaderLen
    have hBytes : (logImage tag frames).take cut =
        logImage tag (Frame.wholeBefore frames (cut - TAGGED_HEADER_LEN)) ++ tail := by
      rw [logImage, logImage, headed_append, ← hTake, ← List.nil_append (Frame.flat frames),
        ← headed_append, List.take_append, List.take_of_length_le (by omega), hHeaderLen,
        headed_append, List.nil_append, List.nil_append]
    rw [hBytes] at hFile
    have hwp : Method.wp (readEntries (S := Unit) log tag) () d
        (fun found _ _ => found = wholeEntries entries (cut - TAGGED_HEADER_LEN))
        (fun _ _ _ => False) (fun _ _ _ => True) :=
      wp_readEntries_image hFile hTail (wholeBefore_encodes hFrames _) rfl (fun _ => trivial)
    obtain ⟨found, p, hRun, rfl, -⟩ := Method.wp_total hwp
    unfold entriesAt
    rw [hRun]
    rfl

/-! ## Upgrading a version-1 log -/

theorem parseTaggedHeader_ok {bytes : Bytes} {version : UInt32} {tag : String} {fp : UInt64}
    (h : parseTaggedHeader bytes MAGIC version tag = .ok fp) :
    TAGGED_HEADER_LEN ≤ bytes.length ∧ declaredVersion (some bytes) = some version := by
  have hLen : TAGGED_HEADER_LEN ≤ bytes.length := by
    by_contra hShort
    obtain ⟨cause, hCause⟩ := parseTaggedHeader_short (Nat.lt_of_not_le hShort) MAGIC version tag
    rw [hCause] at h
    cases h
  refine ⟨hLen, ?_⟩
  have hField : VERSION_OFFSET + 4 ≤ bytes.length :=
    Nat.le_trans (by decide : VERSION_OFFSET + 4 ≤ TAGGED_HEADER_LEN) hLen
  rw [declaredVersion, Option.bind_some, window_eq_some hField, Option.map_some]
  unfold parseTaggedHeader RecordBlob.parseHeader at h
  split at h
  · cases h
  · next hHeader =>
    split at hHeader
    · cases hHeader
    · dsimp only at hHeader
      split at hHeader
      · cases hHeader
      · next hVersion => exact congrArg some (not_not.mp hVersion)

/-- The version-2 form of a version-1 entry: every one is an item. -/
def upgraded (f : Frame 0) : Frame 1 := ⟨[KIND_ITEM], f.payload, rfl, f.length_payload⟩

theorem rawOfFrame_upgraded (f : Frame 0) : rawOfFrame (upgraded f) = rawOfFrame f := by
  have hTag : f.tag = [] := List.length_eq_zero_iff.mp f.length_tag
  rw [rawOfFrame, rawOfFrame, hTag]
  rfl

theorem flat_upgraded (frames : List (Frame 0)) :
    (frames.map rawOfFrame).flatMap (fun (_, payload) => entryBytes KIND_ITEM payload) =
      Frame.flat (frames.map upgraded) := by
  rw [Frame.flat, List.flatMap_map, List.flatMap_map]
  rfl

/-- The upgrade replaces the file by the version-2 log of the same entries. -/
theorem wp_upgradeIfVersion1 {S : Type} {s : S} {d : Disk} {log : Path} {tag : String}
    {bytes : Bytes} {fp : UInt64} {frames : List (Frame 0)} {Q : Unit → S → Disk → Prop}
    {A C : Stop DurabilityError → S → Disk → Prop} (hFile : d log = some bytes)
    (hHeader : parseTaggedHeader bytes MAGIC LOG_VERSION_1 tag = .ok fp)
    (hFrames : rawEntries bytes LOG_VERSION_1 = frames.map rawOfFrame)
    (hOk : ∀ d', d' log = some (logImage tag (frames.map upgraded)) → Q () s d')
    (hStop : ∀ e d', (∀ p, p ≠ log ++ UPGRADE_SUFFIX → d' p = d p) → C e s d') :
    Method.wp (upgradeIfVersion1 log tag) s d Q A C := by
  have hNe : log ++ UPGRADE_SUFFIX ≠ log := append_suffix_ne (by decide) log
  have hSame : ∀ e, C e s d := fun e => hStop e d (fun _ _ => rfl)
  refine Method.wp_bind (wp_onDiskVersion ?_ hSame)
  rw [hFile, (parseTaggedHeader_ok hHeader).2, if_pos rfl]
  refine Method.wp_bind (Method.wp_readFile (fun found hFound => ?_)
    (fun hNone => nomatch hFile.symm.trans hNone) hSame)
  obtain rfl : bytes = found := Option.some.inj (hFile.symm.trans hFound)
  simp only [hHeader, hFrames, flat_upgraded]
  have hExtended : ∀ image, Disk.extend (Function.update d (log ++ UPGRADE_SUFFIX) (some []))
      (log ++ UPGRADE_SUFFIX) image (log ++ UPGRADE_SUFFIX) = some image := fun image => by simp
  refine Method.wp_bind (Method.wp_createFile ?_ hSame)
  refine Method.wp_bind (Method.wp_appendAll ?_ (fun n e => hStop e _ fun p hp => ?_))
  · refine Method.wp_bind (Method.wp_openFile (fun _ _ => ?_) (fun hNone => ?_)
      (fun e => hStop e _ fun p hp => ?_))
    · refine Method.wp_bind (Method.wp_sync ?_ (fun e => hStop e _ fun p hp => ?_))
      · refine Method.wp_rename (hOk _ ?_) (fun e => hStop e _ fun p hp => ?_)
        · rw [Disk.move, Function.update_of_ne hNe.symm, Function.update_self, hExtended]
          rfl
        · rw [Disk.extend_of_ne hp, Function.update_of_ne hp]
      · rw [Disk.extend_of_ne hp, Function.update_of_ne hp]
    · rw [hExtended] at hNone
      cases hNone
    · rw [Disk.extend_of_ne hp, Function.update_of_ne hp]
  · rw [Disk.extend_of_ne hp, Function.update_of_ne hp]

/-- What a reader finds depends on the raw entries alone. -/
theorem entriesAt_eq {log : Path} {tag : String} {d : Disk} {bytes : Bytes} {fp : UInt64}
    {version : UInt32} (hVersion : version = LOG_VERSION_1 ∨ version = LOG_VERSION)
    (hFile : d log = some bytes) (hHeader : parseTaggedHeader bytes MAGIC version tag = .ok fp) :
    entriesAt (T := T) (K := K) log tag d =
      (decodeEntries log 0 (rawEntries bytes version)).toOption := by
  have hRead : (if declaredVersion (some bytes) = some LOG_VERSION_1 then LOG_VERSION_1
      else LOG_VERSION) = version := by
    rw [(parseTaggedHeader_ok hHeader).2]
    rcases hVersion with rfl | rfl
    · exact if_pos rfl
    · exact if_neg (by decide)
  have hwp : Method.wp (readEntries (S := Unit) (T := T) (K := K) log tag) () d
      (fun found _ _ => decodeEntries log 0 (rawEntries bytes version) = .ok found)
      (fun _ _ _ => ∃ e, decodeEntries (T := T) (K := K) log 0 (rawEntries bytes version) =
        .error e) (fun _ _ _ => True) := by
    refine Method.wp_bind (Method.wp_bind (Method.wp_readIfPresent ?_ (fun _ => trivial)))
    rw [hFile]
    refine Method.wp_bind (wp_onDiskVersion ?_ (fun _ => trivial))
    rw [hFile]
    dsimp only
    rw [hRead, hHeader]
    exact Method.wp_pure (Method.wp_ofExcept (fun _ h => h) (fun e h => ⟨e, h⟩))
  unfold entriesAt
  cases hRun : readEntries (S := Unit) (T := T) (K := K) log tag ⟨(), d, []⟩ with
  | ok entries p =>
    rw [hwp.of_ok hRun]
    rfl
  | error e p =>
    obtain ⟨e, he⟩ := hwp.of_error_nil hRun
    rw [he]
    rfl

/-- **The upgrade loses nothing.** After it the log is of version 2 and reads as before. -/
theorem upgrade_reads_the_same {log : Path} {tag : String} {d : Disk} {bytes : Bytes}
    {fp : UInt64} (hFile : d log = some bytes)
    (hHeader : parseTaggedHeader bytes MAGIC LOG_VERSION_1 tag = .ok fp) :
    ∃ p, upgradeIfVersion1 (S := Unit) log tag ⟨(), d, []⟩ = .ok () p ∧
      declaredVersion (p.disk log) = some LOG_VERSION ∧
      entriesAt (T := T) (K := K) log tag p.disk = entriesAt log tag d := by
  obtain ⟨frames, tail, hDrop, hTail⟩ := Frame.exists_frames 0 (bytes.drop TAGGED_HEADER_LEN)
  have hRaw : rawEntries bytes LOG_VERSION_1 = frames.map rawOfFrame := by
    have hLong := (parseTaggedHeader_ok hHeader).1
    have hFuel : frames.length ≤ bytes.length := by
      have h := congrArg List.length hDrop
      have := Frame.length_le_flat frames
      rw [List.length_drop, List.length_append] at h
      omega
    rw [rawEntries_eq_scan hLong, hDrop]
    exact congrArg _ (Frame.scan_frames frames hTail hFuel)
  have hwp : Method.wp (upgradeIfVersion1 log tag) () d
      (fun _ _ d' => d' log = some (logImage tag (frames.map upgraded))) (fun _ _ _ => False)
      (fun _ _ _ => True) :=
    wp_upgradeIfVersion1 hFile hHeader hRaw (fun _ h => h) (fun _ _ _ => trivial)
  obtain ⟨⟨⟩, p, hRun, hNew, -⟩ := Method.wp_total hwp
  have hTorn : Frame.nextFrame 1 [] = none := by simp [Frame.nextFrame]
  have hRawNew := rawEntries_logImage tag (frames.map upgraded) hTorn
  rw [List.append_nil, List.map_map] at hRawNew
  refine ⟨p, hRun, by rw [hNew, logImage, declaredVersion_headed], ?_⟩
  rw [entriesAt_eq (Or.inr rfl) hNew (parseTaggedHeader_headed ..),
    entriesAt_eq (Or.inl rfl) hFile hHeader, hRawNew, hRaw]
  exact congrArg (fun raw => (decodeEntries log 0 raw).toOption)
    (List.map_congr_left fun f _ => rawOfFrame_upgraded f)

/-- **Cut and upgraded logs read back.** A log of acknowledged appends cut at any byte behind its
header reads as the entries wholly before the cut, and one cut inside its header is refused as
unreadable; an upgraded version-1 log reads as it did before. -/
theorem cut_and_upgraded_logs_read_back (T K : Type) [Serde T] [Serde K] (log : Path)
    (tag : String) :
    (∀ (d d' : Disk) (entries : List (LogEntry T K)) (bytes : Bytes) (cut : Nat),
      d log = none → appendEach log tag d entries = some d' → d' log = some bytes →
      (TAGGED_HEADER_LEN ≤ cut →
        entriesAt log tag (Function.update d' log (some (bytes.take cut))) =
          some (wholeEntries entries (cut - TAGGED_HEADER_LEN))) ∧
      (cut < TAGGED_HEADER_LEN → ∃ cause p, readEntries (S := Unit) (T := T) (K := K) log tag
        ⟨(), Function.update d' log (some (bytes.take cut)), []⟩ =
          .error (.error (.recordBlobUnreadable log cause)) p)) ∧
    (∀ (d : Disk) (bytes : Bytes) (fp : UInt64), d log = some bytes →
      parseTaggedHeader bytes MAGIC LOG_VERSION_1 tag = .ok fp →
      ∃ p, upgradeIfVersion1 (S := Unit) log tag ⟨(), d, []⟩ = .ok () p ∧
        declaredVersion (p.disk log) = some LOG_VERSION ∧
        entriesAt (T := T) (K := K) log tag p.disk = entriesAt log tag d) := by
  refine ⟨fun d d' entries bytes cut hFresh hRun hFile => ?_, fun d bytes fp hFile hHeader =>
    upgrade_reads_the_same hFile hHeader⟩
  have hHolds := appendEach_holds (hFresh ▸ holds_none tag) hRun
  rw [List.nil_append, hFile] at hHolds
  refine ⟨fun hCut => readEntries_cut hHolds hCut (Function.update_self ..), fun hCut => ?_⟩
  refine readEntries_short (Function.update_self ..) ?_ tag
  rw [List.length_take]
  omega

/-- A log of one order cut one byte short, and the version-1 log of the same order. -/
theorem cut_and_upgraded_logs_read_back_sample :
    (∃ d', appendEach (logPath "orders".toList) "order_customer::Order" (fun _ => none)
        [(.item (Order.sample 1 5) : LogEntry Order Uuid)] = some d' ∧
      ∃ bytes, d' (logPath "orders".toList) = some bytes ∧
        entriesAt (logPath "orders".toList) "order_customer::Order"
          (Function.update d' (logPath "orders".toList) (some (bytes.take 108))) =
          some ([] : List (LogEntry Order Uuid))) ∧
      ∃ p, upgradeIfVersion1 (S := Unit) (logPath "orders".toList) "order_customer::Order"
          ⟨(), fun _ => some (headed LOG_VERSION_1 "order_customer::Order"
            (leBytes 4 76 ++ (Codec.encode (Order.sample 1 5)).getD [])), []⟩ = .ok () p ∧
        declaredVersion (p.disk (logPath "orders".toList)) = some LOG_VERSION ∧
        entriesAt (logPath "orders".toList) "order_customer::Order" p.disk =
          entriesAt (T := Order) (K := Uuid) (logPath "orders".toList) "order_customer::Order"
            (fun _ => some (headed LOG_VERSION_1 "order_customer::Order"
              (leBytes 4 76 ++ (Codec.encode (Order.sample 1 5)).getD []))) := by
  have h := cut_and_upgraded_logs_read_back Order Uuid (logPath "orders".toList)
    "order_customer::Order"
  refine ⟨?_, h.2 _ _ 0 rfl (by decide +kernel)⟩
  obtain ⟨d', hRun⟩ := Option.isSome_iff_exists.mp (by decide +kernel :
    (appendEach (logPath "orders".toList) "order_customer::Order" (fun _ => none)
      [(.item (Order.sample 1 5) : LogEntry Order Uuid)]).isSome)
  have hFile : ((appendEach (logPath "orders".toList) "order_customer::Order" (fun _ => none)
      [(.item (Order.sample 1 5) : LogEntry Order Uuid)]).bind
        (fun d' => d' (logPath "orders".toList))).isSome := by decide +kernel
  rw [hRun, Option.bind_some] at hFile
  obtain ⟨bytes, hBytes⟩ := Option.isSome_iff_exists.mp hFile
  exact ⟨d', hRun, bytes, hBytes, (h.1 _ d' _ bytes 108 rfl hRun hBytes).1 (by decide)⟩

/-- Cut inside its header, a log of one acknowledged order is refused instead of read as empty. -/
theorem header_cut_is_refused :
    ¬ ∀ d' bytes, appendEach (logPath "orders".toList) "order_customer::Order" (fun _ => none)
        [(.item (Order.sample 1 5) : LogEntry Order Uuid)] = some d' →
      d' (logPath "orders".toList) = some bytes → ∀ cut ≤ bytes.length,
        entriesAt (logPath "orders".toList) "order_customer::Order"
          (Function.update d' (logPath "orders".toList) (some (bytes.take cut))) =
          some (wholeEntries [(.item (Order.sample 1 5) : LogEntry Order Uuid)]
            (cut - TAGGED_HEADER_LEN)) := by
  intro hClaim
  obtain ⟨d', hRun⟩ := Option.isSome_iff_exists.mp (by decide +kernel :
    (appendEach (logPath "orders".toList) "order_customer::Order" (fun _ => none)
      [(.item (Order.sample 1 5) : LogEntry Order Uuid)]).isSome)
  have hFile : ((appendEach (logPath "orders".toList) "order_customer::Order" (fun _ => none)
      [(.item (Order.sample 1 5) : LogEntry Order Uuid)]).bind
        (fun d' => d' (logPath "orders".toList))).isSome := by decide +kernel
  rw [hRun, Option.bind_some] at hFile
  obtain ⟨bytes, hBytes⟩ := Option.isSome_iff_exists.mp hFile
  have hRead := hClaim d' bytes hRun hBytes 0 (Nat.zero_le _)
  obtain ⟨cause, p, hRefused⟩ := readEntries_short (T := Order) (K := Uuid)
    (Function.update_self (logPath "orders".toList) (some (bytes.take 0)) d')
    (by rw [List.take_zero]; decide) "order_customer::Order"
  unfold entriesAt at hRead
  rw [hRefused] at hRead
  cases hRead

end InsertLog

end MultimodalDb
