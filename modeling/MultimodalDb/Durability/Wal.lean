import MultimodalDb.Durability.RecordBlob
import MultimodalDb.Lib.Calls
import MultimodalDb.Lib.Frames

/-!
# The write-ahead log

One entry for each update: its length in four bytes, then its sequence number, id and age. The
reader takes whole entries from the front and stops at the first one that is cut short. There is
nothing in the file to tell where an entry begins, so that what is appended behind a torn entry is
read as the rest of it: `Holds` describes a log of whole entries with what is left of a torn one
behind them.
-/

namespace MultimodalDb

open Bytes

/-- One logged update. -/
structure WalEntry where
  seq : UInt64
  id : Uuid
  age : UInt32
  deriving DecidableEq

instance : Serde WalEntry :=
  Codec.refine (fun e => (e.seq, e.id, e.age)) (fun p => some ⟨p.1, p.2.1, p.2.2⟩) (by
    rintro ⟨seq, id, age⟩ ⟨seq', id', age'⟩
    simp [eq_comm])

namespace Wal

section Operations

variable {S : Type}

def appendWalEntry (wal : Path) (entry : WalEntry) : Method S DurabilityError Unit :=
  match Codec.encode entry with
  | none => Method.fail .serde
  | some bytes => do
    Method.appendAll .io wal (leBytes 4 bytes.length)
    Method.appendAll .io wal bytes

/-- The entries from `offset` on. Each takes at least its four length bytes. -/
def entriesFrom (bytes : Bytes) : Nat → Nat → Except DurabilityError (List WalEntry)
  | 0, _ => .ok []
  | fuel + 1, offset =>
    match window bytes offset 4 with
    | none => .ok []
    | some lenBytes =>
      let len := leValue lenBytes
      match window bytes (offset + 4) len with
      | none => .ok []
      | some payload =>
        match Codec.decode payload with
        | none => .error .serde
        | some entry => (entriesFrom bytes fuel (offset + 4 + len)).map (entry :: ·)

def readWalEntries (wal : Path) : Method S DurabilityError (List WalEntry) := do
  let present ← Method.fileExists wal
  if present then
    let bytes ← Method.readFile .io wal
    Method.ofExcept (entriesFrom bytes bytes.length 0)
  else
    return []

end Operations

/-! ## What a log holds -/

/-- The thirty-six bytes of an entry. -/
def entryBytes (entry : WalEntry) : Bytes :=
  leBytes 8 entry.seq.toNat ++ (leBytes 8 16 ++ entry.id.bytes ++ leBytes 4 entry.age.toNat)

@[simp] theorem length_entryBytes (entry : WalEntry) : (entryBytes entry).length = 36 := by
  simp [entryBytes, entry.id.length_bytes]

theorem encode_entry (entry : WalEntry) : Codec.encode entry = some (entryBytes entry) := by
  have hId : Serde.put entry.id = some (leBytes 8 16 ++ entry.id.bytes) := by
    change (if entry.id.bytes.length < 256 ^ 8 then (Codec.putAll entry.id.bytes).map
      (leBytes 8 entry.id.bytes.length ++ ·) else none) = _
    rw [entry.id.length_bytes, if_pos (by decide), Codec.putAll_bytes, Option.map_some]
  change (do
    let a ← Serde.put entry.seq
    let b ← Serde.put (entry.id, entry.age)
    some (a ++ b)) = _
  have hRest : Serde.put (entry.id, entry.age) =
      some (leBytes 8 16 ++ entry.id.bytes ++ leBytes 4 entry.age.toNat) := by
    change (do
      let a ← Serde.put entry.id
      let b ← Serde.put entry.age
      some (a ++ b)) = _
    rw [hId]
    rfl
  rw [hRest]
  rfl

/-- The frame of an entry. -/
def entryFrame (entry : WalEntry) : Frame 0 :=
  ⟨[], entryBytes entry, List.length_nil, by rw [length_entryBytes]; decide⟩

/-- What an append writes. -/
def appended (entry : WalEntry) : Bytes := leBytes 4 (entryBytes entry).length ++ entryBytes entry

theorem bytes_entryFrame (entry : WalEntry) : (entryFrame entry).bytes = appended entry := rfl

/-- A file of exactly these whole entries, and behind them bytes that are no whole entry. -/
def Holds (entries : List WalEntry) (tail : Bytes) (file : Option Bytes) : Prop :=
  Frame.nextFrame 0 tail = none ∧ file = some (Frame.flat (entries.map entryFrame) ++ tail)

theorem nextFrame_nil : Frame.nextFrame 0 [] = none := rfl

/-- The reader finds the whole entries, whatever is behind them. -/
theorem entriesFrom_flat (entries : List WalEntry) {tail : Bytes}
    (hTail : Frame.nextFrame 0 tail = none)
    (front : Bytes) {fuel : Nat} (hFuel : entries.length ≤ fuel) :
    entriesFrom (front ++ (Frame.flat (entries.map entryFrame) ++ tail)) fuel front.length =
      .ok entries := by
  induction entries generalizing front fuel with
  | nil =>
    cases fuel with
    | zero => rfl
    | succ fuel =>
      rw [List.map_nil, Frame.flat_nil, List.nil_append, entriesFrom]
      have hAt := window_append_right front tail 0 4
      rw [Nat.add_zero] at hAt
      rw [hAt]
      unfold Frame.nextFrame at hTail
      split at hTail
      · next hHead =>
        split at hTail
        · cases hTail
        · next hShort =>
          rw [window_eq_some hHead]
          dsimp only
          rw [window_append_right, window_eq_none (by omega)]
      · next hHead => rw [window_eq_none (by omega)]
  | cons entry entries ih =>
    cases fuel with
    | zero => simp at hFuel
    | succ fuel =>
      rw [List.map_cons, Frame.flat_cons, bytes_entryFrame, appended]
      generalize hRest : Frame.flat (entries.map entryFrame) ++ tail = rest at ih
      have hBytes : front ++ (leBytes 4 (entryBytes entry).length ++ entryBytes entry ++
            Frame.flat (entries.map entryFrame) ++ tail) =
          front ++ (leBytes 4 (entryBytes entry).length ++ (entryBytes entry ++ rest)) := by
        rw [← hRest]
        simp only [List.append_assoc]
      have hLen : window (front ++
          (leBytes 4 (entryBytes entry).length ++ (entryBytes entry ++ rest))) front.length 4 =
          some (leBytes 4 (entryBytes entry).length) := by
        have hAt := window_append_right front
          (leBytes 4 (entryBytes entry).length ++ (entryBytes entry ++ rest)) 0 4
        rw [Nat.add_zero] at hAt
        rw [hAt, window_eq_some (by simp)]
        have hMid :=
          slice_middle [] (leBytes 4 (entryBytes entry).length) (entryBytes entry ++ rest)
        rw [length_leBytes] at hMid
        exact congrArg some hMid
      have hPayload : window (front ++
          (leBytes 4 (entryBytes entry).length ++ (entryBytes entry ++ rest)))
          (front.length + 4) (entryBytes entry).length = some (entryBytes entry) := by
        rw [window_append_right, window_eq_some (by simp; omega)]
        have hMid := slice_middle (leBytes 4 (entryBytes entry).length) (entryBytes entry) rest
        rw [length_leBytes] at hMid
        exact congrArg some hMid
      rw [hBytes, entriesFrom, hLen]
      dsimp only
      rw [leValue_leBytes (by rw [length_entryBytes]; decide), hPayload]
      dsimp only
      rw [Codec.decode_eq_some.mpr (encode_entry entry)]
      dsimp only
      have hMore := ih (front ++ (leBytes 4 (entryBytes entry).length ++ entryBytes entry))
        (Nat.le_of_succ_le_succ hFuel)
      simp only [List.length_append, length_leBytes, List.append_assoc] at hMore
      rw [Nat.add_assoc, hMore]
      rfl

namespace Holds

variable {entries : List WalEntry} {tail : Bytes} {file : Option Bytes}

theorem empty : Holds [] [] (some []) := ⟨nextFrame_nil, rfl⟩

/-- A file is a log in one way. -/
theorem unique (h : Holds entries tail file) {entries' : List WalEntry} {tail' : Bytes}
    (h' : Holds entries' tail' file) : entries = entries' ∧ tail = tail' := by
  obtain ⟨hTail, rfl⟩ := h
  obtain ⟨hTail', hFile⟩ := h'
  rw [Option.some.injEq] at hFile
  have hFrames : entries.map entryFrame = entries'.map entryFrame := by
    have hScan := Frame.scan_frames (entries.map entryFrame) hTail
      (show _ ≤ max entries.length entries'.length by simp)
    rw [hFile, Frame.scan_frames (entries'.map entryFrame) hTail' (by simp)] at hScan
    exact hScan.symm
  have hInjective : Function.Injective entryFrame := fun a b hEq => by
    have hBytes : entryBytes a = entryBytes b := congrArg Frame.payload hEq
    exact Codec.encode_injective (encode_entry a) (hBytes ▸ encode_entry b)
  have hEntries : entries = entries' := List.map_injective_iff.mpr hInjective hFrames
  refine ⟨hEntries, ?_⟩
  rw [hEntries] at hFile
  exact List.append_cancel_left hFile

/-- An entry appended to a log that ends in a whole one. -/
theorem snoc (h : Holds entries [] file) (entry : WalEntry) :
    Holds (entries ++ [entry]) [] (file.map (· ++ appended entry)) := by
  obtain ⟨-, rfl⟩ := h
  refine ⟨nextFrame_nil, ?_⟩
  simp [bytes_entryFrame]

/-- An append that was cut leaves a part of its entry behind the whole ones, or all of it. -/
theorem cut (h : Holds entries [] file) (entry : WalEntry) (n : Nat) :
    ∃ kept tail, Holds (entries ++ kept) tail (file.map (· ++ (appended entry).take n)) ∧
      (kept = [] ∨ kept = [entry]) := by
  by_cases hAll : (appended entry).length ≤ n
  · rw [List.take_of_length_le hAll]
    exact ⟨[entry], [], h.snoc entry, Or.inr rfl⟩
  · obtain ⟨-, rfl⟩ := h
    refine ⟨[], (appended entry).take n, ⟨?_, ?_⟩, Or.inl rfl⟩
    · rw [← bytes_entryFrame] at hAll ⊢
      exact Frame.nextFrame_take _ (by omega)
    · simp

end Holds

/-! ## Rules -/

section Rules

variable {S : Type} {s : S} {d : Disk} {A C : Stop DurabilityError → S → Disk → Prop} {wal : Path}

theorem wp_readWalEntries {entries : List WalEntry} {tail : Bytes}
    {Q : List WalEntry → S → Disk → Prop}
    (hHolds : Holds entries tail (d wal)) (hOk : Q entries s d) (hStop : ∀ e, C e s d) :
    Method.wp (readWalEntries wal) s d Q A C := by
  obtain ⟨hTail, hFile⟩ := hHolds
  refine Method.wp_bind (Method.wp_fileExists ?_)
  rw [hFile, Option.isSome_some, if_pos rfl]
  refine Method.wp_bind (Method.wp_readFile (fun bytes hBytes => ?_) (fun hMissing => ?_) hStop)
  · rw [hFile, Option.some.injEq] at hBytes
    have hRead := entriesFrom_flat entries hTail [] (show _ ≤ bytes.length by
      have hFrames := Frame.length_le_flat (entries.map entryFrame)
      rw [List.length_map] at hFrames
      rw [← hBytes, List.length_append]
      omega)
    rw [List.nil_append, List.length_nil, hBytes] at hRead
    rw [hRead]
    exact Method.wp_pure hOk
  · rw [hFile] at hMissing
    cases hMissing

/-- An append adds the entry, or, stopped, a part of it. -/
theorem wp_appendWalEntry {entry : WalEntry} {Q : Unit → S → Disk → Prop}
    (hOk : Q () s (d.extend wal (appended entry)))
    (hStop : ∀ n e, C e s (d.extend wal ((appended entry).take n))) :
    Method.wp (appendWalEntry wal entry) s d Q A C := by
  have hTwice : ∀ more, Disk.extend (d.extend wal (leBytes 4 (entryBytes entry).length)) wal more =
      d.extend wal (leBytes 4 (entryBytes entry).length ++ more) := by
    intro more
    rw [Disk.extend, Disk.extend_self, Disk.extend, Disk.extend, Function.update_idem,
      Option.map_map]
    congr 1
    exact congrArg (fun f => (d wal).map f) (funext fun bs => List.append_assoc ..)
  unfold appendWalEntry
  rw [encode_entry]
  refine Method.wp_bind (Method.wp_appendAll (Method.wp_appendAll ?_ fun n e => ?_) fun n e => ?_)
  · rw [hTwice]
    exact hOk
  · rw [hTwice]
    have hCut := hStop (4 + n) e
    rwa [appended, List.take_append, length_leBytes, List.take_of_length_le (by simp),
      Nat.add_sub_cancel_left] at hCut
  · have hCut := hStop (min n 4) e
    rw [appended, List.take_append_of_le_length (by simp)] at hCut
    rwa [List.take_eq_take_iff.mpr (by simp : min n (leBytes 4 (entryBytes entry).length).length =
      min (min n 4) (leBytes 4 (entryBytes entry).length).length)]

end Rules

end Wal

end MultimodalDb
