import MultimodalDb.Codec
import MultimodalDb.Lib.Pieces

/-!
# Frames

A message goes over a stream as its length in four bytes and its encoding. A length over the limit
is refused before any byte of the encoding is read.
-/

namespace MultimodalDb

namespace Framing

open Bytes Receiving

def MAX_FRAME_BYTES : Nat := 16 * 1024 * 1024

inductive FrameError where
  | io
  | frameTooLarge (len : Nat)
  | encoding
  deriving DecidableEq

variable {α : Type} [Serde α]

/-- The bytes that are written for a message. -/
def writeMessage (msg : α) : Except FrameError Bytes :=
  match Codec.encode msg with
  | none => .error .encoding
  | some payload =>
    let len := if payload.length < UInt32.size then payload.length else UInt32.size - 1
    if MAX_FRAME_BYTES < len then .error (.frameTooLarge len) else .ok (leBytes 4 len ++ payload)

def readMessage (α : Type) [Serde α] : Receiving (Except FrameError α) :=
  exactly 4 (.error .io) fun lenBuf =>
    if MAX_FRAME_BYTES < leValue lenBuf then
      .done (.error (.frameTooLarge (leValue lenBuf)))
    else
      exactly (leValue lenBuf) (.error .io) fun buf =>
        .done (((Codec.decode buf : Option α).map .ok).getD (.error .encoding))

/-! ## Whole frames -/

theorem writeMessage_eq_ok {msg : α} {bs : Bytes} : writeMessage msg = .ok bs ↔
    ∃ payload, Codec.encode msg = some payload ∧ payload.length ≤ MAX_FRAME_BYTES ∧
      bs = leBytes 4 payload.length ++ payload := by
  unfold writeMessage
  cases Codec.encode msg with
  | none => simp
  | some payload =>
    have hSize : UInt32.size = 4294967296 := rfl
    have hMax : MAX_FRAME_BYTES = 16777216 := rfl
    dsimp only
    split
    · split
      · simp
        omega
      · simp
        constructor
        · rintro rfl
          exact ⟨by omega, rfl⟩
        · rintro ⟨-, rfl⟩
          rfl
    · rw [if_pos (by omega)]
      simp
      omega

/-- A frame is read for what its payload decodes to. -/
theorem reads_frame {payload : Bytes} (h : payload.length ≤ MAX_FRAME_BYTES) :
    Reads (readMessage α) (leBytes 4 payload.length ++ payload)
      (((Codec.decode payload).map .ok).getD (.error .encoding)) := by
  have hLength : leValue (leBytes 4 payload.length) = payload.length :=
    leValue_leBytes (Nat.lt_of_le_of_lt h (by decide))
  refine reads_exactly (length_leBytes ..) ?_
  rw [hLength, if_neg (Nat.not_lt.mpr h)]
  exact reads_exactly_done rfl rfl

/-- A message that was written is read back. -/
theorem reads_written {msg : α} {bs : Bytes} (h : writeMessage msg = .ok bs) :
    Reads (readMessage α) bs (.ok msg) := by
  obtain ⟨payload, hEncode, hLimit, rfl⟩ := writeMessage_eq_ok.mp h
  have hRead := reads_frame (α := α) hLimit
  rwa [Codec.decode_eq_some.mpr hEncode] at hRead

end Framing

end MultimodalDb
