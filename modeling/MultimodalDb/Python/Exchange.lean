import MultimodalDb.Python.Agreement
import MultimodalDb.Server.Framing

/-!
# Exchanges of the Python client

The client sends a request in one frame and then reads one frame for the response.
-/

namespace MultimodalDb.Python

open Bytes Receiving

def MAX_FRAME_BYTES : Nat := 16 * 1024 * 1024

/-- What an exchange raises. -/
inductive ExchangeError where
  | raised (e : Error)
  | frameTooLarge (len : Nat)
  | connectionClosed
  deriving DecidableEq

def frame (payload : Bytes) : Except ExchangeError Bytes :=
  if MAX_FRAME_BYTES < payload.length then
    .error (.frameTooLarge payload.length)
  else
    .ok (leBytes 4 payload.length ++ payload)

/-- `read_frame`, and what is done with the frame. -/
def readFrame {α : Type} (use : Bytes → Except ExchangeError α) :
    Receiving (Except ExchangeError α) :=
  exactly 4 (.error .connectionClosed) fun header =>
    if MAX_FRAME_BYTES < leValue header then
      .done (.error (.frameTooLarge (leValue header)))
    else
      exactly (leValue header) (.error .connectionClosed) fun payload => .done (use payload)

/-- What `_exchange` sends for a request. -/
def sent (req : Value) : Except ExchangeError Bytes :=
  (encodeRequest req).mapError .raised >>= frame

/-- What `_exchange` does once the request is sent. -/
def awaitReply : Receiving (Except ExchangeError Value) :=
  readFrame fun payload => (decodeResponse payload).mapError .raised

/-! ## Over the stream -/

/-- The server reads what the client sends. -/
theorem reads_sent {v : Value} {bs : Bytes} (hTyped : Typed Protocol.request v)
    (h : sent v = .ok bs) :
    ∃ req, v = .ofRequest req ∧ Reads (Framing.readMessage Request) bs (.ok req) := by
  obtain ⟨req, payload, rfl, hEncode⟩ := (speaks_request.typed v).mp hTyped
  have hFrame : frame payload = .ok bs := by
    rw [sent, speaks_request.written hEncode] at h
    exact h
  rw [frame] at hFrame
  split at hFrame
  · cases hFrame
  · next hLimit =>
    obtain rfl := Except.ok.inj hFrame
    have hWritten : Framing.writeMessage req = .ok (leBytes 4 payload.length ++ payload) :=
      Framing.writeMessage_eq_ok.mpr ⟨payload, hEncode, Nat.not_lt.mp hLimit, rfl⟩
    exact ⟨req, rfl, Framing.reads_written hWritten⟩

/-- The client reads what the server answers. -/
theorem reads_answer {resp : Response} {bs : Bytes} (h : Framing.writeMessage resp = .ok bs) :
    Reads awaitReply bs (.ok (.ofResponse resp)) := by
  obtain ⟨payload, hEncode, hLimit, rfl⟩ := Framing.writeMessage_eq_ok.mp h
  have hLength : leValue (leBytes 4 payload.length) = payload.length :=
    leValue_leBytes (Nat.lt_of_le_of_lt hLimit (by decide))
  have hDecode : decodeResponse payload = .ok (.ofResponse resp) := by
    have hAgree := speaks_response.agree payload
    rwa [Codec.decode_eq_some.mpr hEncode] at hAgree
  have hFits : ¬ MAX_FRAME_BYTES < payload.length := Nat.not_lt.mpr hLimit
  refine reads_exactly (length_leBytes ..) ?_
  rw [hLength, if_neg hFits]
  refine reads_exactly_done rfl ?_
  dsimp only
  rw [hDecode]
  rfl

theorem atEnd_awaitReply : atEnd awaitReply = .error .connectionClosed :=
  atEnd_exactly (by decide) _ _

end MultimodalDb.Python
