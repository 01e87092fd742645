import MultimodalDb.Lib.Bytes
import MultimodalDb.Lib.Program

/-!
# Streams that come in pieces

Who reads a stream asks for bytes and gets some of those that come next, at most as many as it asked
for. An empty piece says that the stream has ended. How the bytes are cut into pieces is not up to
the reader.

`Reads p bs a` says that the program `p` takes the bytes `bs` off the stream for the value `a`,
however they are cut, and never asks for a byte behind them.
-/

namespace MultimodalDb

/-- A program that reads a stream. A call asks for so many bytes. -/
abbrev Receiving (α : Type) : Type := Program Nat (fun _ => Bytes) α

namespace Receiving

variable {α β : Type} {p : Receiving α} {a : α} {bs cs : Bytes}

/-- Pieces are taken until there are `n` bytes. Every piece brings a byte at least, so `fuel` may be
what is missing. -/
def fill (n : Nat) : (fuel : Nat) → (got : Bytes) → Receiving (Option Bytes)
  | 0, got => .done (if n ≤ got.length then some got else none)
  | fuel + 1, got =>
    if n ≤ got.length then .done (some got)
    else .call (n - got.length) fun piece => if piece = [] then .done none
      else fill n fuel (got ++ piece)

/-- The next `n` bytes, or that the stream ended before them. -/
def readExact (n : Nat) : Receiving (Option Bytes) := fill n n []

/-- The next `n` bytes for what follows; `short` where the stream ends before them. -/
def exactly (n : Nat) (short : α) (f : Bytes → Receiving α) : Receiving α := do
  match ← readExact n with
  | none => return short
  | some bytes => f bytes

/-! ## What is read -/

def Reads : Receiving α → Bytes → α → Prop
  | .done a', bs, a => bs = [] ∧ a' = a
  | .call n next, bs, a => n ≤ bs.length ∧ 0 < n ∧
    ∀ piece rest, piece ++ rest = bs → piece ≠ [] → piece.length ≤ n → Reads (next piece) rest a

theorem Reads.piece {n : Nat} {next : Bytes → Receiving α} {piece : Bytes}
    (h : Reads (.call n next) (piece ++ cs) a)
    (hSome : piece ≠ []) (hLength : piece.length ≤ n) : Reads (next piece) cs a :=
  h.2.2 piece cs rfl hSome hLength

/-- A piece of what comes next is one of what is read: no reader asks for more. -/
theorem Reads.of_stream {n : Nat} {next : Bytes → Receiving α} {piece rest : Bytes}
    (h : Reads (.call n next) bs a)
    (hStream : piece ++ rest = bs ++ cs) (hSome : piece ≠ []) (hLength : piece.length ≤ n) :
    ∃ left, rest = left ++ cs ∧ Reads (next piece) left a := by
  obtain ⟨hAsked, -, hNext⟩ := h
  obtain ⟨left, rfl, rfl⟩ : ∃ left, bs = piece ++ left ∧ rest = left ++ cs := by
    rcases List.append_eq_append_iff.mp hStream with ⟨left, rfl, rfl⟩ | ⟨past, rfl, rfl⟩
    · exact ⟨left, rfl, rfl⟩
    · have hPast : past = [] := by
        rw [List.length_append] at hLength
        exact List.length_eq_zero_iff.mp (by omega)
      subst hPast
      exact ⟨[], by simp, rfl⟩
  exact ⟨left, rfl, hNext piece left rfl hSome hLength⟩

theorem Reads.bind {f : α → Receiving β} {b : β} (h : Reads p bs a) (hf : Reads (f a) cs b) :
    Reads (p >>= f) (bs ++ cs) b := by
  induction p generalizing bs with
  | done a' =>
    obtain ⟨rfl, rfl⟩ := h
    exact hf
  | call n next ih =>
    refine ⟨?_, h.2.1, fun piece rest hStream hSome hLength => ?_⟩
    · rw [List.length_append]
      exact Nat.le_add_right_of_le h.1
    · obtain ⟨left, rfl, hLeft⟩ := h.of_stream hStream hSome hLength
      exact ih piece hLeft

/-- What follows reads nothing. -/
theorem Reads.result {f : α → Receiving β} {b : β} (h : Reads p bs a) (hf : f a = .done b) :
    Reads (p >>= f) bs b := by
  have hDone : Reads (f a) [] b := by
    rw [hf]
    exact ⟨rfl, rfl⟩
  have hBind := h.bind hDone
  rwa [List.append_nil] at hBind

theorem reads_fill {n fuel : Nat} {got : Bytes} (hLength : got.length + bs.length = n)
    (hFuel : bs.length ≤ fuel) :
    Reads (fill n fuel got) bs (some (got ++ bs)) := by
  induction fuel generalizing got bs with
  | zero =>
    obtain rfl := List.length_eq_zero_iff.mp (Nat.le_zero.mp hFuel)
    rw [fill, if_pos (by omega), List.append_nil]
    exact ⟨rfl, rfl⟩
  | succ fuel ih =>
    rw [fill]
    split
    · next hFull =>
      have hNone : bs = [] := List.length_eq_zero_iff.mp (by omega)
      rw [hNone, List.append_nil]
      exact ⟨rfl, rfl⟩
    · next hShort =>
      refine ⟨by omega, by omega, ?_⟩
      rintro piece rest rfl hSome hPiece
      dsimp only
      rw [if_neg hSome, ← List.append_assoc]
      have hPos := List.length_pos_iff.mpr hSome
      rw [List.length_append] at hLength hFuel
      exact ih (by rw [List.length_append]; omega) (by omega)

theorem reads_readExact (bs : Bytes) : Reads (readExact bs.length) bs (some bs) := by
  have hStart : ([] : Bytes).length + bs.length = bs.length := Nat.zero_add _
  exact reads_fill hStart (Nat.le_refl _)

theorem reads_exactly {n : Nat} {short : α} {f : Bytes → Receiving α} (hLength : bs.length = n)
    (h : Reads (f bs) cs a) : Reads (exactly n short f) (bs ++ cs) a := by
  subst hLength
  exact (reads_readExact bs).bind h

theorem reads_exactly_done {n : Nat} {short : α} {f : Bytes → Receiving α} (hLength : bs.length = n)
    (h : f bs = .done a) : Reads (exactly n short f) bs a := by
  subst hLength
  exact (reads_readExact bs).result h

/-- No reader that has more to read is done, and one that is done has read its value. -/
theorem Reads.of_done {a' : α} (h : Reads (.done a') bs a) : bs = [] ∧ a' = a := h

theorem Reads.ne_nil {n : Nat} {next : Bytes → Receiving α} (h : Reads (.call n next) bs a) :
    bs ≠ [] := by
  rintro rfl
  exact absurd h.2.1 (Nat.not_lt.mpr h.1)

/-! ## Streams that end -/

/-- The value of a program whose stream has ended. -/
def atEnd : Receiving α → α
  | .done a => a
  | .call _ next => atEnd (next [])

theorem atEnd_exactly {n : Nat} (h : 0 < n) (short : α) (f : Bytes → Receiving α) :
    atEnd (exactly n short f) = short := by
  cases n with
  | zero => cases h
  | succ n => rfl

/-- A stream that ends at once. -/
theorem exactly_end {n m : Nat} {short : α} {f : Bytes → Receiving α} {next : Bytes → Receiving α}
    (hSome : 0 < n) (h : exactly n short f = .call m next) : next [] = .done short := by
  cases n with
  | zero => cases hSome
  | succ n =>
    cases h
    rfl

theorem exactly_ne_done {n : Nat} {short : α} {f : Bytes → Receiving α} (hSome : 0 < n) (b : α) :
    exactly n short f ≠ .done b := by
  cases n with
  | zero => cases hSome
  | succ n =>
    intro h
    cases h

end Receiving

end MultimodalDb
