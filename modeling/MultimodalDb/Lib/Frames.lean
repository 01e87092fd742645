import MultimodalDb.Lib.Bytes

/-!
# Length-prefixed frames

An append-only log is a sequence of frames: a fixed number of tag bytes, the payload's length as
four little-endian bytes, the payload. A reader takes complete frames off the front until what is
left is not one, and there is nothing in the file to resynchronise on.

* `nextFrame_append`, `eq_of_nextFrame`: taking a frame off the front is exact in both directions,
  so a byte string splits into frames and a tail that starts none in one way (`exists_frames`,
  `scan_frames`).
* `nextFrame_take`: a proper prefix of a frame is not a frame, so a log cut anywhere reads as the
  frames wholly before the cut (`take_flat`).
-/

namespace MultimodalDb

open Bytes

/-- A frame: `head` tag bytes and a payload whose length fits its four-byte prefix. -/
@[ext] structure Frame (head : Nat) where
  tag : Bytes
  payload : Bytes
  length_tag : tag.length = head
  length_payload : payload.length < 256 ^ 4
  deriving DecidableEq

namespace Frame

variable {head : Nat}

def bytes (f : Frame head) : Bytes := f.tag ++ (leBytes 4 f.payload.length ++ f.payload)

@[simp] theorem length_bytes (f : Frame head) : f.bytes.length = head + 4 + f.payload.length := by
  simp [bytes, f.length_tag]
  omega

theorem bytes_length_pos (f : Frame head) : 0 < f.bytes.length := by
  rw [length_bytes]
  omega

/-- The bytes of a sequence of frames. -/
def flat (fs : List (Frame head)) : Bytes := fs.flatMap bytes

@[simp] theorem flat_nil : flat ([] : List (Frame head)) = [] := rfl

@[simp] theorem flat_cons (f : Frame head) (fs : List (Frame head)) :
    flat (f :: fs) = f.bytes ++ flat fs := rfl

@[simp] theorem flat_append (fs gs : List (Frame head)) : flat (fs ++ gs) = flat fs ++ flat gs :=
  List.flatMap_append

theorem length_le_flat (fs : List (Frame head)) : fs.length ≤ (flat fs).length := by
  induction fs with
  | nil => rfl
  | cons f fs ih =>
    have := f.bytes_length_pos
    rw [flat_cons, List.length_append, List.length_cons]
    omega

/-! ## Taking one frame -/

/-- The frame at the front, and what follows it, when a complete one is there. -/
def nextFrame (head : Nat) (bs : Bytes) : Option (Frame head × Bytes) :=
  if hHead : head + 4 ≤ bs.length then
    if hLen : head + 4 + leValue (slice bs head 4) ≤ bs.length then
      some (⟨bs.take head, slice bs (head + 4) (leValue (slice bs head 4)),
        List.length_take_of_le (by omega),
        by
          rw [length_slice hLen]
          simpa only [length_slice hHead] using leValue_lt (slice bs head 4)⟩,
        bs.drop (head + 4 + leValue (slice bs head 4)))
    else none
  else none

theorem lengthField_append (f : Frame head) (rest : Bytes) :
    slice (f.bytes ++ rest) head 4 = leBytes 4 f.payload.length := by
  have h := slice_middle f.tag (leBytes 4 f.payload.length) (f.payload ++ rest)
  rw [length_leBytes, f.length_tag] at h
  simpa only [bytes, List.append_assoc] using h

theorem nextFrame_append (f : Frame head) (rest : Bytes) :
    nextFrame head (f.bytes ++ rest) = some (f, rest) := by
  have hField : leValue (slice (f.bytes ++ rest) head 4) = f.payload.length := by
    rw [lengthField_append, leValue_leBytes f.length_payload]
  have hTake : (f.bytes ++ rest).take head = f.tag := by
    rw [bytes, List.append_assoc, List.take_append_of_le_length f.length_tag.ge,
      List.take_of_length_le f.length_tag.le]
  have hPayload : slice (f.bytes ++ rest) (head + 4) f.payload.length = f.payload := by
    have h := slice_middle (f.tag ++ leBytes 4 f.payload.length) f.payload rest
    rw [List.length_append, f.length_tag, length_leBytes] at h
    simpa only [bytes, List.append_assoc] using h
  have hDrop : (f.bytes ++ rest).drop (head + 4 + f.payload.length) = rest := by
    rw [← f.length_bytes, List.drop_left]
  unfold nextFrame
  rw [dif_pos (by rw [List.length_append, length_bytes]; omega),
    dif_pos (by rw [hField, List.length_append, length_bytes]; omega)]
  simp only [Option.some.injEq, Prod.mk.injEq]
  refine ⟨Frame.ext hTake (?_ : slice _ _ (leValue _) = _), ?_⟩
  · rw [hField, hPayload]
  · rw [hField, hDrop]

theorem eq_of_nextFrame {bs rest : Bytes} {f : Frame head}
    (h : nextFrame head bs = some (f, rest)) : bs = f.bytes ++ rest := by
  unfold nextFrame at h
  split at h
  · next hHead =>
    split at h
    · next hLen =>
      simp only [Option.some.injEq, Prod.mk.injEq] at h
      obtain ⟨rfl, rfl⟩ := h
      have hField : leBytes 4 (slice bs (head + 4) (leValue (slice bs head 4))).length =
          slice bs head 4 := by
        rw [length_slice hLen, leBytes_leValue (length_slice hHead)]
      simp only [bytes, hField]
      unfold slice
      simp only [← List.drop_drop, List.append_assoc, List.take_append_drop]
    · cases h
  · cases h

/-- A proper prefix of a frame is not a frame. -/
theorem nextFrame_take (f : Frame head) {n : Nat} (h : n < f.bytes.length) :
    nextFrame head (f.bytes.take n) = none := by
  cases hNext : nextFrame head (f.bytes.take n) with
  | none => rfl
  | some found =>
    obtain ⟨g, rest⟩ := found
    have hg := eq_of_nextFrame hNext
    have hWhole : nextFrame head f.bytes = some (g, rest ++ f.bytes.drop n) := by
      rw [← nextFrame_append g, ← List.append_assoc, ← hg, List.take_append_drop]
    have hf := nextFrame_append f []
    rw [List.append_nil, hWhole, Option.some.injEq, Prod.mk.injEq] at hf
    have hLen := congrArg List.length hg
    rw [hf.1, List.length_append, List.length_take] at hLen
    omega

/-! ## Reading a log -/

/-- The complete frames from the front on, at most `fuel` of them. -/
def scan (head : Nat) : Nat → Bytes → List (Frame head)
  | 0, _ => []
  | fuel + 1, bs =>
    match nextFrame head bs with
    | none => []
    | some (f, rest) => f :: scan head fuel rest

theorem scan_frames (fs : List (Frame head)) {tail : Bytes} (hTail : nextFrame head tail = none)
    {fuel : Nat} (hFuel : fs.length ≤ fuel) : scan head fuel (flat fs ++ tail) = fs := by
  induction fs generalizing fuel with
  | nil =>
    cases fuel with
    | zero => rfl
    | succ fuel => simp [scan, hTail]
  | cons f fs ih =>
    cases fuel with
    | zero => simp at hFuel
    | succ fuel =>
      rw [flat_cons, List.append_assoc, scan, nextFrame_append]
      simp only [ih (Nat.le_of_succ_le_succ hFuel)]

/-- Every byte string is a sequence of frames and a tail that starts with none. -/
theorem exists_frames (head : Nat) (bs : Bytes) :
    ∃ (fs : List (Frame head)) (tail : Bytes),
      bs = flat fs ++ tail ∧ nextFrame head tail = none := by
  induction hLen : bs.length using Nat.strongRecOn generalizing bs with
  | ind len ih =>
    cases hNext : nextFrame head bs with
    | none => exact ⟨[], bs, rfl, hNext⟩
    | some found =>
      obtain ⟨f, rest⟩ := found
      have hbs := eq_of_nextFrame hNext
      have hShorter : rest.length < len := by
        have := f.bytes_length_pos
        rw [← hLen, hbs, List.length_append]
        omega
      obtain ⟨fs, tail, hRest, hTail⟩ := ih rest.length hShorter rest rfl
      exact ⟨f :: fs, tail, by rw [hbs, hRest, flat_cons, List.append_assoc], hTail⟩

/-! ## Cutting a log -/

/-- The frames of a sequence that end at or before byte `cut`. -/
def wholeBefore : List (Frame head) → Nat → List (Frame head)
  | [], _ => []
  | f :: fs, cut => if f.bytes.length ≤ cut then f :: wholeBefore fs (cut - f.bytes.length) else []

/-- A log cut at any byte is the frames wholly before the cut and a torn tail. -/
theorem take_flat (fs : List (Frame head)) (cut : Nat) :
    ∃ tail, (flat fs).take cut = flat (wholeBefore fs cut) ++ tail ∧
      nextFrame head tail = none := by
  induction fs generalizing cut with
  | nil => exact ⟨[], by simp [wholeBefore], by simp [nextFrame]⟩
  | cons f fs ih =>
    by_cases hWhole : f.bytes.length ≤ cut
    · obtain ⟨tail, hTake, hTail⟩ := ih (cut - f.bytes.length)
      refine ⟨tail, ?_, hTail⟩
      rw [wholeBefore, if_pos hWhole, flat_cons, flat_cons, List.take_append,
        List.take_of_length_le hWhole, hTake, List.append_assoc]
    · refine ⟨f.bytes.take cut, ?_, nextFrame_take f (by omega)⟩
      rw [wholeBefore, if_neg hWhole, flat_cons, List.take_append_of_le_length (by omega)]
      rfl

end Frame

end MultimodalDb
