import MultimodalDb.Lib.Base64
import MultimodalDb.Lib.Checks
import MultimodalDb.Server.Sql
import Mathlib.Data.List.DropRight

/-!
# The PEM decoder

`decode_blocks` reads a text line by line and decodes what stands between a `BEGIN` and an `END`
marker, whatever their labels. Its base64 decoder works on bytes: white space is dropped, the
padding counted and read as zeros, and the bytes that the padding stands for are cut off at the end.
-/

namespace MultimodalDb

namespace Pem

open Sql (isWhitespace)

inductive PemError where
  | invalidBase64
  | unmatchedEnd
  | unterminatedBlock
  | noBlocksFound
  deriving DecidableEq, Repr

/-! ## Base64 -/

def isAsciiWhitespace (b : UInt8) : Bool := b = 9 || b = 10 || b = 12 || b = 13 || b = 32

def value (byte : UInt8) : Option UInt8 :=
  if 'A'.toUInt8 ≤ byte ∧ byte ≤ 'Z'.toUInt8 then some (byte - 'A'.toUInt8)
  else if 'a'.toUInt8 ≤ byte ∧ byte ≤ 'z'.toUInt8 then some (byte - 'a'.toUInt8 + 26)
  else if '0'.toUInt8 ≤ byte ∧ byte ≤ '9'.toUInt8 then some (byte - '0'.toUInt8 + 52)
  else if byte = '+'.toUInt8 then some 62
  else if byte = '/'.toUInt8 then some 63
  else none

/-- The slot of a byte in its chunk; `=` is a zero. -/
def slot (byte : UInt8) : Except PemError UInt8 :=
  if byte = '='.toUInt8 then .ok 0
  else match value byte with
    | some v => .ok v
    | none => .error .invalidBase64

def decodeChunks : Bytes → Except PemError Bytes
  | c₀ :: c₁ :: c₂ :: c₃ :: rest => do
    let v₀ ← slot c₀
    let v₁ ← slot c₁
    let v₂ ← slot c₂
    let v₃ ← slot c₃
    let out ← decodeChunks rest
    .ok (((v₀ <<< 2) ||| (v₁ >>> 4)) :: ((v₁ <<< 4) ||| (v₂ >>> 2)) :: ((v₂ <<< 6) ||| v₃) :: out)
  | _ => .ok []

/-- How many `=` a string ends with. -/
def padCount (cleaned : Bytes) : Nat := (cleaned.reverse.takeWhile (· == '='.toUInt8)).length

def decodeCleaned (cleaned : Bytes) : Except PemError Bytes :=
  if cleaned.isEmpty || cleaned.length % 4 ≠ 0 then .error .invalidBase64
  else
    let pad := padCount cleaned
    if pad > 2 || (cleaned.take (cleaned.length - pad)).contains '='.toUInt8
      then .error .invalidBase64
    else do
      let out ← decodeChunks cleaned
      .ok (out.take (out.length - pad))

def utf8 (text : List Char) : Bytes := text.flatMap String.utf8EncodeChar

def base64Decode (input : List Char) : Except PemError Bytes :=
  decodeCleaned ((utf8 input).filter (!isAsciiWhitespace ·))

/-! ## What the base64 decoder accepts -/

open Base64 (Digit StandsFor padding)

theorem value_isDigit : ∀ n : Fin 256,
    (value (.ofNat n)).all (fun v => Base64.alphabet[v.toNat]? == some (.ofNat n)) = true := by
  decide +kernel

theorem value_table : ∀ n : Fin 64, value (Base64.digit n) = some (.ofNat n) := by decide +kernel

theorem digit_of_value {c v : UInt8} (h : value c = some v) : Digit c v.toNat := by
  have hDigit := value_isDigit ⟨c.toNat, c.toNat_lt⟩
  simpa [h, Digit] using hDigit

theorem slot_of_ne {c : UInt8} (h : c ≠ padding) : slot c =
    match value c with
    | some v => .ok v
    | none => .error .invalidBase64 :=
  if_neg h

theorem slot_digit {c : UInt8} {n : Nat} (h : Digit c n) : slot c = .ok (.ofNat n) := by
  have hEq : c = Base64.digit n := Option.some.inj (h.symm.trans (Base64.digit_spec h.lt))
  have hTable := value_table ⟨n, h.lt⟩
  rw [slot_of_ne h.ne_padding, hEq, hTable]

theorem slot_padding : slot padding = .ok 0 := rfl

theorem slot_eq_ok {c v : UInt8} (h : slot c = .ok v) (hPadding : c ≠ padding) :
    Digit c v.toNat := by
  rw [slot_of_ne hPadding] at h
  split at h
  next w hw => exact Except.ok.inj h ▸ digit_of_value hw
  next => cases h

/-! The three bytes of a chunk as numbers. -/

theorem high_table : ∀ v w : Fin 64, ((UInt8.ofNat v <<< 2) ||| (UInt8.ofNat w >>> 4)).toNat
    = v.val * 4 + w.val / 16 := by
  decide +kernel

theorem middle_table : ∀ v w : Fin 64, ((UInt8.ofNat v <<< 4) ||| (UInt8.ofNat w >>> 2)).toNat
    = v.val % 16 * 16 + w.val / 4 := by
  decide +kernel

theorem low_table : ∀ v w : Fin 64, ((UInt8.ofNat v <<< 6) ||| UInt8.ofNat w).toNat
    = v.val % 4 * 64 + w.val := by
  decide +kernel

section Chunks

variable {v w : UInt8} (hv : v.toNat < 64) (hw : w.toNat < 64)

include hv hw

theorem high_toNat : ((v <<< 2) ||| (w >>> 4)).toNat = v.toNat * 4 + w.toNat / 16 := by
  simpa using high_table ⟨v.toNat, hv⟩ ⟨w.toNat, hw⟩

theorem middle_toNat : ((v <<< 4) ||| (w >>> 2)).toNat = v.toNat % 16 * 16 + w.toNat / 4 := by
  simpa using middle_table ⟨v.toNat, hv⟩ ⟨w.toNat, hw⟩

theorem low_toNat : ((v <<< 6) ||| w).toNat = v.toNat % 4 * 64 + w.toNat := by
  simpa using low_table ⟨v.toNat, hv⟩ ⟨w.toNat, hw⟩

end Chunks

theorem decodeChunks_cons_eq_ok {c₀ c₁ c₂ c₃ : UInt8} {rest full : Bytes} :
    decodeChunks (c₀ :: c₁ :: c₂ :: c₃ :: rest) = .ok full ↔
      ∃ v₀ v₁ v₂ v₃ out, slot c₀ = .ok v₀ ∧ slot c₁ = .ok v₁ ∧ slot c₂ = .ok v₂ ∧ slot c₃ = .ok v₃ ∧
        decodeChunks rest = .ok out ∧
        full = ((v₀ <<< 2) ||| (v₁ >>> 4)) :: ((v₁ <<< 4) ||| (v₂ >>> 2)) ::
          ((v₂ <<< 6) ||| v₃) :: out := by
  constructor
  · intro h
    rw [decodeChunks] at h
    obtain ⟨v₀, h₀, h⟩ := exists_of_bind h
    obtain ⟨v₁, h₁, h⟩ := exists_of_bind h
    obtain ⟨v₂, h₂, h⟩ := exists_of_bind h
    obtain ⟨v₃, h₃, h⟩ := exists_of_bind h
    obtain ⟨out, hOut, h⟩ := exists_of_bind h
    exact ⟨v₀, v₁, v₂, v₃, out, h₀, h₁, h₂, h₃, hOut, (Except.ok.inj h).symm⟩
  · rintro ⟨v₀, v₁, v₂, v₃, out, h₀, h₁, h₂, h₃, hOut, rfl⟩
    simp only [decodeChunks, h₀, h₁, h₂, h₃, hOut]
    rfl

theorem length_decodeChunks {s out : Bytes} (h : decodeChunks s = .ok out) :
    out.length = s.length / 4 * 3 := by
  induction s using decodeChunks.induct generalizing out with
  | case1 c₀ c₁ c₂ c₃ rest ih =>
    obtain ⟨_, _, _, _, out, _, _, _, _, hOut, rfl⟩ := decodeChunks_cons_eq_ok.mp h
    simp only [List.length_cons, ih hOut]
    omega
  | case2 s hShort =>
    rw [decodeChunks] at h
    · cases h
      match s, hShort with
      | [], _ | [_], _ | [_, _], _ | [_, _, _], _ => simp
      | c₀ :: c₁ :: c₂ :: c₃ :: rest, hShort => exact absurd rfl (hShort c₀ c₁ c₂ c₃ rest)
    · exact hShort

/-- A string of whole chunks, padded at its end: what its chunks decode to, less a byte for every
`=`, is what the string stands for. -/
theorem standsFor_of_decodeChunks {s full front : Bytes} {n : Nat}
    (hString : s = front ++ List.replicate n padding) (hn : n ≤ 2) (hFront : padding ∉ front)
    (hLength : s.length % 4 = 0) (hDecoded : decodeChunks s = .ok full) :
    StandsFor s (full.take (full.length - n)) := by
  induction s using decodeChunks.induct generalizing front full with
  | case1 c₀ c₁ c₂ c₃ rest ih =>
    obtain ⟨v₀, v₁, v₂, v₃, out, h₀, h₁, h₂, h₃, hOut, rfl⟩ := decodeChunks_cons_eq_ok.mp hDecoded
    have hCount := congrArg List.length hString
    have hOutLength := length_decodeChunks hOut
    simp only [List.length_cons, List.length_append, List.length_replicate] at hCount hLength
    -- the padding reaches into the first chunk only where it is the last one
    match front, hString, hFront, hCount with
    | d₀ :: d₁ :: d₂ :: d₃ :: front, hString, hFront, hCount =>
      simp only [List.cons_append, List.cons.injEq] at hString
      obtain ⟨rfl, rfl, rfl, rfl, hRest⟩ := hString
      simp only [List.mem_cons, not_or] at hFront
      obtain ⟨hp₀, hp₁, hp₂, hp₃, hFront⟩ := hFront
      have hd₀ := slot_eq_ok h₀ (Ne.symm hp₀)
      have hd₁ := slot_eq_ok h₁ (Ne.symm hp₁)
      have hd₂ := slot_eq_ok h₂ (Ne.symm hp₂)
      have hd₃ := slot_eq_ok h₃ (Ne.symm hp₃)
      have hn' : n ≤ out.length := by
        simp only [List.length_cons] at hCount
        omega
      simp only [List.length_cons,
        show out.length + 1 + 1 + 1 - n = out.length - n + 1 + 1 + 1 by omega, List.take_succ_cons]
      apply StandsFor.four hd₀ hd₁ hd₂ hd₃ _ (ih hRest hFront (by omega) hOut)
      rw [high_toNat hd₀.lt hd₁.lt, middle_toNat hd₁.lt hd₂.lt, low_toNat hd₂.lt hd₃.lt]
      omega
    | [d₀, d₁, d₂], hString, hFront, hCount =>
      obtain rfl : n = 1 := by simp only [List.length_cons, List.length_nil] at hCount; omega
      simp only [List.cons_append, List.nil_append, List.replicate, List.cons.injEq] at hString
      obtain ⟨rfl, rfl, rfl, rfl, rfl⟩ := hString
      simp only [List.mem_cons, not_or, List.not_mem_nil, not_false_eq_true, and_true] at hFront
      obtain ⟨hp₀, hp₁, hp₂⟩ := hFront
      have hd₀ := slot_eq_ok h₀ (Ne.symm hp₀)
      have hd₁ := slot_eq_ok h₁ (Ne.symm hp₁)
      have hd₂ := slot_eq_ok h₂ (Ne.symm hp₂)
      cases hOut
      apply StandsFor.three hd₀ hd₁ hd₂
      rw [high_toNat hd₀.lt hd₁.lt, middle_toNat hd₁.lt hd₂.lt]
      omega
    | [d₀, d₁], hString, hFront, hCount =>
      obtain rfl : n = 2 := by simp only [List.length_cons, List.length_nil] at hCount; omega
      simp only [List.cons_append, List.nil_append, List.replicate, List.cons.injEq] at hString
      obtain ⟨rfl, rfl, rfl, rfl, rfl⟩ := hString
      simp only [List.mem_cons, not_or, List.not_mem_nil, not_false_eq_true, and_true] at hFront
      obtain ⟨hp₀, hp₁⟩ := hFront
      have hd₀ := slot_eq_ok h₀ (Ne.symm hp₀)
      have hd₁ := slot_eq_ok h₁ (Ne.symm hp₁)
      cases hOut
      apply StandsFor.two hd₀ hd₁
      rw [high_toNat hd₀.lt hd₁.lt]
      omega
    | [d₀], hString, hFront, hCount =>
      simp only [List.length_cons, List.length_nil] at hCount; omega
    | [], hString, hFront, hCount => simp only [List.length_nil] at hCount; omega
  | case2 s hShort =>
    obtain rfl : s = [] := by
      match s, hShort with
      | [], _ => rfl
      | [_], _ | [_, _], _ | [_, _, _], _ => simp at hLength
      | c₀ :: c₁ :: c₂ :: c₃ :: rest, hShort => exact absurd rfl (hShort c₀ c₁ c₂ c₃ rest)
    cases hDecoded
    rw [List.take_nil]
    exact .nil

theorem toNat_ofNat_of_digit {c : UInt8} {v : Nat} (h : Digit c v) : (UInt8.ofNat v).toNat = v :=
  UInt8.toNat_ofNat_of_lt (h.lt.trans (by decide))

/-- What a string stands for is what its chunks decode to, less a byte for every `=`. -/
theorem decodeChunks_of_standsFor {s bytes : Bytes} (h : StandsFor s bytes) :
    ∃ front n full, s = front ++ List.replicate n padding ∧ n ≤ 2 ∧ padding ∉ front ∧
      decodeChunks s = .ok full ∧ full.take (full.length - n) = bytes := by
  induction h with
  | nil => exact ⟨[], 0, [], rfl, Nat.zero_le 2, by simp, rfl, rfl⟩
  | @four c₀ c₁ c₂ c₃ b₀ b₁ b₂ v₀ v₁ v₂ v₃ rest bytes h₀ h₁ h₂ h₃ hNumber hRest ih =>
    obtain ⟨front, n, full, rfl, hn, hFront, hFull, hBytes⟩ := ih
    have e₀ := toNat_ofNat_of_digit h₀
    have e₁ := toNat_ofNat_of_digit h₁
    have e₂ := toNat_ofNat_of_digit h₂
    have e₃ := toNat_ofNat_of_digit h₃
    have l₀ := e₀.trans_lt h₀.lt
    have l₁ := e₁.trans_lt h₁.lt
    have l₂ := e₂.trans_lt h₂.lt
    have l₃ := e₃.trans_lt h₃.lt
    have hb₀ := b₀.toNat_lt
    have hb₁ := b₁.toNat_lt
    have hb₂ := b₂.toNat_lt
    have hn' : n ≤ full.length := by
      have hShape := hRest.shape.1
      have hLength := length_decodeChunks hFull
      simp only [List.length_append, List.length_replicate] at hShape hLength
      omega
    refine ⟨c₀ :: c₁ :: c₂ :: c₃ :: front, n, _, rfl, hn, ?_, decodeChunks_cons_eq_ok.mpr
      ⟨_, _, _, _, full, slot_digit h₀, slot_digit h₁, slot_digit h₂, slot_digit h₃, hFull, rfl⟩,
      ?_⟩
    · simp only [List.mem_cons, not_or]
      exact ⟨h₀.ne_padding.symm, h₁.ne_padding.symm, h₂.ne_padding.symm, h₃.ne_padding.symm, hFront⟩
    · simp only [List.length_cons,
        show full.length + 1 + 1 + 1 - n = full.length - n + 1 + 1 + 1 by
          omega, List.take_succ_cons,
        hBytes, List.cons.injEq, and_true, ← UInt8.toNat_inj, high_toNat l₀ l₁, middle_toNat l₁ l₂,
        low_toNat l₂ l₃]
      omega
  | @three c₀ c₁ c₂ b₀ b₁ v₀ v₁ v₂ h₀ h₁ h₂ hNumber =>
    have e₀ := toNat_ofNat_of_digit h₀
    have e₁ := toNat_ofNat_of_digit h₁
    have e₂ := toNat_ofNat_of_digit h₂
    have l₀ := e₀.trans_lt h₀.lt
    have l₁ := e₁.trans_lt h₁.lt
    have l₂ := e₂.trans_lt h₂.lt
    have hb₀ := b₀.toNat_lt
    have hb₁ := b₁.toNat_lt
    refine ⟨[c₀, c₁, c₂], 1, _, rfl, by omega, ?_, decodeChunks_cons_eq_ok.mpr
      ⟨_, _, _, _, [], slot_digit h₀, slot_digit h₁, slot_digit h₂, slot_padding, rfl, rfl⟩, ?_⟩
    · simp [h₀.ne_padding.symm, h₁.ne_padding.symm, h₂.ne_padding.symm]
    · simp only [List.length_cons, List.length_nil, Nat.reduceAdd, Nat.reduceSub,
        List.take_succ_cons,
        List.take_zero, List.cons.injEq, and_true, ← UInt8.toNat_inj, high_toNat l₀ l₁,
        middle_toNat l₁ l₂]
      omega
  | @two c₀ c₁ b₀ v₀ v₁ h₀ h₁ hNumber =>
    have e₀ := toNat_ofNat_of_digit h₀
    have e₁ := toNat_ofNat_of_digit h₁
    have l₀ := e₀.trans_lt h₀.lt
    have l₁ := e₁.trans_lt h₁.lt
    have hb₀ := b₀.toNat_lt
    refine ⟨[c₀, c₁], 2, _, rfl, le_rfl, ?_, decodeChunks_cons_eq_ok.mpr
      ⟨_, _, _, _, [], slot_digit h₀, slot_digit h₁, slot_padding, slot_padding, rfl, rfl⟩, ?_⟩
    · simp [h₀.ne_padding.symm, h₁.ne_padding.symm]
    · simp only [List.length_cons, List.length_nil, Nat.reduceAdd, Nat.reduceSub,
        List.take_succ_cons,
        List.take_zero, List.cons.injEq, and_true, ← UInt8.toNat_inj, high_toNat l₀ l₁]
      omega

/-! The padding is counted right. -/

theorem padCount_append {front : Bytes} (n : Nat) (h : padding ∉ front) :
    padCount (front ++ List.replicate n padding) = n := by
  have hNone : front.reverse.takeWhile (· == padding) = [] := by
    cases hReverse : front.reverse with
    | nil => rfl
    | cons c rest =>
      have hMem : c ∈ front := List.mem_reverse.mp (hReverse ▸ List.mem_cons_self)
      exact List.takeWhile_cons_of_neg fun hc => h (eq_of_beq hc ▸ hMem)
  rw [padCount, List.reverse_append, List.reverse_replicate]
  change ((List.replicate n padding ++ front.reverse).takeWhile (· == padding)).length = n
  rw [List.takeWhile_append_of_pos (by simp), hNone, List.append_nil, List.length_replicate]

theorem take_append_padCount (s : Bytes) :
    s.take (s.length - padCount s) ++ List.replicate (padCount s) padding = s := by
  have hSplit := List.rdropWhile_append_rtakeWhile (p := (· == padding)) (l := s)
  have hPadding : s.rtakeWhile (· == padding) = List.replicate (padCount s) padding := by
    refine List.eq_replicate_iff.mpr ⟨List.length_reverse, fun c hc => ?_⟩
    exact eq_of_beq (List.mem_takeWhile_imp (p := (· == padding)) (List.mem_reverse.mp hc))
  rw [hPadding] at hSplit
  generalize padCount s = n at hSplit ⊢
  rw [← hSplit]
  simp

/-- The decoder accepts the base64 strings other than the empty one, and returns what they stand
for. -/
theorem decodeCleaned_eq_ok {s bytes : Bytes} :
    decodeCleaned s = .ok bytes ↔ s ≠ [] ∧ StandsFor s bytes := by
  constructor
  · intro h
    rw [decodeCleaned] at h
    split at h
    next => cases h
    next hWhole =>
      simp only [Bool.or_eq_true, List.isEmpty_iff, decide_eq_true_eq, not_or, not_not] at hWhole
      dsimp only at h
      split at h
      next => cases h
      next hPadded =>
        simp only [Bool.or_eq_true, decide_eq_true_eq, List.contains_iff_mem, not_or, not_lt]
          at hPadded
        obtain ⟨full, hFull, h⟩ := exists_of_bind h
        obtain rfl := Except.ok.inj h
        exact ⟨hWhole.1, standsFor_of_decodeChunks (take_append_padCount s).symm hPadded.1 hPadded.2
          hWhole.2 hFull⟩
  · rintro ⟨hSome, hStands⟩
    have hShape := hStands.shape.1
    obtain ⟨front, n, full, rfl, hn, hFront, hFull, rfl⟩ := decodeChunks_of_standsFor hStands
    rw [decodeCleaned, padCount_append n hFront, if_neg, if_neg, hFull]
    · rfl
    · simp only [List.length_append, List.length_replicate, Nat.add_sub_cancel, List.take_left',
        Bool.or_eq_true, decide_eq_true_eq, List.contains_iff_mem, not_or, not_lt]
      exact ⟨hn, hFront⟩
    · simp only [Bool.or_eq_true, List.isEmpty_iff, decide_eq_true_eq, not_or, not_not]
      exact ⟨hSome, hShape⟩

/-! ## Lines -/

def splitInclusive : List Char → List (List Char)
  | [] => []
  | c :: cs =>
    if c = '\n' then [c] :: splitInclusive cs
    else match splitInclusive cs with
      | [] => [[c]]
      | line :: rest => (c :: line) :: rest

def stripSuffix (c : Char) (text : List Char) : Option (List Char) :=
  if text.getLast? = some c then some text.dropLast else none

/-- What `str::lines` makes of a piece: without its line feed, and without a carriage return in
front of it. -/
def stripLineEnd (piece : List Char) : List Char :=
  match stripSuffix '\n' piece with
  | none => piece
  | some line => (stripSuffix '\r' line).getD line

def lines (text : List Char) : List (List Char) := (splitInclusive text).map stripLineEnd

def trim (text : List Char) : List Char := (text.dropWhile isWhitespace).rdropWhile isWhitespace

def dashes : List Char := "-----".toList

def beginMark : List Char := "-----BEGIN ".toList

def endMark : List Char := "-----END ".toList

/-- Starts with the mark and ends with dashes. -/
def isMarker (mark trimmed : List Char) : Bool :=
  mark.isPrefixOf trimmed && dashes.isSuffixOf trimmed

/-! ## Blocks -/

/-- What the loop over the lines keeps. -/
structure Scan where
  blocks : List Bytes
  body : List Char
  inBlock : Bool

def step (s : Scan) (line : List Char) : Except PemError Scan :=
  let trimmed := trim line
  if isMarker beginMark trimmed then
    if s.inBlock then .error .unterminatedBlock
    else .ok { s with inBlock := true, body := [] }
  else if isMarker endMark trimmed then
    if s.inBlock then do
      let block ← base64Decode s.body
      .ok { s with blocks := s.blocks ++ [block], inBlock := false }
    else .error .unmatchedEnd
  else if s.inBlock then .ok { s with body := s.body ++ trimmed }
  else .ok s

def decodeBlocks (pem : List Char) : Except PemError (List Bytes) := do
  let s ← (lines pem).foldlM step ⟨[], [], false⟩
  if s.inBlock then .error .unterminatedBlock
  else if s.blocks.isEmpty then .error .noBlocksFound
  else .ok s.blocks

end Pem

end MultimodalDb
