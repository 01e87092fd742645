import MultimodalDb.Server.Pem
import Mathlib.Data.Bool.AllAny

/-!
# What the PEM decoder accepts

A file is a sequence of lines: text, and blocks of a line that is a `BEGIN` marker, lines that are
none, and a line that is an `END` marker (`Blocks`). Labels are not compared.
-/

namespace MultimodalDb

namespace Pem

open Base64 (StandsFor padding)
open Sql (isWhitespace)

/-- The line is the text, with white space around it. -/
def Padded (text line : List Char) : Prop :=
  ∃ before after, (∀ c ∈ before, isWhitespace c = true) ∧ (∀ c ∈ after, isWhitespace c = true) ∧
    line = before ++ (text ++ after)

/-- The line is a marker, of whatever label. -/
def Marker (mark line : List Char) : Prop := ∃ label, Padded (mark ++ (label ++ dashes)) line

/-- Lines outside of blocks are no markers; a block's body has no marker, and stands for bytes. -/
inductive Blocks (Body : List (List Char) → Bytes → Prop) :
    List (List Char) → List Bytes → Prop where
  | nil : Blocks Body [] []
  | text {line : List Char} {rest : List (List Char)} {blocks : List Bytes} :
    ¬Marker beginMark line → ¬Marker endMark line → Blocks Body rest blocks →
    Blocks Body (line :: rest) blocks
  | block {first last : List Char} {body rest : List (List Char)} {bytes : Bytes}
    {blocks : List Bytes} :
    Marker beginMark first → (∀ line ∈ body, ¬Marker beginMark line ∧ ¬Marker endMark line) →
    Marker endMark last → Body body bytes → Blocks Body rest blocks →
    Blocks Body (first :: (body ++ last :: rest)) (bytes :: blocks)

theorem Blocks.mono {Body Body' : List (List Char) → Bytes → Prop}
    (hBody : ∀ body bytes, Body body bytes → Body' body bytes) {lines : List (List Char)}
    {blocks : List Bytes} (h : Blocks Body lines blocks) : Blocks Body' lines blocks := by
  induction h with
  | nil => exact .nil
  | text hBegin hEnd _ ih => exact .text hBegin hEnd ih
  | block hFirst hNone hLast hBytes _ ih => exact .block hFirst hNone hLast (hBody _ _ hBytes) ih

/-! ## Lines -/

theorem trim_append_white {text after : List Char} (h : ∀ c ∈ after, isWhitespace c = true) :
    trim (text ++ after) = trim text := by
  rw [trim, trim, List.dropWhile_append]
  split
  next hAll =>
    rw [List.isEmpty_iff.mp hAll, List.rdropWhile_nil, List.dropWhile_eq_nil_iff.mpr h,
      List.rdropWhile_nil]
  next =>
    rw [List.rdropWhile, List.rdropWhile, List.reverse_append, List.dropWhile_append_of_pos]
    exact fun c hc => h c (List.mem_reverse.mp hc)

theorem Padded.trim_eq {text line : List Char} (h : Padded text line) : trim line = trim text := by
  obtain ⟨before, after, hBefore, hAfter, rfl⟩ := h
  calc trim (before ++ (text ++ after)) = trim (text ++ after) := by
        rw [trim, List.dropWhile_append_of_pos hBefore, trim]
    _ = trim text := trim_append_white hAfter

theorem padded_trim (line : List Char) : Padded (trim line) line := by
  refine ⟨line.takeWhile isWhitespace, (line.dropWhile isWhitespace).rtakeWhile isWhitespace,
    fun c => List.mem_takeWhile_imp, fun c hc =>
      List.mem_takeWhile_imp (List.mem_reverse.mp hc), ?_⟩
  rw [trim, List.rdropWhile_append_rtakeWhile, List.takeWhile_append_dropWhile]

theorem trim_eq_self {text : List Char} (hHead : ∀ c ∈ text.head?, isWhitespace c = false)
    (hLast : ∀ c ∈ text.getLast?, isWhitespace c = false) : trim text = text := by
  have hFront : text.dropWhile isWhitespace = text := by
    cases text with
    | nil => rfl
    | cons c rest => exact List.dropWhile_cons_of_neg (by simp [hHead c rfl])
  rw [trim, hFront, List.rdropWhile_eq_self_iff]
  intro hSome
  simp [hLast _ (List.getLast?_eq_getLast_of_ne_nil hSome)]

/-- A mark starts with a dash and ends with a blank, so that the dashes behind a label do not run
into it. -/
def IsMark (mark : List Char) : Prop := ∃ inner, mark = '-' :: (inner ++ [' '])

theorem isMark_begin : IsMark beginMark := ⟨"----BEGIN".toList, rfl⟩

theorem isMark_end : IsMark endMark := ⟨"----END".toList, rfl⟩

theorem isMarker_iff {mark line : List Char} (hMark : IsMark mark) :
    isMarker mark (trim line) = true ↔ Marker mark line := by
  rw [isMarker, Bool.and_eq_true, List.isPrefixOf_iff_prefix, List.isSuffixOf_iff_suffix]
  constructor
  · rintro ⟨⟨behind, hBehind⟩, hDashes⟩
    rw [← hBehind] at hDashes
    rcases le_or_gt dashes.length behind.length with hLong | hShort
    · obtain ⟨label, rfl⟩ :=
        List.suffix_of_suffix_length_le hDashes (List.suffix_append mark behind) hLong
      exact ⟨label, hBehind ▸ padded_trim line⟩
    · -- otherwise the mark's blank would be one of the dashes
      obtain ⟨inner, rfl⟩ := hMark
      have hBlank : ' ' :: behind <:+ '-' :: (inner ++ [' ']) ++ behind := ⟨'-' :: inner, by simp⟩
      have hIn := List.suffix_of_suffix_length_le hBlank hDashes hShort
      exact absurd (hIn.subset List.mem_cons_self) (by decide)
  · rintro ⟨label, hPadded⟩
    have hSelf : trim (mark ++ (label ++ dashes)) = mark ++ (label ++ dashes) := by
      obtain ⟨inner, rfl⟩ := hMark
      apply trim_eq_self
      · rintro c ⟨⟩
        decide
      · intro c hc
        rw [← List.append_assoc, List.getLast?_append] at hc
        obtain rfl : '-' = c := by simpa [dashes] using hc
        decide
    rw [hPadded.trim_eq, hSelf, ← List.append_assoc]
    exact ⟨⟨label ++ dashes, (List.append_assoc ..).symm⟩, List.suffix_append ..⟩

theorem not_begin_of_end {line : List Char} (h : Marker endMark line) : ¬Marker beginMark line := by
  intro hBegin
  have hEndMarker := (isMarker_iff isMark_end).mpr h
  have hBeginMarker := (isMarker_iff isMark_begin).mpr hBegin
  simp only [isMarker, Bool.and_eq_true, List.isPrefixOf_iff_prefix] at hEndMarker hBeginMarker
  exact absurd (List.prefix_of_prefix_length_le hEndMarker.1 hBeginMarker.1 (by decide)) (by decide)

/-! ## One line -/

section Scanning

variable {s s' : Scan} {line : List Char} {blocks : List Bytes} {body : List Char}

theorem step_trim (s : Scan) (line : List Char) : step s (trim line) = step s line := by
  rw [step, step, ← (padded_trim line).trim_eq]

theorem step_begin (h : Marker beginMark line) :
    step ⟨blocks, body, false⟩ line = .ok ⟨blocks, [], true⟩ := by
  simp only [step, (isMarker_iff isMark_begin).mpr h, if_true]
  rfl

theorem step_end (h : Marker endMark line) {bytes : Bytes}
    (hBytes : base64Decode body = .ok bytes) :
    step ⟨blocks, body, true⟩ line = .ok ⟨blocks ++ [bytes], body, false⟩ := by
  have hBegin := mt (isMarker_iff isMark_begin).mp (not_begin_of_end h)
  simp only [step, hBegin, (isMarker_iff isMark_end).mpr h, hBytes, if_true]
  rfl

theorem step_text (hBegin : ¬Marker beginMark line) (hEnd : ¬Marker endMark line) :
    step s line = .ok (if s.inBlock then { s with body := s.body ++ trim line } else s) := by
  simp only [step, mt (isMarker_iff isMark_begin).mp hBegin, mt (isMarker_iff isMark_end).mp hEnd]
  cases s.inBlock <;> rfl

/-- A line that is accepted opens a block, closes one, or is no marker. -/
theorem step_cases (h : step s line = .ok s') :
    (Marker beginMark line ∧ s.inBlock = false ∧ s' = ⟨s.blocks, [], true⟩) ∨
    (Marker endMark line ∧ s.inBlock = true ∧
      ∃ bytes, base64Decode s.body = .ok bytes ∧ s' = ⟨s.blocks ++ [bytes], s.body, false⟩) ∨
    (¬Marker beginMark line ∧ ¬Marker endMark line ∧
      s' = if s.inBlock then { s with body := s.body ++ trim line } else s) := by
  by_cases hBegin : Marker beginMark line
  · left
    cases hIn : s.inBlock with
    | true =>
      simp only [step, (isMarker_iff isMark_begin).mpr hBegin, hIn, if_true] at h
      cases h
    | false =>
      obtain ⟨_, _, _⟩ := s
      cases hIn
      exact ⟨hBegin, rfl, (Except.ok.inj ((step_begin hBegin).symm.trans h)).symm⟩
  by_cases hEnd : Marker endMark line
  · right; left
    simp only [step, mt (isMarker_iff isMark_begin).mp hBegin, (isMarker_iff isMark_end).mpr hEnd,
      if_true] at h
    cases hIn : s.inBlock with
    | false =>
      rw [hIn] at h
      cases h
    | true =>
      rw [hIn] at h
      obtain ⟨bytes, hBytes, h⟩ := exists_of_bind h
      exact ⟨hEnd, rfl, bytes, hBytes, (Except.ok.inj h).symm⟩
  · right; right
    exact ⟨hBegin, hEnd, (Except.ok.inj ((step_text hBegin hEnd).symm.trans h)).symm⟩

/-! ## All lines -/

/-- What the body decodes to. -/
def Decodes (body : List (List Char)) (bytes : Bytes) : Prop :=
  base64Decode (body.flatMap trim) = .ok bytes

theorem foldlM_body {lines : List (List Char)}
    (h : ∀ line ∈ lines, ¬Marker beginMark line ∧ ¬Marker endMark line) :
    lines.foldlM step ⟨blocks, body, true⟩ = .ok ⟨blocks, body ++ lines.flatMap trim, true⟩ := by
  induction lines generalizing body with
  | nil => simp only [List.foldlM_nil, List.flatMap_nil, List.append_nil]; rfl
  | cons line rest ih =>
    obtain ⟨⟨hBegin, hEnd⟩, hRest⟩ := List.forall_mem_cons.mp h
    rw [List.foldlM_cons, step_text hBegin hEnd, List.flatMap_cons, ← List.append_assoc]
    exact ih hRest

/-- Blocks are read one after the other. -/
theorem foldlM_blocks {lines : List (List Char)} {found : List Bytes}
    (h : Blocks Decodes lines found) :
    ∃ body', lines.foldlM step ⟨blocks, body, false⟩ = .ok ⟨blocks ++ found, body', false⟩ := by
  induction h generalizing blocks body with
  | nil => exact ⟨body, by rw [List.append_nil]; rfl⟩
  | text hBegin hEnd _ ih =>
    rw [List.foldlM_cons, step_text hBegin hEnd]
    exact ih
  | @block first last inner rest bytes found hFirst hNone hLast hBytes _ ih =>
    obtain ⟨body', hRest⟩ := @ih (blocks ++ [bytes]) (inner.flatMap trim)
    have hBody := @foldlM_body blocks [] _ hNone
    refine ⟨body', ?_⟩
    rw [List.foldlM_cons, step_begin hFirst]
    change (inner ++ last :: rest).foldlM step ⟨blocks, [], true⟩ = _
    rw [List.foldlM_append, hBody]
    change (last :: rest).foldlM step ⟨blocks, inner.flatMap trim, true⟩ = _
    rw [List.foldlM_cons, step_end hLast hBytes]
    change rest.foldlM step ⟨blocks ++ [bytes], inner.flatMap trim, false⟩ = _
    rw [hRest, List.append_assoc, List.singleton_append]

/-- What is read up to the end of a block, and behind it. -/
def Closes (body : List Char) (lines : List (List Char)) (found : List Bytes) : Prop :=
  ∃ inner last rest bytes found', lines = inner ++ last :: rest ∧
    (∀ line ∈ inner, ¬Marker beginMark line ∧ ¬Marker endMark line) ∧ Marker endMark last ∧
    base64Decode (body ++ inner.flatMap trim) = .ok bytes ∧ Blocks Decodes rest found' ∧
    found = bytes :: found'

/-- A run that ends outside of a block has read blocks, after the end of the one it started in. -/
theorem blocks_of_foldlM {lines : List (List Char)} (h : lines.foldlM step s = .ok s')
    (hOutside : s'.inBlock = false) : ∃ found, s'.blocks = s.blocks ++ found ∧
      if s.inBlock then Closes s.body lines found else Blocks Decodes lines found := by
  induction lines generalizing s with
  | nil =>
    obtain rfl := Except.ok.inj h
    exact ⟨[], (List.append_nil _).symm, by rw [if_neg (by simp [hOutside])]; exact .nil⟩
  | cons line rest ih =>
    rw [List.foldlM_cons] at h
    obtain ⟨between, hStep, hRest⟩ := exists_of_bind h
    obtain ⟨found, hFound, hRead⟩ := ih hRest
    obtain ⟨hBegin, hIn, rfl⟩ | ⟨hEnd, hIn, bytes, hBytes, rfl⟩ | ⟨hBegin, hEnd, rfl⟩ :=
      step_cases hStep
    · obtain ⟨inner, last, behind, bytes, found', rfl, hNone, hLast, hBytes, hBehind, rfl⟩ := hRead
      refine ⟨_, hFound, ?_⟩
      rw [if_neg (by simp [hIn])]
      exact .block hBegin hNone hLast hBytes hBehind
    · refine ⟨bytes :: found, by rw [hFound, List.append_assoc]; rfl, ?_⟩
      rw [if_pos hIn]
      exact ⟨[], line, rest, bytes, found, rfl, by simp, hEnd, by simpa using hBytes, hRead, rfl⟩
    · cases hIn : s.inBlock with
      | false =>
        rw [hIn] at hRead hFound
        simp only [hIn, Bool.false_eq_true, if_false] at hRead hFound
        exact ⟨found, hFound, .text hBegin hEnd hRead⟩
      | true =>
        simp only [hIn, if_true] at hRead hFound
        obtain ⟨inner, last, behind, bytes, found', rfl, hNone, hLast, hBytes, hBehind, rfl⟩ :=
          hRead
        refine ⟨_, hFound, line :: inner, last, behind, bytes, found', rfl, ?_, hLast, ?_,
          hBehind, rfl⟩
        · exact List.forall_mem_cons.mpr ⟨⟨hBegin, hEnd⟩, hNone⟩
        · rwa [List.flatMap_cons, ← List.append_assoc]

end Scanning

/-! ## The lines of a text -/

theorem stripSuffix_eq_some {c : Char} {text line : List Char}
    (h : stripSuffix c text = some line) :
    text = line ++ [c] := by
  rw [stripSuffix] at h
  split at h
  next hLast =>
    obtain rfl := Option.some.inj h
    obtain ⟨front, rfl⟩ := List.getLast?_eq_some_iff.mp hLast
    rw [List.dropLast_concat]
  next => cases h

/-- A piece without its line feed. -/
def chomp (piece : List Char) : List Char := (stripSuffix '\n' piece).getD piece

theorem chomp_cons (c : Char) {piece : List Char} (h : piece ≠ []) :
    chomp (c :: piece) = c :: chomp piece := by
  obtain ⟨d, rest, rfl⟩ := List.exists_cons_of_ne_nil h
  rw [chomp, chomp, stripSuffix, stripSuffix, List.getLast?_cons_cons, List.dropLast_cons_cons]
  split <;> rfl

/-- The carriage return of a line is white space at its end. -/
theorem trim_stripLineEnd (piece : List Char) : trim (stripLineEnd piece) = trim (chomp piece) := by
  rw [stripLineEnd, chomp]
  cases hFeed : stripSuffix '\n' piece with
  | none => rfl
  | some line =>
    change trim ((stripSuffix '\r' line).getD line) = trim line
    cases hReturn : stripSuffix '\r' line with
    | none => rfl
    | some front =>
      rw [stripSuffix_eq_some hReturn]
      exact (trim_append_white (by simp; decide)).symm

theorem splitInclusive_ne_nil {text piece : List Char} (h : piece ∈ splitInclusive text) :
    piece ≠ [] := by
  induction text generalizing piece with
  | nil => cases h
  | cons c cs ih =>
    rw [splitInclusive] at h
    split at h
    next =>
      rcases List.mem_cons.mp h with rfl | hRest
      · exact List.cons_ne_nil _ _
      · exact ih hRest
    next =>
      split at h
      next =>
        obtain rfl := List.mem_singleton.mp h
        exact List.cons_ne_nil _ _
      next line rest hPieces =>
        rcases List.mem_cons.mp h with rfl | hRest
        · exact List.cons_ne_nil _ _
        · exact ih (hPieces ▸ List.mem_cons_of_mem _ hRest)

/-- The pieces between the line feeds are the lines, and an empty one where the text ends with a
line feed or is empty. -/
theorem splitOn_eq (text : List Char) : ∃ tail, (tail = [] ∨ tail = [[]]) ∧
    text.splitOn '\n' = (splitInclusive text).map chomp ++ tail := by
  induction text with
  | nil => exact ⟨[[]], .inr rfl, rfl⟩
  | cons c cs ih =>
    obtain ⟨tail, hTail, hSplit⟩ := ih
    rw [List.splitOn_cons_eq_if_modifyHead, splitInclusive, hSplit]
    by_cases hFeed : c = '\n'
    · rw [if_pos (beq_iff_eq.mpr hFeed), if_pos hFeed, hFeed]
      exact ⟨tail, hTail, rfl⟩
    · rw [if_neg (mt beq_iff_eq.mp hFeed), if_neg hFeed]
      cases hPieces : splitInclusive cs with
      | nil =>
        -- there is no piece, so `cs` is empty, and the character is a line of its own
        have hEmpty : tail = [[]] := by
          rw [hPieces] at hSplit
          rcases hTail with rfl | rfl
          · exact absurd hSplit (List.splitOn_ne_nil _ _)
          · rfl
        refine ⟨[], .inl rfl, ?_⟩
        rw [hEmpty]
        simp [chomp, stripSuffix, hFeed]
      | cons piece rest =>
        have hSome :=
          splitInclusive_ne_nil (hPieces ▸ List.mem_cons_self : piece ∈ splitInclusive cs)
        exact ⟨tail, hTail, by simp [chomp_cons c hSome]⟩

theorem foldlM_map_trim (lines : List (List Char)) (s : Scan) :
    (lines.map trim).foldlM step s = lines.foldlM step s := by
  rw [List.foldlM_map]
  congr 1
  funext s line
  exact step_trim s line

theorem step_nil (s : Scan) : step s [] = .ok s := by
  obtain ⟨_, _, _ | _⟩ := s
  · rfl
  · exact congrArg Except.ok (congrArg (Scan.mk _ · _) (List.append_nil _))

/-- The scan over the lines is the scan over what stands between the line feeds. -/
theorem foldlM_lines (text : List Char) (s : Scan) :
    (lines text).foldlM step s = (text.splitOn '\n').foldlM step s := by
  obtain ⟨tail, hTail, hSplit⟩ := splitOn_eq text
  have hLines : (lines text).map trim = ((splitInclusive text).map chomp).map trim := by
    simp only [lines, List.map_map, List.map_inj_left, Function.comp_apply]
    exact fun piece _ => trim_stripLineEnd piece
  have hDropped : ∀ s, tail.foldlM step s = .ok s := by
    rcases hTail with rfl | rfl
    · exact fun s => rfl
    · exact fun s => by rw [List.foldlM_cons, step_nil]; rfl
  rw [← foldlM_map_trim, hLines, foldlM_map_trim, hSplit, List.foldlM_append]
  cases ((splitInclusive text).map chomp).foldlM step s with
  | error e => rfl
  | ok s' => exact (hDropped s').symm

theorem decodeBlocks_eq_ok {pem : List Char} {found : List Bytes} :
    decodeBlocks pem = .ok found ↔ found ≠ [] ∧ Blocks Decodes (pem.splitOn '\n') found := by
  rw [decodeBlocks, foldlM_lines]
  constructor
  · intro h
    obtain ⟨s, hScan, h⟩ := exists_of_bind h
    split at h
    next => cases h
    next hOutside =>
      split at h
      next => cases h
      next hSome =>
        obtain rfl := Except.ok.inj h
        obtain ⟨found, hFound, hRead⟩ := blocks_of_foldlM hScan (Bool.eq_false_iff.mpr hOutside)
        obtain rfl : s.blocks = found := hFound
        exact ⟨mt List.isEmpty_iff.mpr hSome, hRead⟩
  · rintro ⟨hSome, hBlocks⟩
    obtain ⟨body, hScan⟩ := @foldlM_blocks [] [] _ _ hBlocks
    rw [hScan]
    obtain ⟨bytes, rest, rfl⟩ := List.exists_cons_of_ne_nil hSome
    rfl

/-! ## Bodies -/

/-- A byte that a base64 string has. -/
def Plain (b : UInt8) : Prop := b ∈ Base64.alphabet ∨ b = padding

theorem plain_of_standsFor {s bytes : Bytes} (h : StandsFor s bytes) : ∀ b ∈ s, Plain b := by
  obtain ⟨-, digits, n, rfl, -, hDigits⟩ := h.shape
  intro b hb
  rcases List.mem_append.mp hb with hDigit | hPad
  · exact .inl (hDigits b hDigit)
  · exact .inr (List.eq_of_mem_replicate hPad)

/-- The bytes of a text other than its white space of ASCII. -/
def cleaned (text : List Char) : Bytes := (utf8 text).filter (!isAsciiWhitespace ·)

theorem mem_cleaned {b : UInt8} {text : List Char} :
    b ∈ cleaned text ↔ (∃ c ∈ text, b ∈ String.utf8EncodeChar c) ∧ isAsciiWhitespace b = false := by
  simp [cleaned, utf8, List.mem_flatMap]

theorem Plain.range {b : UInt8} (h : Plain b) : 32 < b.toNat ∧ b.toNat < 128 ∧ b ≠ 45 := by
  have hTable : ∀ b ∈ padding :: Base64.alphabet, 32 < b.toNat ∧ b.toNat < 128 ∧ b ≠ 45 :=
    List.all_iff_forall_prop.mp (by decide)
  exact hTable b (List.mem_cons.mpr h.symm)

/-- A character of ASCII is one byte, and another one starts with a byte outside of ASCII. -/
theorem utf8EncodeChar_cases (c : Char) :
    (c.toNat < 128 ∧ String.utf8EncodeChar c = [UInt8.ofNat c.toNat]) ∨
    (∃ b rest, String.utf8EncodeChar c = b :: rest ∧ 128 ≤ b.toNat) := by
  simp only [String.utf8EncodeChar]
  split
  next h => exact .inl ⟨Nat.lt_succ_of_le h, rfl⟩
  next =>
    right
    split
    next => exact ⟨_, _, rfl, by rw [UInt8.toNat_ofNat']; omega⟩
    next =>
      split
      next => exact ⟨_, _, rfl, by rw [UInt8.toNat_ofNat']; omega⟩
      next => exact ⟨_, _, rfl, by rw [UInt8.toNat_ofNat']; omega⟩

theorem isAsciiWhitespace_iff {b : UInt8} : isAsciiWhitespace b = true ↔
    b.toNat = 9 ∨ b.toNat = 10 ∨ b.toNat = 12 ∨ b.toNat = 13 ∨ b.toNat = 32 := by
  simp [isAsciiWhitespace, ← UInt8.toNat_inj, or_assoc]

/-- What is left of a text is its text without white space, where it has bytes of base64 only. -/
theorem cleaned_eq {text : List Char} (h : ∀ b ∈ cleaned text, Plain b) :
    cleaned text = utf8 (text.filter (!isWhitespace ·)) := by
  induction text with
  | nil => rfl
  | cons c text ih =>
    have hCons : cleaned (c :: text) =
        (String.utf8EncodeChar c).filter (!isAsciiWhitespace ·) ++ cleaned text := by
      rw [cleaned, utf8, List.flatMap_cons, List.filter_append]
      rfl
    have hRest := ih fun b hb => h b (hCons ▸ List.mem_append_right _ hb)
    have hOwn : ∀ b ∈ String.utf8EncodeChar c, isAsciiWhitespace b = false → Plain b :=
      fun b hb hBlack =>
      h b (hCons ▸ List.mem_append_left _ (List.mem_filter.mpr ⟨hb, by rw [hBlack]; rfl⟩))
    rw [hCons, hRest]
    rcases utf8EncodeChar_cases c with ⟨hAscii, hByte⟩ | ⟨b, rest, hBytes, hLarge⟩
    · have hNat : (UInt8.ofNat c.toNat).toNat = c.toNat :=
        UInt8.toNat_ofNat_of_lt (hAscii.trans (by decide))
      rw [hByte] at hOwn ⊢
      cases hWhite : isAsciiWhitespace (UInt8.ofNat c.toNat) with
      | true =>
        have hWhite' : isWhitespace c = true := by
          rw [isAsciiWhitespace_iff, hNat] at hWhite
          simp only [isWhitespace, Bool.or_eq_true, Bool.and_eq_true, decide_eq_true_eq]
          omega
        simp [hWhite, hWhite']
      | false =>
        have hRange := (hOwn _ List.mem_cons_self hWhite).range
        have hBlack : isWhitespace c = false := by
          by_contra hNot
          have := Sql.isWhitespace_range (Bool.of_not_eq_false hNot)
          omega
        simp [hWhite, hBlack, utf8, hByte]
    · -- a byte outside of ASCII would be left, and is none of base64
      rw [hBytes] at hOwn
      have hBlack : isAsciiWhitespace b = false := by
        by_contra hNot
        have := isAsciiWhitespace_iff.mp (Bool.of_not_eq_false hNot)
        omega
      have hRange := (hOwn b List.mem_cons_self hBlack).range
      omega

theorem Padded.filter {text line : List Char} (h : Padded text line) :
    line.filter (!isWhitespace ·) = text.filter (!isWhitespace ·) := by
  obtain ⟨before, after, hBefore, hAfter, rfl⟩ := h
  have hNone : ∀ white : List Char, (∀ c ∈ white, isWhitespace c = true) →
      white.filter (!isWhitespace ·) = [] := by
    intro white hWhite
    exact List.filter_eq_nil_iff.mpr fun c hc => by rw [hWhite c hc]; decide
  rw [List.filter_append, List.filter_append, hNone before hBefore, hNone after hAfter,
    List.nil_append, List.append_nil]

theorem filter_flatMap_trim (body : List (List Char)) :
    (body.flatMap trim).filter (!isWhitespace ·) = body.flatten.filter (!isWhitespace ·) := by
  induction body with
  | nil => rfl
  | cons line rest ih =>
    rw [List.flatMap_cons, List.flatten_cons, List.filter_append, List.filter_append, ih,
      (padded_trim line).filter]

/-- The text of a body without its white space. -/
def bare (body : List (List Char)) : Bytes := utf8 (body.flatten.filter (!isWhitespace ·))

/-- The body is a base64 string, and the bytes are those it stands for. -/
def IsBase64 (body : List (List Char)) (bytes : Bytes) : Prop :=
  bare body ≠ [] ∧ (bare body).length % 4 = 0 ∧
    (∃ digits n, bare body = digits ++ List.replicate n padding ∧ n ≤ 2 ∧
      ∀ c ∈ digits, c ∈ Base64.alphabet) ∧
    StandsFor (bare body) bytes

theorem isBase64_of_decodes {body : List (List Char)} {bytes : Bytes} (h : Decodes body bytes) :
    IsBase64 body bytes := by
  obtain ⟨hSome, hStands⟩ := decodeCleaned_eq_ok.mp h
  have hBare : cleaned (body.flatMap trim) = bare body := by
    rw [cleaned_eq (plain_of_standsFor hStands), filter_flatMap_trim, bare]
  rw [show (utf8 (body.flatMap trim)).filter (!isAsciiWhitespace ·) = bare body from hBare]
    at hSome hStands
  exact ⟨hSome, hStands.shape.1, hStands.shape.2, hStands⟩

/-! ## Encodings -/

/-- The lines that an encoder may write: text between blocks that has no marker, markers with any
label, and the base64 text of each block in pieces of any size, with white space around each line
and white space of ASCII also within. -/
inductive Encodes : List (List Char) → List Bytes → Prop where
  | nil : Encodes [] []
  | text {line : List Char} {rest : List (List Char)} {blocks : List Bytes} :
    ¬Marker beginMark line → ¬Marker endMark line → Encodes rest blocks →
      Encodes (line :: rest) blocks
  | block {first last : List Char} {pieces body rest : List (List Char)} {bytes : Bytes}
    {blocks : List Bytes} : Marker beginMark first → List.Forall₂ Padded pieces body →
    cleaned pieces.flatten = Base64.encode bytes → bytes ≠ [] → Marker endMark last →
    Encodes rest blocks → Encodes (first :: (body ++ last :: rest)) (bytes :: blocks)

theorem mem_of_mem_trim {c : Char} {text : List Char} (h : c ∈ trim text) : c ∈ text := by
  obtain ⟨before, after, -, -, hText⟩ := padded_trim text
  rw [hText]
  exact List.mem_append_right _ (List.mem_append_left _ h)

/-- A line of a body has the characters of its piece. -/
theorem exists_piece {pieces body : List (List Char)} (h : List.Forall₂ Padded pieces body)
    {c : Char} :
    ∀ line ∈ body, c ∈ trim line → c ∈ pieces.flatten := by
  induction h with
  | nil => exact fun _ hLine => absurd hLine List.not_mem_nil
  | cons hPadded _ ih =>
    refine List.forall_mem_cons.mpr ⟨fun hc => ?_, fun line hLine hc => ?_⟩
    · exact List.mem_append_left _ (mem_of_mem_trim (hPadded.trim_eq ▸ hc))
    · exact List.mem_append_right _ (ih line hLine hc)

theorem filter_pieces {pieces body : List (List Char)} (h : List.Forall₂ Padded pieces body) :
    body.flatten.filter (!isWhitespace ·) = pieces.flatten.filter (!isWhitespace ·) := by
  induction h with
  | nil => rfl
  | cons hPadded _ ih =>
    rw [List.flatten_cons, List.flatten_cons, List.filter_append, List.filter_append,
      hPadded.filter, ih]

section Pieces

variable {pieces body : List (List Char)} {bytes : Bytes}
  (hPieces : List.Forall₂ Padded pieces body)
  (hEncoded : cleaned pieces.flatten = Base64.encode bytes)

include hPieces hEncoded

/-- No line of an encoded body is a marker, as base64 has no dash. -/
theorem not_marker_of_encoded {mark : List Char} (hMark : IsMark mark) :
    ∀ line ∈ body, ¬Marker mark line := by
  intro line hLine hMarker
  have hPrefix := (isMarker_iff hMark).mpr hMarker
  rw [isMarker, Bool.and_eq_true, List.isPrefixOf_iff_prefix] at hPrefix
  obtain ⟨inner, rfl⟩ := hMark
  have hDash := exists_piece hPieces line hLine (hPrefix.1.subset List.mem_cons_self)
  have hByte : (45 : UInt8) ∈ cleaned pieces.flatten :=
    mem_cleaned.mpr ⟨⟨'-', hDash, by decide⟩, by decide⟩
  rw [hEncoded] at hByte
  exact (plain_of_standsFor (Base64.standsFor_encode bytes) _ hByte).range.2.2 rfl

theorem decodes_of_encoded (hBytes : bytes ≠ []) : Decodes body bytes := by
  have hPlain := plain_of_standsFor (Base64.standsFor_encode bytes)
  have hLeft : ∀ b ∈ cleaned (body.flatMap trim), Plain b := by
    intro b hb
    obtain ⟨⟨c, hc, hIn⟩, hBlack⟩ := mem_cleaned.mp hb
    obtain ⟨line, hLine, hTrim⟩ := List.mem_flatMap.mp hc
    have hPiece := exists_piece hPieces line hLine hTrim
    exact hPlain b (hEncoded ▸ mem_cleaned.mpr ⟨⟨c, hPiece, hIn⟩, hBlack⟩)
  have hCleaned : cleaned (body.flatMap trim) = Base64.encode bytes :=
    calc cleaned (body.flatMap trim) =
      utf8 ((body.flatMap trim).filter (!isWhitespace ·)) := cleaned_eq hLeft
      _ = utf8 (pieces.flatten.filter (!isWhitespace ·)) := by
        rw [filter_flatMap_trim, filter_pieces hPieces]
      _ = cleaned pieces.flatten := (cleaned_eq (hEncoded ▸ hPlain)).symm
      _ = Base64.encode bytes := hEncoded
  have hSome : Base64.encode bytes ≠ [] := by
    intro hEmpty
    have hStands := Base64.standsFor_encode bytes
    rw [hEmpty] at hStands
    cases hStands
    exact hBytes rfl
  rw [Decodes, base64Decode]
  change decodeCleaned (cleaned (body.flatMap trim)) = .ok bytes
  rw [hCleaned]
  exact decodeCleaned_eq_ok.mpr ⟨hSome, Base64.standsFor_encode bytes⟩

end Pieces

theorem Encodes.blocks {lines : List (List Char)} {blocks : List Bytes} (h : Encodes lines blocks) :
    Blocks Decodes lines blocks := by
  induction h with
  | nil => exact .nil
  | text hBegin hEnd _ ih => exact .text hBegin hEnd ih
  | block hFirst hPieces hEncoded hBytes hLast _ ih =>
    refine .block hFirst (fun line hLine => ⟨?_, ?_⟩) hLast
      (decodes_of_encoded hPieces hEncoded hBytes) ih
    · exact not_marker_of_encoded hPieces hEncoded isMark_begin line hLine
    · exact not_marker_of_encoded hPieces hEncoded isMark_end line hLine

/-- Every text that encodes byte strings is decoded to them, and every text that is decoded is a
sequence of blocks with base64 bodies, which stand for what is returned. -/
theorem decodes_exactly :
    (∀ (pem : List Char) (blocks : List Bytes), blocks ≠ [] → Encodes (pem.splitOn '\n') blocks →
      decodeBlocks pem = .ok blocks) ∧
    (∀ (pem : List Char) (blocks : List Bytes), decodeBlocks pem = .ok blocks →
      blocks ≠ [] ∧ Blocks IsBase64 (pem.splitOn '\n') blocks) := by
  constructor
  · intro pem blocks hSome hEncodes
    exact decodeBlocks_eq_ok.mpr ⟨hSome, hEncodes.blocks⟩
  · intro pem blocks hDecoded
    obtain ⟨hSome, hBlocks⟩ := decodeBlocks_eq_ok.mp hDecoded
    exact ⟨hSome, hBlocks.mono fun _ _ => isBase64_of_decodes⟩

theorem decodes_hello :
    decodeBlocks "chain\n-----BEGIN A-----\r\n SGVs\r\n\tbG8=\n-----END B-----\n".toList =
      .ok ["Hello".toUTF8.data.toList] := by
  have hText : ∀ line, isMarker beginMark (trim line) = false →
      isMarker endMark (trim line) = false →
      ¬Marker beginMark line ∧ ¬Marker endMark line := fun line hBegin hEnd =>
    ⟨mt (isMarker_iff isMark_begin).mpr (by simp [hBegin]),
      mt (isMarker_iff isMark_end).mpr (by simp [hEnd])⟩
  have hFirst := hText "chain".toList (by decide) (by decide)
  have hLast := hText [] (by decide) (by decide)
  have hBody : List.Forall₂ Padded ["SGVs".toList, "bG8=".toList]
      [" SGVs\r".toList, "\tbG8=".toList] :=
    .cons ⟨[' '], ['\r'], List.forall_mem_singleton.mpr (by decide),
      List.forall_mem_singleton.mpr (by decide), rfl⟩
      (.cons ⟨['\t'], [], List.forall_mem_singleton.mpr (by decide), by simp, rfl⟩ .nil)
  have hBlock : Encodes ("-----BEGIN A-----\r".toList ::
      ([" SGVs\r".toList, "\tbG8=".toList] ++ "-----END B-----".toList :: [[]]))
      ["Hello".toUTF8.data.toList] :=
    .block ((isMarker_iff isMark_begin).mp (by decide)) hBody (by decide) (by decide)
      ((isMarker_iff isMark_end).mp (by decide)) (.text hLast.1 hLast.2 .nil)
  exact decodes_exactly.1 _ _ (by decide) (.text hFirst.1 hFirst.2 hBlock)

end Pem

end MultimodalDb
