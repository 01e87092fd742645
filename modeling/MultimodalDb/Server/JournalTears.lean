import MultimodalDb.Server.Journal
import Mathlib.Data.List.Forall2

/-!
# Torn journals

What a crash leaves of a journal whose appends may themselves have failed half-way. The reader
decides from a length prefix alone where an entry ends, so a torn entry is harmless exactly as long
as nothing is written behind it (`recovered`): the next entry would be read as its missing bytes
(`torn_append_loses_the_journal`). A file cut inside its header is refused for good.
-/

namespace MultimodalDb

open Bytes

namespace BatchJournal

/-- An attempt to append a batch, and what its I/O calls do. -/
abbrev Attempt := Batch × List Outcome

/-- What an attempt did: whether it returned, and how many bytes it added to the file. -/
structure Appended where
  batch : Batch
  ok : Bool
  written : Nat
  deriving DecidableEq

def fileLength (path : Path) (d : Disk) : Nat := ((d path).getD []).length

/-- The attempts one after another, whatever became of the one before, and the disk at the end. -/
def appendEach : List Attempt → BatchJournal → Disk → List Appended × Disk
  | [], _, d => ([], d)
  | (batch, plan) :: rest, j, d =>
    let result := appendUnsynced batch ⟨j, d, plan⟩
    let p := Method.final result
    let more := appendEach rest p.self p.disk
    (⟨batch, (Method.value result).isSome, fileLength j.path p.disk - fileLength j.path d⟩ ::
      more.1, more.2)

/-- The acknowledged batches whose entries lie wholly before the cut, for entries from `pos` on. -/
def acknowledgedBefore (cut : Nat) : Nat → List Appended → List Batch
  | _, [] => []
  | pos, a :: log =>
    if a.ok ∧ pos + a.written ≤ cut then
      a.batch :: acknowledgedBefore cut (pos + a.written) log
    else
      acknowledgedBefore cut (pos + a.written) log

/-- The number of bytes of a batch's entry. -/
def entryLength (batch : Batch) : Nat := (Codec.encode batch).elim 0 (4 + ·.length)

/-- The attempt left a part of its entry. -/
def Torn (a : Appended) : Prop := a.written ≠ 0 ∧ a.written ≠ entryLength a.batch

/-- Nothing was written before the cut behind a torn entry. -/
def NothingBehindATear (cut : Nat) : Nat → List Appended → Prop
  | _, [] => True
  | pos, a :: log =>
    (Torn a → cut ≤ pos + a.written ∨ ∀ b ∈ log, b.written = 0) ∧
      NothingBehindATear cut (pos + a.written) log

/-- The disk with the file at `path` cut off behind its first `cut` bytes. -/
def cutFile (d : Disk) (path : Path) (cut : Nat) : Disk :=
  Function.update d path ((d path).map (List.take cut))

/-- A journal opens with these acknowledged batches and only attempted ones, opens the same once
more, and reads back what is appended to it. -/
def Recovered (path : Path) (d : Disk) (acknowledged attempted : List Batch) : Prop :=
  ∃ j batches p, openJournal path ⟨(), d, []⟩ = .ok (j, batches) p ∧
    acknowledged.Sublist batches ∧ batches.Sublist attempted ∧
    (∃ p', openJournal path ⟨(), p.disk, []⟩ = .ok (j, batches) p' ∧ p'.disk = p.disk) ∧
    ∀ more : List Batch, (∀ batch ∈ more, ∃ f, Encodes f batch) →
      ∃ j' p', openJournal path ⟨(), (appendEach (more.map (·, [])) j p.disk).2, []⟩ =
        .ok (j', batches ++ more) p'

/-! ## One attempt -/

theorem Encodes.entryLength {f : Frame 0} {batch : Batch} (h : Encodes f batch) :
    entryLength batch = f.bytes.length := by
  rw [BatchJournal.entryLength, h, Frame.length_bytes, Nat.zero_add]
  rfl

/-- What an attempt added: its whole entry when it returned, and else a part of it or nothing. -/
def Added (batch : Batch) (ok : Bool) (bytes : Bytes) : Prop :=
  (∃ f, Encodes f batch ∧ bytes = f.bytes) ∨
    (ok = false ∧ (bytes = [] ∨
      ∃ f n, Encodes f batch ∧ 0 < n ∧ n < f.bytes.length ∧ bytes = f.bytes.take n))

theorem attempt_spec {j : BatchJournal} {d : Disk} {old : Bytes} (hFile : d j.path = some old)
    (batch : Batch) (plan : List Outcome) :
    ∃ bytes, Added batch (Method.value (appendUnsynced batch ⟨j, d, plan⟩)).isSome bytes ∧
      (Method.final (appendUnsynced batch ⟨j, d, plan⟩)).self.path = j.path ∧
      (Method.final (appendUnsynced batch ⟨j, d, plan⟩)).disk j.path = some (old ++ bytes) := by
  have hExtend : ∀ bytes, d.extend j.path bytes j.path = some (old ++ bytes) := by
    intro bytes
    rw [Disk.extend_self, hFile, Option.map_some]
  have hWp : Method.wp (appendUnsynced batch) j d
      (fun _ j' d' => ∃ f, Encodes f batch ∧ j'.path = j.path ∧ d' j.path = some (old ++ f.bytes))
      (fun _ j' d' => j'.path = j.path ∧ d' j.path = some (old ++ []))
      (fun _ j' d' => ∃ f n, Encodes f batch ∧ j'.path = j.path ∧
        d' j.path = some (old ++ f.bytes.take n)) := by
    apply wp_appendUnsynced
    · intro f hf
      exact ⟨f, hf, rfl, hExtend _⟩
    · intro _ _ _
      exact ⟨rfl, by rw [hFile, List.append_nil]⟩
    · intro f _ n hf
      exact ⟨f, n, hf, rfl, hExtend _⟩
  cases hRun : appendUnsynced batch ⟨j, d, plan⟩ with
  | ok a p =>
    obtain ⟨f, hf, hPath, hDisk⟩ := hWp.of_ok hRun
    exact ⟨f.bytes, Or.inl ⟨f, hf, rfl⟩, hPath, hDisk⟩
  | error e p =>
    rcases hWp.of_error hRun with ⟨hPath, hDisk⟩ | ⟨f, n, hf, hPath, hDisk⟩
    · exact ⟨[], Or.inr ⟨rfl, Or.inl rfl⟩, hPath, hDisk⟩
    · refine ⟨f.bytes.take n, ?_, hPath, hDisk⟩
      by_cases hPart : n < f.bytes.length
      · by_cases hZero : n = 0
        · exact Or.inr ⟨rfl, Or.inl (by rw [hZero, List.take_zero])⟩
        · exact Or.inr ⟨rfl, Or.inr ⟨f, n, hf, by omega, hPart, rfl⟩⟩
      · exact Or.inl ⟨f, hf, List.take_of_length_le (by omega)⟩

theorem Added.length_pos {batch : Batch} {ok : Bool} {bytes : Bytes} (h : Added batch ok bytes)
    (hOk : ok = true) : 0 < bytes.length := by
  rcases h with ⟨f, -, rfl⟩ | ⟨hFalse, -⟩
  · exact f.bytes_length_pos
  · rw [hOk] at hFalse
    cases hFalse

/-! ## A sequence of attempts -/

/-- What a sequence of attempts added, for the record it made of them. -/
inductive AddedAll : List Batch → List Appended → List Bytes → Prop where
  | nil : AddedAll [] [] []
  | cons {batch ok bytes batches log pieces} (h : Added batch ok bytes)
    (hRest : AddedAll batches log pieces) :
    AddedAll (batch :: batches) (⟨batch, ok, bytes.length⟩ :: log) (bytes :: pieces)

theorem appendEach_spec (attempts : List Attempt) {j : BatchJournal} {d : Disk} {old : Bytes}
    (hFile : d j.path = some old) :
    ∃ pieces, AddedAll (attempts.map Prod.fst) (appendEach attempts j d).1 pieces ∧
      (appendEach attempts j d).2 j.path = some (old ++ pieces.flatten) := by
  induction attempts generalizing j d old with
  | nil => exact ⟨[], .nil, by rw [List.flatten_nil, List.append_nil]; exact hFile⟩
  | cons attempt rest ih =>
    obtain ⟨batch, plan⟩ := attempt
    obtain ⟨bytes, hAdded, hPath, hDisk⟩ := attempt_spec hFile batch plan
    have hNext := hDisk
    rw [← hPath] at hNext
    obtain ⟨pieces, hPieces, hEnd⟩ := ih hNext
    rw [hPath] at hEnd
    have hWritten : fileLength j.path (Method.final (appendUnsynced batch ⟨j, d, plan⟩)).disk -
        fileLength j.path d = bytes.length := by
      rw [fileLength, fileLength, hDisk, hFile, Option.getD_some, Option.getD_some,
        List.length_append, Nat.add_sub_cancel_left]
    refine ⟨bytes :: pieces, ?_, ?_⟩
    · have h := AddedAll.cons hAdded hPieces
      rw [← hWritten] at h
      exact h
    · rw [List.flatten_cons, ← List.append_assoc]
      exact hEnd

/-- Nothing that starts at or behind the cut lies before it. -/
theorem AddedAll.acknowledgedBefore_nil {batches : List Batch} {log : List Appended}
    {pieces : List Bytes} (h : AddedAll batches log pieces) {cut pos : Nat} (hCut : cut ≤ pos) :
    acknowledgedBefore cut pos log = [] := by
  induction h generalizing pos with
  | nil => rfl
  | @cons batch ok bytes batches log pieces hAdded hRest ih =>
    rw [acknowledgedBefore, if_neg]
    · exact ih (by omega)
    · rintro ⟨hOk, hLe⟩
      have hPos := hAdded.length_pos hOk
      dsimp only at hLe
      omega

theorem AddedAll.of_silent {batches : List Batch} {log : List Appended} {pieces : List Bytes}
    (h : AddedAll batches log pieces) (hSilent : ∀ b ∈ log, b.written = 0) (cut pos : Nat) :
    pieces.flatten = [] ∧ acknowledgedBefore cut pos log = [] := by
  induction h generalizing pos with
  | nil => exact ⟨rfl, rfl⟩
  | @cons batch ok bytes batches log pieces hAdded hRest ih =>
    obtain ⟨hFlat, hNone⟩ :=
      ih (fun b hb => hSilent b (List.mem_cons_of_mem _ hb)) (pos + bytes.length)
    have hZero : bytes = [] := List.length_eq_zero_iff.mp (hSilent _ List.mem_cons_self)
    refine ⟨by rw [List.flatten_cons, hZero, hFlat, List.append_nil], ?_⟩
    rw [acknowledgedBefore, if_neg]
    · exact hNone
    · rintro ⟨hOk, -⟩
      have hPos := hAdded.length_pos hOk
      rw [hZero] at hPos
      cases hPos

theorem acknowledgedBefore_cons_sublist (cut pos : Nat) (a : Appended) (log : List Appended)
    {batches : List Batch} (h : (acknowledgedBefore cut (pos + a.written) log).Sublist batches) :
    (acknowledgedBefore cut pos (a :: log)).Sublist (a.batch :: batches) := by
  rw [acknowledgedBefore]
  split
  · exact h.cons_cons _
  · exact h.cons _

/-- A proper part of an entry, and whatever of it a cut leaves, is no entry. -/
theorem nextFrame_take_take (f : Frame 0) {n : Nat} (hn : n < f.bytes.length) (m : Nat) :
    Frame.nextFrame 0 ((f.bytes.take n).take m) = none := by
  rw [List.take_take]
  exact Frame.nextFrame_take f (by omega)

/-- **What a cut leaves.** Complete entries, every acknowledged one before the cut among them and
none that was not attempted, and a tail that is no entry. -/
theorem AddedAll.cut {batches : List Batch} {log : List Appended} {pieces : List Bytes}
    (h : AddedAll batches log pieces) {cut pos : Nat} (hPos : pos ≤ cut)
    (hTears : NothingBehindATear cut pos log) :
    ∃ frames found tail, pieces.flatten.take (cut - pos) = Frame.flat frames ++ tail ∧
      Frame.nextFrame 0 tail = none ∧ List.Forall₂ Encodes frames found ∧
      (acknowledgedBefore cut pos log).Sublist found ∧ found.Sublist batches := by
  induction h generalizing pos with
  | nil => exact ⟨[], [], [], by simp, rfl, .nil, .refl _, .refl _⟩
  | @cons batch ok bytes batches log pieces hAdded hRest ih =>
    obtain ⟨hTear, hTears⟩ := hTears
    rw [List.flatten_cons, List.take_append]
    rcases hAdded with ⟨f, hf, rfl⟩ | ⟨rfl, rfl | ⟨f, n, hf, hZero, hn, rfl⟩⟩
    · by_cases hWhole : pos + f.bytes.length ≤ cut
      · obtain ⟨frames, found, tail, hBytes, hTail, hFound, hAck, hOf⟩ := ih hWhole hTears
        refine ⟨f :: frames, batch :: found, tail, ?_, hTail, .cons hf hFound,
          acknowledgedBefore_cons_sublist cut pos _ log hAck, hOf.cons_cons _⟩
        rw [List.take_of_length_le (by omega), Nat.sub_sub, hBytes, Frame.flat_cons,
          List.append_assoc]
      · have hBehind : cut - pos - f.bytes.length = 0 := by omega
        refine ⟨[], [], f.bytes.take (cut - pos), ?_, Frame.nextFrame_take f (by omega), .nil, ?_,
          List.nil_sublist _⟩
        · rw [hBehind, List.take_zero, List.append_nil, Frame.flat_nil, List.nil_append]
        · rw [acknowledgedBefore, if_neg (fun hLe => hWhole hLe.2),
            hRest.acknowledgedBefore_nil (by dsimp only; omega)]
    · obtain ⟨frames, found, tail, hBytes, hTail, hFound, hAck, hOf⟩ := ih hPos hTears
      refine ⟨frames, found, tail, ?_, hTail, hFound, ?_, hOf.cons _⟩
      · rw [List.take_nil, List.nil_append]
        exact hBytes
      · rw [acknowledgedBefore, if_neg (fun hOk => Bool.false_ne_true hOk.1)]
        exact hAck
    · have hLength : (f.bytes.take n).length = n := List.length_take_of_le (by omega)
      have hTorn : Torn ⟨batch, false, (f.bytes.take n).length⟩ := by
        rw [hLength]
        refine ⟨by dsimp only; omega, ?_⟩
        dsimp only
        rw [hf.entryLength]
        omega
      obtain ⟨hFlat, hAck⟩ : pieces.flatten.take (cut - pos - n) = [] ∧
          acknowledgedBefore cut (pos + n) log = [] := by
        rcases hTear hTorn with hCut | hSilent
        · rw [hLength] at hCut
          dsimp only at hCut
          exact ⟨by rw [Nat.sub_sub, Nat.sub_eq_zero_of_le hCut, List.take_zero],
            hRest.acknowledgedBefore_nil hCut⟩
        · obtain ⟨hNil, hNone⟩ := hRest.of_silent hSilent cut (pos + n)
          exact ⟨by rw [hNil, List.take_nil], hNone⟩
      refine ⟨[], [], (f.bytes.take n).take (cut - pos), ?_, nextFrame_take_take f hn _, .nil, ?_,
        List.nil_sublist _⟩
      · rw [hLength, hFlat, List.append_nil, Frame.flat_nil, List.nil_append]
      · rw [acknowledgedBefore, if_neg (fun hOk => Bool.false_ne_true hOk.1)]
        dsimp only
        rw [hLength, hAck]

/-! ## Opening what is left -/

theorem appendEach_whole {more : List Batch} (hMore : ∀ batch ∈ more, ∃ f, Encodes f batch)
    {j : BatchJournal} {d : Disk} {frames : List (Frame 0)}
    (hFile : d j.path = some (image frames)) :
    ∃ fs, List.Forall₂ Encodes fs more ∧
      (appendEach (more.map (·, [])) j d).2 j.path = some (image (frames ++ fs)) := by
  induction more generalizing j d frames with
  | nil => exact ⟨[], .nil, by rw [List.append_nil]; exact hFile⟩
  | cons batch more ih =>
    obtain ⟨f, hf⟩ := hMore batch List.mem_cons_self
    have hWp : Method.wp (appendUnsynced batch) j d
        (fun _ j' d' => ∃ g, Encodes g batch ∧ j'.path = j.path ∧
          d' j.path = some (image (frames ++ [g])))
        (fun _ _ _ => False) (fun _ _ _ => True) := by
      apply wp_appendUnsynced
      · intro g hg
        refine ⟨g, hg, rfl, ?_⟩
        rw [Disk.extend_self, hFile, Option.map_some, image_append, Frame.flat_cons, Frame.flat_nil,
          List.append_nil]
      · intro hNone
        exact absurd hf (hNone f)
      · intros
        trivial
    obtain ⟨_, p, hRun, ⟨g, hg, hPath, hDisk⟩, -⟩ := Method.wp_total hWp
    rw [← hPath] at hDisk
    obtain ⟨fs, hFs, hEnd⟩ := ih (fun b hb => hMore b (List.mem_cons_of_mem _ hb)) hDisk
    refine ⟨g :: fs, .cons hg hFs, ?_⟩
    rw [hPath, List.append_assoc, List.singleton_append] at hEnd
    simp only [List.map_cons, appendEach, hRun]
    exact hEnd

/-- A file of whole entries opens to their batches, and nothing in it changes. -/
theorem open_image {frames : List (Frame 0)} {batches : List Batch}
    (h : List.Forall₂ Encodes frames batches) {tail : Bytes} (hTail : Frame.nextFrame 0 tail = none)
    {path : Path} {d : Disk} (hFile : d path = some (image frames ++ tail)) :
    ∃ p, openJournal path ⟨(), d, []⟩ = .ok (⟨path, (image frames).length⟩, batches) p ∧
      p.disk = Function.update d path (some (image frames)) := by
  have hWp : Method.wp (openJournal path) () d
      (fun found _ d' => found = (⟨path, (image frames).length⟩, batches) ∧
        d' = Function.update d path (some (image frames)))
      (fun _ _ _ => False) (fun _ _ _ => True) :=
    wp_openJournal h hTail hFile ⟨rfl, rfl⟩ (fun _ => trivial) (fun _ => trivial)
  obtain ⟨found, p, hRun, ⟨rfl, hDisk⟩, -⟩ := Method.wp_total hWp
  exact ⟨p, hRun, hDisk⟩

theorem open_fresh {path : Path} {d : Disk} (hFile : d path = none ∨ d path = some []) :
    ∃ p, openJournal path ⟨(), d, []⟩ = .ok (⟨path, (image []).length⟩, []) p ∧
      p.disk = Function.update d path (some (image [])) := by
  have hWp : Method.wp (openJournal path) () d
      (fun found _ d' => found = (⟨path, (image []).length⟩, []) ∧
        d' = Function.update d path (some (image [])))
      (fun _ _ _ => False) (fun _ _ _ => True) :=
    wp_openJournal_fresh hFile ⟨rfl, rfl⟩ (fun _ => trivial) (fun _ _ => trivial)
  obtain ⟨found, p, hRun, ⟨rfl, hDisk⟩, -⟩ := Method.wp_total hWp
  exact ⟨p, hRun, hDisk⟩

theorem recovered_of_opened {path : Path} {d : Disk} {frames : List (Frame 0)}
    {batches acknowledged attempted : List Batch} (h : List.Forall₂ Encodes frames batches)
    (hOpen : ∃ p, openJournal path ⟨(), d, []⟩ = .ok (⟨path, (image frames).length⟩, batches) p ∧
      p.disk = Function.update d path (some (image frames)))
    (hAck : acknowledged.Sublist batches) (hOf : batches.Sublist attempted) :
    Recovered path d acknowledged attempted := by
  obtain ⟨p, hRun, hDisk⟩ := hOpen
  have hFile : p.disk path = some (image frames) := by rw [hDisk, Function.update_self]
  refine ⟨_, batches, p, hRun, hAck, hOf, ?_, ?_⟩
  · have hWhole : p.disk path = some (image frames ++ []) := by rw [hFile, List.append_nil]
    obtain ⟨p', hAgain, hSame⟩ := open_image h rfl hWhole
    refine ⟨p', hAgain, ?_⟩
    rw [hSame]
    exact Function.update_eq_self_iff.mpr hFile.symm
  · intro more hMore
    obtain ⟨fs, hFs, hEnd⟩ := appendEach_whole (j := ⟨path, (image frames).length⟩) hMore hFile
    have hWhole : (appendEach (more.map (·, [])) ⟨path, (image frames).length⟩ p.disk).2 path =
        some (image (frames ++ fs) ++ []) := by
      rw [List.append_nil]
      exact hEnd
    obtain ⟨p', hAgain, -⟩ := open_image (List.rel_append h hFs) rfl hWhole
    exact ⟨_, p', hAgain⟩

/-- A file cut inside its header is refused. -/
theorem open_short {path : Path} {d : Disk} {bytes : Bytes} (hFile : d path = some bytes)
    (hShort : bytes.length < HEADER_LEN) (hSome : bytes ≠ []) :
    ∃ p, openJournal (S := Unit) path ⟨(), d, []⟩ =
      .error (.error (.format .notABatchJournal)) p := by
  have hWp : Method.wp (openJournal path) () d (fun _ _ _ => False)
      (fun e _ _ => e = .error (.format .notABatchJournal)) (fun _ _ _ => True) := by
    have hCreated : Function.update d path (some ((d path).getD [])) = d := by
      rw [hFile]
      exact Function.update_eq_self_iff.mpr hFile.symm
    refine Method.wp_bind (Method.wp_openOrCreate ?_ (fun _ => trivial))
    rw [hCreated]
    refine Method.wp_bind (Method.wp_readFile (fun found hFound => ?_)
      (fun hNone => absurd (hNone.symm.trans hFile) (by simp)) (fun _ => trivial))
    rw [hFile, Option.some.injEq] at hFound
    subst hFound
    rw [if_neg (by simpa using hSome), if_pos (Or.inl hShort)]
    exact Method.wp_fail rfl
  cases hRun : openJournal (S := Unit) path ⟨(), d, []⟩ with
  | ok found p => exact (hWp.of_ok hRun).elim
  | error e p =>
    obtain rfl := hWp.of_error_nil hRun
    exact ⟨p, rfl⟩

/-- **Framing.** From a journal just created, whatever the attempts and wherever the file is cut: if
nothing was written before the cut behind a torn entry and the cut is not inside the header, the
journal is recovered; if the cut is inside the header, it is not. -/
theorem recovered {path : Path} {d₀ : Disk} (hMissing : d₀ path = none) {plan : List Outcome}
    {j : BatchJournal} {batches : List Batch} {p : Proc Unit}
    (hOpen : openJournal path ⟨(), d₀, plan⟩ = .ok (j, batches) p) (attempts : List Attempt)
    (cut : Nat) :
    ((cut = 0 ∨ HEADER_LEN ≤ cut) ∧
        NothingBehindATear cut HEADER_LEN (appendEach attempts j p.disk).1 →
      Recovered path (cutFile (appendEach attempts j p.disk).2 path cut)
        (acknowledgedBefore cut HEADER_LEN (appendEach attempts j p.disk).1)
        (attempts.map Prod.fst)) ∧
    (0 < cut ∧ cut < HEADER_LEN →
      ¬ Recovered path (cutFile (appendEach attempts j p.disk).2 path cut)
        (acknowledgedBefore cut HEADER_LEN (appendEach attempts j p.disk).1)
        (attempts.map Prod.fst)) := by
  obtain ⟨rfl, hFile⟩ : j = ⟨path, HEADER_LEN⟩ ∧ p.disk path = some (image []) := by
    have hWp : Method.wp (openJournal path) () d₀
        (fun found _ d => found.1 = ⟨path, HEADER_LEN⟩ ∧ d path = some (image []))
        (fun _ _ _ => False) (fun _ _ _ => True) :=
      wp_openJournal_fresh (Or.inl hMissing) ⟨rfl, Function.update_self ..⟩ (fun _ => trivial)
        (fun _ _ => trivial)
    exact hWp.of_ok hOpen
  obtain ⟨pieces, hAdded, hEnd⟩ := appendEach_spec attempts (j := ⟨path, HEADER_LEN⟩) hFile
  generalize appendEach attempts ⟨path, HEADER_LEN⟩ p.disk = log at hAdded hEnd ⊢
  have hCutFile : cutFile log.2 path cut path = some ((header ++ pieces.flatten).take cut) := by
    rw [cutFile, Function.update_self, hEnd, Option.map_some, image_nil]
  constructor
  · rintro ⟨hZero | hHeader, hTears⟩
    · rw [hZero, List.take_zero] at hCutFile
      rw [hZero, hAdded.acknowledgedBefore_nil (Nat.zero_le _)]
      exact recovered_of_opened .nil (open_fresh (Or.inr hCutFile)) (.refl _) (List.nil_sublist _)
    · obtain ⟨frames, found, tail, hBytes, hTail, hFound, hAck, hOf⟩ := hAdded.cut hHeader hTears
      rw [List.take_append, header_length, hBytes, List.take_of_length_le
        (by rw [header_length]; exact hHeader), ← List.append_assoc] at hCutFile
      exact recovered_of_opened hFound (open_image hFound hTail hCutFile) hAck hOf
  · rintro ⟨hPos, hShort⟩ ⟨j', found, q, hRun, -⟩
    have hLength : ((header ++ pieces.flatten).take cut).length = cut := by
      apply List.length_take_of_le
      rw [List.length_append, header_length]
      omega
    obtain ⟨q', hRefused⟩ := open_short hCutFile (by omega)
      (fun hNil => by rw [hNil, List.length_nil] at hLength; omega)
    rw [hRun] at hRefused
    cases hRefused

/-- A batch with one operation, for examples. -/
def sampleBatch (id : Nat) (value : UInt32) : Batch := [⟨Uuid.ofNat id, 1, .u32 value⟩]

def samplePath : Path := "txn.journal".toList

/-- An entry torn behind its length prefix, and nothing after it. -/
def sampleAttempts : List Attempt := [(sampleBatch 1 5, []), (sampleBatch 2 6, [.done, .failed 0])]

theorem recovered_sample :
    ∃ j batches p, openJournal samplePath ⟨(), fun _ => none, []⟩ = .ok (j, batches) p ∧
      Recovered samplePath (cutFile (appendEach sampleAttempts j p.disk).2 samplePath 70)
        (acknowledgedBefore 70 HEADER_LEN (appendEach sampleAttempts j p.disk).1)
        (sampleAttempts.map Prod.fst) := by
  have hOpen : Method.value (openJournal (S := Unit) samplePath ⟨(), fun _ => none, []⟩) =
      some (⟨samplePath, HEADER_LEN⟩, []) := by decide +kernel
  obtain ⟨p, hRun⟩ := Method.exists_of_value hOpen
  have hLog : (match openJournal (S := Unit) samplePath ⟨(), fun _ => none, []⟩ with
      | .ok found q => (appendEach sampleAttempts found.1 q.disk).1
      | .error _ _ => []) = [⟨sampleBatch 1 5, true, 46⟩, ⟨sampleBatch 2 6, false, 4⟩] := by
    decide +kernel
  rw [hRun] at hLog
  refine ⟨_, _, p, hRun, (recovered rfl hRun sampleAttempts 70).1 ⟨Or.inr (by decide), ?_⟩⟩
  dsimp only at hLog
  rw [hLog]
  exact ⟨fun hTorn => (hTorn.2 (by decide +kernel)).elim, fun _ => Or.inr (by simp), trivial⟩

/-- A batch appended behind a torn entry is acknowledged and lost, and the journal does not open. -/
theorem torn_append_loses_the_journal :
    ¬ ∀ (path : Path) (d₀ : Disk) (plan : List Outcome) j batches (p : Proc Unit), d₀ path = none →
      openJournal path ⟨(), d₀, plan⟩ = .ok (j, batches) p →
      ∀ (attempts : List Attempt) (cut : Nat),
      Recovered path (cutFile (appendEach attempts j p.disk).2 path cut)
        (acknowledgedBefore cut HEADER_LEN (appendEach attempts j p.disk).1)
        (attempts.map Prod.fst) := by
  intro hClaim
  have hOpens : (match openJournal (S := Unit) samplePath ⟨(), fun _ => none, []⟩ with
      | .ok found q => (Method.value (openJournal (S := Unit) samplePath ⟨(), cutFile
          (appendEach (sampleAttempts ++ [(sampleBatch 3 7, [])]) found.1 q.disk).2 samplePath 200,
          []⟩)).isSome
      | .error _ _ => true) = false := by decide +kernel
  split at hOpens
  · next found q hRun =>
    obtain ⟨j, batches, r, hAgain, -⟩ :=
      hClaim samplePath (fun _ => none) [] found.1 found.2 q rfl hRun
      (sampleAttempts ++ [(sampleBatch 3 7, [])]) 200
    rw [hAgain] at hOpens
    cases hOpens
  · cases hOpens

end BatchJournal

end MultimodalDb
