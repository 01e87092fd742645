import MultimodalDb.Server.CommitGroupOrder

/-!
# The journal of a commit group

What the journal file holds while threads commit through it, as an open would find it: the batches
of the calls that were appended, in order, but for the first ones, which a truncation has dropped
(`Ledger`). It is so as long as entries are appended to a whole file: behind a torn entry, nothing
can be read.

* `found_append`, `found_truncate`: what an append and a truncation leave to be found.
* `Ledger.steps`: every step keeps the ledger.
-/

namespace MultimodalDb

namespace BatchJournal

/-! ## What an open finds -/

/-- The complete entries of the file at a path, behind which there may be a torn one. -/
def Found (path : Path) (d : Disk) (entries : List Batch) : Prop :=
  ∃ frames tail, d path = some (image frames ++ tail) ∧ Frame.nextFrame 0 tail = none ∧
    List.Forall₂ Encodes frames entries

/-- The file ends with its last complete entry. -/
def whole (path : Path) (d : Disk) : Bool :=
  match d path with
  | none => false
  | some bytes =>
    match entriesFrom bytes bytes.length HEADER_LEN with
    | .ok (_, complete) => complete = bytes.length
    | .error _ => false

theorem found_image {path : Path} {d : Disk} (h : d path = some (image [])) : Found path d [] :=
  ⟨[], [], by rw [h, List.append_nil], rfl, .nil⟩

/-- What a file holds is determined. -/
theorem Found.unique {path : Path} {d : Disk} {entries entries' : List Batch}
    (h : Found path d entries) (h' : Found path d entries') : entries = entries' := by
  obtain ⟨frames, tail, hFile, hTail, hEntries⟩ := h
  obtain ⟨frames', tail', hFile', hTail', hEntries'⟩ := h'
  have hRead := entriesFrom_image hEntries hTail
  rw [Option.some.inj (hFile.symm.trans hFile'), entriesFrom_image hEntries' hTail',
    Except.ok.injEq, Prod.mk.injEq] at hRead
  exact hRead.1.symm

theorem Found.frames_of_whole {path : Path} {d : Disk} {entries : List Batch}
    (h : Found path d entries) (hWhole : whole path d = true) :
    ∃ frames, d path = some (image frames) ∧ List.Forall₂ Encodes frames entries := by
  obtain ⟨frames, tail, hFile, hTail, hEntries⟩ := h
  unfold whole at hWhole
  rw [hFile] at hWhole
  dsimp only at hWhole
  rw [entriesFrom_image hEntries hTail] at hWhole
  have hLength : (image frames).length = (image frames ++ tail).length := of_decide_eq_true hWhole
  have hNil : tail = [] := by
    rw [List.length_append] at hLength
    exact List.length_eq_zero_iff.mp (by omega)
  exact ⟨frames, by rw [hFile, hNil, List.append_nil], hEntries⟩

/-- **Appending to a whole file.** The batch is found behind the entries when its append returned,
or when it wrote all of its bytes before it failed; else it is not found. -/
theorem found_append {path : Path} {j : BatchJournal} {d : Disk} {entries : List Batch}
    (hPath : j.path = path) (h : Found path d entries) (hWhole : whole path d = true)
    (batch : Batch) (plan : List Outcome) :
    (Method.final (appendUnsynced batch ⟨j, d, plan⟩)).self.path = path ∧
      ((∃ f, Encodes f batch ∧
          Found path (Method.final (appendUnsynced batch ⟨j, d, plan⟩)).disk (entries ++ [batch]) ∧
          fileLength path (Method.final (appendUnsynced batch ⟨j, d, plan⟩)).disk =
            fileLength path d + f.bytes.length) ∨
        (Method.value (appendUnsynced batch ⟨j, d, plan⟩)).isSome = false ∧
          Found path (Method.final (appendUnsynced batch ⟨j, d, plan⟩)).disk entries) := by
  obtain ⟨frames, hFile, hEntries⟩ := h.frames_of_whole hWhole
  subst hPath
  obtain ⟨bytes, hAdded, hPath, hDisk⟩ := attempt_spec hFile batch plan
  refine ⟨hPath, ?_⟩
  rcases hAdded with ⟨f, hf, rfl⟩ | ⟨hFailed, rfl | ⟨f, n, hf, -, hn, rfl⟩⟩
  · refine Or.inl ⟨f, hf, ⟨frames ++ [f], [], ?_, rfl, ?_⟩, ?_⟩
    · rw [hDisk, image_append, Frame.flat_cons, Frame.flat_nil, List.append_nil, List.append_nil]
    · exact List.rel_append hEntries (.cons hf .nil)
    · rw [fileLength, fileLength, hDisk, hFile, Option.getD_some, Option.getD_some,
        List.length_append]
  · exact Or.inr ⟨hFailed, frames, [], hDisk, rfl, hEntries⟩
  · exact Or.inr ⟨hFailed, frames, f.bytes.take n, hDisk, Frame.nextFrame_take f hn, hEntries⟩

/-- **Truncating.** The entries are all found, or none is. -/
theorem found_truncate {path : Path} {j : BatchJournal} {d : Disk} {entries : List Batch}
    (hPath : j.path = path) (h : Found path d entries) (plan : List Outcome) :
    (Method.final (truncate ⟨j, d, plan⟩)).self.path = path ∧
      (Found path (Method.final (truncate ⟨j, d, plan⟩)).disk entries ∨
        Found path (Method.final (truncate ⟨j, d, plan⟩)).disk []) := by
  subst hPath
  obtain ⟨frames, tail, hFile, hTail, hEntries⟩ := h
  have hEmpty : Found j.path (Function.update d j.path (some (image []))) [] :=
    found_image (Function.update_self ..)
  refine Method.wp.final
    (P := fun (j' : BatchJournal) d' => j'.path = j.path ∧
      (Found j.path d' entries ∨ Found j.path d' [])) ?_ plan
  apply wp_truncate hFile
  · exact ⟨rfl, Or.inr hEmpty⟩
  · exact fun _ => ⟨rfl, Or.inl ⟨frames, tail, hFile, hTail, hEntries⟩⟩
  · exact fun _ => ⟨rfl, Or.inr hEmpty⟩

end BatchJournal

namespace CommitGroup

open BatchJournal

variable {σ ι ω ε : Type}

theorem journal_gate (g : GroupState) (i : Thread) (c : ι) (seq : Nat) (durable : Bool) :
    (gate g i c seq durable : GroupState × Phase ι ε).1.journal = g.journal := by
  unfold gate
  split
  · rfl
  · split <;> rfl

theorem journal_look (g : GroupState) (i : Thread) (c : ι) (seq : Nat) :
    (look g i c seq : GroupState × Phase ι ε).1.journal = g.journal := by
  have hSettled := settled_look (ε := ε) g i c seq
  generalize (look g i c seq : GroupState × Phase ι ε) = r at hSettled
  cases hSettled with
  | asleep | leading => rfl
  | gated durable => exact journal_gate g i c seq durable

/-! ## The ledger -/

/-- The call that a thread has appended, and its number. -/
def Phase.held? : Phase ι ε → Option (ι × Nat)
  | .asleep c s | .awake c s | .leading c s | .covering c s _ | .syncing c s _ | .parked c s _
  | .unparked c s _ | .applying c s _ | .flushed c s | .leaving c s _ => some (c, s)
  | _ => none

@[simp] theorem Phase.held?_wake (phase : Phase ι ε) : phase.wake.held? = phase.held? := by
  cases phase <;> rfl

@[simp] theorem Phase.held?_unpark (phase : Phase ι ε) : phase.unpark.held? = phase.held? := by
  cases phase <;> rfl

theorem Phase.seq?_of_held? {phase : Phase ι ε} {c : ι} {s : Nat} (h : phase.held? = some (c, s)) :
    phase.seq? = some s := by
  cases phase <;> cases h <;> rfl

theorem held?_gate (g : GroupState) (i : Thread) (c : ι) (seq : Nat) (durable : Bool) :
    (gate g i c seq durable : GroupState × Phase ι ε).2.held? = some (c, seq) := by
  unfold gate
  split
  · rfl
  · split <;> rfl

theorem held?_look (g : GroupState) (i : Thread) (c : ι) (seq : Nat) :
    (look g i c seq : GroupState × Phase ι ε).2.held? = some (c, seq) := by
  have hSettled := settled_look (ε := ε) g i c seq
  generalize (look g i c seq : GroupState × Phase ι ε) = r at hSettled
  cases hSettled with
  | asleep | leading => rfl
  | gated durable => exact held?_gate g i c seq durable

/-- The appended calls, in the order of their numbers. -/
def appendedCalls : History σ ι ω ε → List ι
  | [] => []
  | .appended _ c _ :: earlier => appendedCalls earlier ++ [c]
  | _ :: earlier => appendedCalls earlier

/-- The call was appended under the number. -/
def CallAt (history : History σ ι ω ε) (c : ι) (seq : Nat) : Prop :=
  1 ≤ seq ∧ (appendedCalls history)[seq - 1]? = some c

theorem CallAt.cons {history : History σ ι ω ε} {c : ι} {seq : Nat} (h : CallAt history c seq)
    (m : Mark σ ι ω ε) : CallAt (m :: history) c seq := by
  cases m with
  | appended i d s =>
    refine ⟨h.1, ?_⟩
    rw [appendedCalls, List.getElem?_append_left]
    · exact h.2
    · exact (List.getElem?_eq_some_iff.mp h.2).1
  | _ => exact h

/-- The steps at which an entry goes to the end of a whole file, and an append that fails has left
at most a part of it. -/
def AppendsWhole (S : Service σ ι ω ε) (path : Path) (w : World σ ι ω ε) (e : Event ι ω) : Prop :=
  ∀ i c plan, e = .act i (.enter plan) → w.phase i = .entering c →
    whole path w.disk = true ∧
      ∀ p e, appendUnsynced (S.batch c) ⟨w.group.journal, w.disk, plan⟩ = .error (.error e) p →
        ∀ f, Encodes f (S.batch c) →
          fileLength path p.disk < fileLength path w.disk + f.bytes.length

/-- The calls that the threads hold and have applied are those appended under their numbers, and the
first `kept` have had their turn. -/
structure Calls (g : GroupState) (phase : Thread → Phase ι ε) (history : History σ ι ω ε)
    (kept : Nat) :
    Prop where
  count : (appendedCalls history).length = g.appended
  held : ∀ i c s, (phase i).held? = some (c, s) → CallAt history c s
  applied : ∀ i c s before after, .applied i c s before after ∈ history → CallAt history c s
  kept_le : kept ≤ g.appended
  dropped : ∀ i s, (phase i).seq? = some s → s ≤ kept → (phase i).isDone = true

namespace Calls

variable {g g' : GroupState} {phase : Thread → Phase ι ε} {history : History σ ι ω ε} {kept : Nat}

theorem start (journal : BatchJournal) :
    Calls (opened journal) (fun _ => (.outside : Phase ι ε)) ([] : History σ ι ω ε) 0 :=
  ⟨rfl, nofun, nofun, Nat.le_refl 0, nofun⟩

theorem group (h : Calls g phase history kept) (hAppended : g'.appended = g.appended) :
    Calls g' phase history kept :=
  ⟨h.count.trans hAppended.symm, h.held, h.applied, hAppended ▸ h.kept_le, h.dropped⟩

theorem goto (h : Calls g phase history kept) {i : Thread} {p : Phase ι ε}
    (hHeld : ∀ c s, p.held? = some (c, s) → CallAt history c s)
    (hDropped : ∀ s, p.seq? = some s → s ≤ kept → p.isDone = true) :
    Calls g (Function.update phase i p) history kept := by
  refine ⟨h.count, ?_, h.applied, h.kept_le, ?_⟩
  · exact (Function.forall_update_iff phase fun _ q => ∀ c s, q.held? = some (c, s) →
      CallAt history c s).mpr ⟨hHeld, fun j _ => h.held j⟩
  · exact (Function.forall_update_iff phase fun _ q => ∀ s, q.seq? = some s → s ≤ kept →
      q.isDone = true).mpr ⟨hDropped, fun j _ => h.dropped j⟩

/-- A thread moves on with the call it holds. -/
theorem move (h : Calls g phase history kept) {i : Thread} {p : Phase ι ε}
    (hHeld : p.held? = (phase i).held?) (hSeq : p.seq? = (phase i).seq?)
    (hDone : (phase i).isDone = true → p.isDone = true) :
    Calls g (Function.update phase i p) history kept := by
  apply h.goto
  · rw [hHeld]
    exact h.held i
  · intro s hs hLe
    rw [hSeq] at hs
    exact hDone (h.dropped i s hs hLe)

theorem wakeAll (h : Calls g phase history kept) :
    Calls g (fun j => (phase j).wake) history kept := by
  refine ⟨h.count, ?_, h.applied, h.kept_le, ?_⟩
  · simpa only [Phase.held?_wake] using h.held
  · simpa only [Phase.seq?_wake, Phase.isDone_wake] using h.dropped

theorem unpark (h : Calls g phase history kept) (waiter : Option Thread) :
    Calls g (unparkWaiter waiter phase) history kept := by
  cases waiter with
  | none => exact h
  | some j =>
    apply h.move
    · exact Phase.held?_unpark _
    · exact Phase.seq?_unpark _
    · rw [Phase.isDone_unpark]
      exact fun hDone => hDone

/-- A mark that appends and applies nothing. -/
theorem mark (h : Calls g phase history kept) {m : Mark σ ι ω ε}
    (hAppended : appendedCalls (m :: history) = appendedCalls history)
    (hApplied : m.appliedSeq? = none) :
    Calls g phase (m :: history) kept := by
  refine ⟨by rw [hAppended]; exact h.count, ?_, ?_, h.kept_le, h.dropped⟩
  · exact fun i c s hs => (h.held i c s hs).cons m
  · intro i c s before after hMem
    rcases List.mem_cons.mp hMem with rfl | hOld
    · cases hApplied
    · exact (h.applied i c s before after hOld).cons m

/-- A thread that is not done goes where the lock's holder sends it, with the call it holds. -/
theorem settle (h : Calls g phase history kept) {i : Thread} {c : ι} {s : Nat}
    (hi : (phase i).held? = some (c, s)) (hDone : (phase i).isDone = false)
    {r : GroupState × Phase ι ε} (hAppended : r.1.appended = g.appended)
    (hHeld : r.2.held? = some (c, s)) : Calls r.1 (Function.update phase i r.2) history kept := by
  refine (h.move ?_ ?_ fun hTrue => ?_).group hAppended
  · rw [hi, hHeld]
  · rw [Phase.seq?_of_held? hi, Phase.seq?_of_held? hHeld]
  · rw [hDone] at hTrue
    cases hTrue

theorem apply (h : Calls g phase history kept) {i : Thread} {c : ι} {s : Nat}
    (hi : (phase i).held? = some (c, s)) (before after : σ) :
    Calls g phase (.applied i c s before after :: history) kept := by
  refine ⟨h.count, ?_, ?_, h.kept_le, h.dropped⟩
  · exact fun j d t ht => (h.held j d t ht).cons _
  · intro j d t b a hMem
    rcases List.mem_cons.mp hMem with hHere | hOld
    · cases hHere
      exact (h.held i c s hi).cons _
    · exact (h.applied j d t b a hOld).cons _

/-- A call is appended, under the next number. -/
theorem append (h : Calls g phase history kept) (i : Thread) (c : ι)
    (hAppended : g'.appended = g.appended + 1) :
    Calls g' phase (.appended i c (g.appended + 1) :: history) kept ∧
      CallAt (.appended i c (g.appended + 1) :: history : History σ ι ω ε) c (g.appended + 1) := by
  refine ⟨⟨?_, ?_, ?_, ?_, h.dropped⟩, Nat.le_add_left 1 _, ?_⟩
  · rw [appendedCalls, List.length_append, h.count, hAppended]
    rfl
  · exact fun j d t ht => (h.held j d t ht).cons _
  · intro j d t before after hMem
    rcases List.mem_cons.mp hMem with hHere | hOld
    · cases hHere
    · exact (h.applied j d t before after hOld).cons _
  · rw [hAppended]
    exact Nat.le_succ_of_le h.kept_le
  · rw [appendedCalls, Nat.add_sub_cancel, ← h.count, List.getElem?_concat_length]

/-- The last call is done, and nobody else has one: all have had their turn. -/
theorem keepAll (h : Calls g phase history kept) (hTurns : Turns g phase) {i : Thread}
    (hTurn : (phase i).inTurn = true) (hSeq : (phase i).seq? = some g.appended)
    (hDone : (phase i).isDone = true) : Calls g phase history g.appended := by
  refine ⟨h.count, h.held, h.applied, Nat.le_refl _, fun j s hs _ => ?_⟩
  have hNext := hTurns.turn i _ hTurn hSeq
  have hRange := hTurns.range j s hs
  have hHere : s = g.appended := by omega
  rw [hTurns.distinct j i s hs (hHere ▸ hSeq)]
  exact hDone

end Calls

/-- What the journal file holds: the batches of the appended calls but for the first `kept`, all of
which have had their turn. A process that stopped in an append may have left the whole entry. -/
structure Ledger (S : Service σ ι ω ε) (path : Path) (w : World σ ι ω ε) (kept : Nat) : Prop where
  calls : Calls w.group w.phase w.history kept
  atPath : w.group.journal.path = path
  found : ∃ extra, Found path w.disk (((appendedCalls w.history).drop kept).map S.batch ++ extra) ∧
    (extra = [] ∨ (w.crashed = true ∧ ∃ i c earlier, w.history = .torn i c :: earlier ∧
      extra = [S.batch c]))

namespace Ledger

variable {S : Service σ ι ω ε} {path : Path} {w w' : World σ ι ω ε} {kept : Nat}

theorem start {disk : Disk} (hFile : disk path = some (image [])) (len : Nat) (store : σ) :
    Ledger S path (World.start ⟨path, len⟩ disk store) 0 :=
  ⟨.start _, rfl, [], found_image hFile, Or.inl rfl⟩

theorem of_found (hCalls : Calls w.group w.phase w.history kept)
    (hPath : w.group.journal.path = path)
    (hFound : Found path w.disk (((appendedCalls w.history).drop kept).map S.batch)) :
    Ledger S path w kept :=
  ⟨hCalls, hPath, [], by rw [List.append_nil]; exact hFound, Or.inl rfl⟩

theorem found_live (h : Ledger S path w kept) (hLive : w.crashed = false) :
    Found path w.disk (((appendedCalls w.history).drop kept).map S.batch) := by
  obtain ⟨extra, hFound, rfl | ⟨hCrashed, -⟩⟩ := h.found
  · rw [List.append_nil] at hFound
    exact hFound
  · rw [hLive] at hCrashed
    cases hCrashed

/-- A step that leaves the journal alone. -/
theorem quiet (h : Ledger S path w kept) (hLive : w.crashed = false)
    (hCalls : Calls w'.group w'.phase w'.history kept)
    (hPath : w'.group.journal.path = w.group.journal.path) (hDisk : w'.disk = w.disk)
    (hAppended : appendedCalls w'.history = appendedCalls w.history) : Ledger S path w' kept := by
  apply of_found hCalls (hPath.trans h.atPath)
  rw [hDisk, hAppended]
  exact h.found_live hLive

theorem steps_entered (h : Ledger S path w kept) (hLive : w.crashed = false) {i : Thread} {c : ι}
    {plan : List Outcome} {p : Proc BatchJournal} (hWhole : whole path w.disk = true)
    (hRun : appendUnsynced (S.batch c) ⟨w.group.journal, w.disk, plan⟩ = .ok () p) :
    Ledger S path
      (({ w with disk := p.disk }.mark (.appended i c (w.group.appended + 1))).settle i
        (look { w.group with journal := p.self, appended := w.group.appended + 1 } i c
          (w.group.appended + 1))) kept := by
  obtain ⟨hPath, hAppend⟩ := found_append h.atPath (h.found_live hLive) hWhole (S.batch c) plan
  rw [hRun] at hPath hAppend
  have hRise :
      ({ w.group with journal := p.self, appended := w.group.appended + 1 } : GroupState).appended =
      w.group.appended + 1 := rfl
  obtain ⟨hCalls, hCallAt⟩ := h.calls.append i c hRise
  refine .of_found ((hCalls.goto ?_ ?_).group (look_quiet _ i c _ rfl).1)
    ((congrArg BatchJournal.path (journal_look _ i c _)).trans hPath) ?_
  · intro d s hs
    rw [held?_look, Option.some.injEq, Prod.mk.injEq] at hs
    obtain ⟨rfl, rfl⟩ := hs
    exact hCallAt
  · intro s hs hLe
    rw [Phase.seq?_of_held? (held?_look _ i c _), Option.some.injEq] at hs
    have := h.calls.kept_le
    omega
  · rcases hAppend with ⟨f, hf, hFound, -⟩ | ⟨hFailed, -⟩
    · have hDrop : ((appendedCalls w.history ++ [c]).drop kept).map S.batch =
          ((appendedCalls w.history).drop kept).map S.batch ++ [S.batch c] := by
        rw [List.drop_append_of_le_length (by rw [h.calls.count]; exact h.calls.kept_le),
          List.map_append, List.map_singleton]
      change Found path p.disk (((appendedCalls w.history ++ [c]).drop kept).map S.batch)
      rw [hDrop]
      exact hFound
    · cases hFailed

theorem steps_torn (h : Ledger S path w kept) (hLive : w.crashed = false) {i : Thread} {c : ι}
    {plan : List Outcome} {e : JournalError} {p : Proc BatchJournal}
    (hWhole : whole path w.disk = true)
    (hPart : ∀ f, Encodes f (S.batch c) →
      fileLength path p.disk < fileLength path w.disk + f.bytes.length)
    (hRun : appendUnsynced (S.batch c) ⟨w.group.journal, w.disk, plan⟩ = .error (.error e) p) :
    Ledger S path
      ((({ w with disk := p.disk }.mark (.torn i c)).mark
        (.answered i c none (.returned (.error (.journal e))))).settle i
          ({ w.group with journal := p.self }, .outside)) kept := by
  obtain ⟨hPath, hAppend⟩ := found_append h.atPath (h.found_live hLive) hWhole (S.batch c) plan
  rw [hRun] at hPath hAppend
  have hTorn : Calls w.group w.phase (.torn i c :: w.history) kept := h.calls.mark rfl rfl
  have hAnswered : Calls w.group w.phase
      (.answered i c none (.returned (.error (.journal e))) :: .torn i c :: w.history) kept :=
    hTorn.mark rfl rfl
  have hCalls : Calls { w.group with journal := p.self } (Function.update w.phase i .outside)
      (.answered i c none (.returned (.error (.journal e))) :: .torn i c :: w.history) kept :=
    (hAnswered.goto (p := .outside) nofun nofun).group rfl
  refine .of_found hCalls hPath ?_
  rcases hAppend with ⟨f, hf, -, hLength⟩ | ⟨-, hFound⟩
  · exact absurd hLength (Nat.ne_of_lt (hPart f hf))
  · exact hFound

theorem steps_enterCrashed (h : Ledger S path w kept) (hLive : w.crashed = false)
    {i : Thread} {c : ι} {plan : List Outcome} {e : Stop JournalError} {p : Proc BatchJournal}
    (hWhole : whole path w.disk = true)
    (hRun : appendUnsynced (S.batch c) ⟨w.group.journal, w.disk, plan⟩ = .error e p) :
    Ledger S path ({ w with disk := p.disk, crashed := true }.mark (.torn i c)) kept := by
  obtain ⟨-, hAppend⟩ := found_append h.atPath (h.found_live hLive) hWhole (S.batch c) plan
  rw [hRun] at hAppend
  have hCalls : Calls w.group w.phase (.torn i c :: w.history) kept := h.calls.mark rfl rfl
  rcases hAppend with ⟨f, hf, hFound, -⟩ | ⟨-, hFound⟩
  · exact ⟨hCalls, h.atPath, _, hFound, Or.inr ⟨rfl, i, c, _, rfl, rfl⟩⟩
  · exact .of_found hCalls h.atPath hFound

/-- A truncation keeps the entries, or drops all of them when all have had their turn. -/
theorem steps_truncate (h : Ledger S path w kept) (hLive : w.crashed = false)
    (hTurns : Turns w.group w.phase) {i : Thread} {c : ι} {seq : Nat}
    (hi : w.phase i = .flushed c seq) (hLast : w.group.appended = seq) (plan : List Outcome) :
    ∃ kept', (kept' = kept ∨ kept' = w.group.appended) ∧
      Calls w.group (Function.update w.phase i (.leaving c seq (.returned (.ok ()))))
        (.truncated i :: w.history) kept' ∧
          Calls w.group w.phase (.truncated i :: w.history) kept' ∧
      (Method.final (BatchJournal.truncate ⟨w.group.journal, w.disk, plan⟩)).self.path = path ∧
      Found path (Method.final (BatchJournal.truncate ⟨w.group.journal, w.disk, plan⟩)).disk
        (((appendedCalls w.history).drop kept').map S.batch) := by
  obtain ⟨hPath, hTruncate⟩ := found_truncate h.atPath (h.found_live hLive) plan
  have hMoves : ∀ n, Calls w.group w.phase w.history n →
      Calls w.group (Function.update w.phase i (.leaving c seq (.returned (.ok ()))))
        (.truncated i :: w.history) n ∧ Calls w.group w.phase (.truncated i :: w.history) n := by
    intro n hCalls
    have hMarked : Calls w.group w.phase (.truncated i :: w.history) n := hCalls.mark rfl rfl
    refine ⟨hMarked.move ?_ ?_ fun _ => rfl, hMarked⟩
    · rw [hi]
      rfl
    · rw [hi]
      rfl
  rcases hTruncate with hSame | hEmpty
  · obtain ⟨hMoved, hMarked⟩ := hMoves kept h.calls
    exact ⟨kept, Or.inl rfl, hMoved, hMarked, hPath, hSame⟩
  · have hAll : Calls w.group w.phase w.history w.group.appended := by
      apply h.calls.keepAll hTurns (i := i)
      · rw [hi]
        rfl
      · rw [hi, hLast]
        rfl
      · rw [hi]
        rfl
    obtain ⟨hMoved, hMarked⟩ := hMoves _ hAll
    refine ⟨w.group.appended, Or.inr rfl, hMoved, hMarked, hPath, ?_⟩
    rw [← h.calls.count, List.drop_length]
    exact hEmpty

/-- **One step.** It keeps the ledger, or drops the entries of the calls that have had their turn.
-/
theorem steps {e : Event ι ω} (h : Ledger S path w kept) (hLive : w.crashed = false)
    (hTurns : Turns w.group w.phase) (hWhole : AppendsWhole S path w e) (hStep : Steps S w e w') :
    ∃ kept', Ledger S path w' kept' ∧
      (kept' = kept ∨ kept' = w.group.appended ∧ w'.store = w.store ∧
      ∃ i c, w.phase i = .flushed c w.group.appended ∧ w'.history = .truncated i :: w.history) := by
  cases hStep with
  | @truncated i c seq plan hi hLast journal disk hRun =>
    obtain ⟨rfl, rfl⟩ := hRun
    obtain ⟨kept', hKept, hMoved, -, hPath, hFound⟩ := h.steps_truncate hLive hTurns hi hLast plan
    refine ⟨kept', .of_found (hMoved.group rfl) hPath hFound, hKept.imp_right fun hAll => ?_⟩
    exact ⟨hAll, rfl, i, c, by rw [hi, hLast], rfl⟩
  | @truncateCrashed i c seq plan hi hLast disk hRun =>
    subst hRun
    obtain ⟨kept', hKept, -, hMarked, -, hFound⟩ := h.steps_truncate hLive hTurns hi hLast plan
    refine ⟨kept', .of_found hMarked h.atPath hFound, hKept.imp_right fun hAll => ?_⟩
    exact ⟨hAll, rfl, i, c, by rw [hi, hLast], rfl⟩
  | @entered i c plan p hi hRun =>
    exact ⟨kept, h.steps_entered hLive (hWhole i c plan rfl hi).1 hRun, Or.inl rfl⟩
  | @torn i c plan e p hi hRun =>
    obtain ⟨hHere, hPart⟩ := hWhole i c plan rfl hi
    exact ⟨kept, h.steps_torn hLive hHere (hPart p e hRun) hRun, Or.inl rfl⟩
  | @enterCrashed i c plan e p hi hRun =>
    exact ⟨kept, h.steps_enterCrashed hLive (hWhole i c plan rfl hi).1 hRun, Or.inl rfl⟩
  | @call i c hi => exact ⟨kept, h.quiet hLive (h.calls.goto nofun nofun) rfl rfl rfl, Or.inl rfl⟩
  | @check i c op hi | @checked i c op hi =>
    exact ⟨kept, h.quiet hLive (h.calls.goto nofun nofun) rfl rfl rfl, Or.inl rfl⟩
  | @refused i c op e hi hCheck =>
    have hMarked : Calls w.group w.phase (.answered i c none (.refused e) :: w.history) kept :=
      h.calls.mark rfl rfl
    exact ⟨kept, h.quiet hLive (hMarked.goto nofun nofun) rfl rfl rfl, Or.inl rfl⟩
  | @wake i c seq hi | @readUpto i c seq hi | @unpark i c seq d hi =>
    refine ⟨kept, h.quiet hLive (h.calls.move ?_ ?_ ?_) rfl rfl rfl, Or.inl rfl⟩
    · rw [hi]
      rfl
    · rw [hi]
      rfl
    · rw [hi]
      exact nofun
  | @look i c seq hi =>
    have hCalls := h.calls.settle (i := i) (c := c) (s := seq) (by rw [hi]; rfl) (by rw [hi]; rfl)
      (look_quiet (ε := ε) w.group i c seq rfl).1 (held?_look w.group i c seq)
    exact ⟨kept, h.quiet hLive hCalls (congrArg BatchJournal.path (journal_look _ i c seq)) rfl rfl,
      Or.inl rfl⟩
  | @startSync i c seq upto hi =>
    have hMarked : Calls w.group w.phase (.syncBegan i :: w.history) kept := h.calls.mark rfl rfl
    have hCalls := hMarked.move (i := i) (p := .syncing c seq upto) (by rw [hi]; rfl)
      (by rw [hi]; rfl) (by rw [hi]; exact nofun)
    exact ⟨kept, h.quiet hLive hCalls rfl rfl rfl, Or.inl rfl⟩
  | @finishSync i c seq upto ok hi =>
    have hMarked : Calls (w.group.finishSync upto ok) (fun j => (w.phase j).wake)
        (.synced i upto ok :: w.history) kept := by
      apply Calls.mark
      · cases ok <;> exact h.calls.wakeAll.group rfl
      · rfl
      · rfl
    have hCalls := hMarked.settle (i := i) (c := c) (s := seq) (by rw [hi]; rfl) (by rw [hi]; rfl)
      (look_quiet (ε := ε) (w.group.finishSync upto ok) i c seq rfl).1
      (held?_look (w.group.finishSync upto ok) i c seq)
    refine ⟨kept, h.quiet hLive hCalls ?_ rfl rfl, Or.inl rfl⟩
    refine congrArg BatchJournal.path ((journal_look _ i c seq).trans ?_)
    cases ok <;> rfl
  | @gate i c seq durable hi =>
    have hCalls := h.calls.settle (i := i) (c := c) (s := seq) (by rw [hi]; rfl) (by rw [hi]; rfl)
      (gate_quiet (ε := ε) w.group i c seq durable rfl).1 (held?_gate w.group i c seq durable)
    exact ⟨kept, h.quiet hLive hCalls
      (congrArg BatchJournal.path (journal_gate _ i c seq durable)) rfl rfl, Or.inl rfl⟩
  | @applied i c seq turn phase plan hi hNext =>
    have hMarked := h.calls.apply (i := i) (c := c) (s := seq) (by rw [hi]; rfl) w.store
      (S.apply c turn plan w.store).2
    have hHeld : phase.held? = some (c, seq) := by
      rcases afterApply_cases hNext with rfl | ⟨answer, rfl, -⟩ <;> rfl
    have hCalls := hMarked.settle (i := i) (c := c) (s := seq) (r := (w.group, phase))
      (by rw [hi]; rfl) (by rw [hi]; rfl) rfl hHeld
    exact ⟨kept, h.quiet hLive hCalls rfl rfl rfl, Or.inl rfl⟩
  | @applyCrashed i c seq turn plan hi hNext =>
    have hMarked := h.calls.apply (i := i) (c := c) (s := seq) (by rw [hi]; rfl) w.store
      (S.apply c turn plan w.store).2
    exact ⟨kept, h.quiet hLive hMarked rfl rfl rfl, Or.inl rfl⟩
  | @kept i c seq plan hi hLast =>
    have hCalls := h.calls.move (i := i) (p := .leaving c seq (.returned (.ok ())))
      (by rw [hi]; rfl) (by rw [hi]; rfl) fun _ => rfl
    exact ⟨kept, h.quiet hLive hCalls rfl rfl rfl, Or.inl rfl⟩
  | @release i c seq answer hi =>
    have hMarked : Calls w.group.release
        (unparkWaiter (w.group.turnWaiters (w.group.nextApply + 1)) w.phase)
        (.answered i c (some seq) answer :: w.history) kept := by
      apply Calls.mark
      · exact (h.calls.unpark _).group rfl
      · rfl
      · rfl
    exact ⟨kept, h.quiet hLive (hMarked.goto nofun nofun) rfl rfl rfl, Or.inl rfl⟩
  | wrote x =>
    exact ⟨kept, h.quiet hLive (h.calls.mark rfl rfl) rfl rfl rfl, Or.inl rfl⟩

end Ledger

end CommitGroup

end MultimodalDb
