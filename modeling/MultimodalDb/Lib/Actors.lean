import Mathlib.Data.List.Nodup
import MultimodalDb.Lib.Histories
import MultimodalDb.Lib.Program

/-!
# Actors

One worker has the state of an object to itself. The threads send it their calls through a queue,
and each waits for the reply to its own. The worker takes the calls in turn and makes one access
after the other for each.

An actor cannot be told from the atomic object (`follows_object`): a call takes effect when the
worker replies.
-/

namespace MultimodalDb

/-- An object that one worker keeps. `A` are the accesses. -/
structure Actor (A C : Type) (Got : A → Type) (Reply : C → Type) (σ : Type) where
  answer : (a : A) → σ → Got a × σ
  body : (c : C) → Program A Got (Reply c)

namespace Actor

variable {A C : Type} {Got : A → Type} {Reply : C → Type} {σ : Type}

/-- What a thread is about: a call is sent, is waited for, and its reply is received. -/
inductive Thread (C : Type) (Reply : C → Type) where
  | idle
  | sending (c : C)
  | waiting (c : C)
  | replied (c : C) (r : Reply c)

/-- What the worker is about: nothing, or what is left to do for a thread's call. -/
inductive Worker (A C : Type) (Got : A → Type) (Reply : C → Type) where
  | idle
  | working (t : Nat) (c : C) (q : Program A Got (Reply c))

structure State (A C : Type) (Got : A → Type) (Reply : C → Type) (σ : Type) where
  contents : σ
  queue : List (Nat × C)
  worker : Worker A C Got Reply
  threads : Nat → Thread C Reply

variable (O : Actor A C Got Reply σ)

/-- A call, with its accesses made one after the other. -/
def act (c : C) (s : σ) : Reply c × σ := Program.run O.answer (O.body c) s

inductive Step : State A C Got Reply σ → Option (Seen C Reply) → State A C Got Reply σ → Prop where
  | call {s t c} (h : s.threads t = .idle) :
    Step s (some (.call t c)) { s with threads := Function.update s.threads t (.sending c) }
  | send {s t c} (h : s.threads t = .sending c) :
    Step s none { s with
      queue := s.queue ++ [(t, c)]
      threads := Function.update s.threads t (.waiting c) }
  | take {s t c queue} (h : s.worker = .idle) (hQueue : s.queue = (t, c) :: queue) :
    Step s none { s with
      queue := queue
      worker := .working t c (O.body c) }
  | access {s t c a q} (h : s.worker = .working t c (.call a q)) :
    Step s none { s with
      contents := (O.answer a s.contents).2
      worker := .working t c (q (O.answer a s.contents).1) }
  | reply {s t c r} (h : s.worker = .working t c (.done r)) :
    Step s none { s with
      worker := .idle
      threads := Function.update s.threads t (.replied c r) }
  | ret {s t c r} (h : s.threads t = .replied c r) :
    Step s (some (.ret t c r)) { s with threads := Function.update s.threads t .idle }

def object (s : σ) : System (Seen C Reply) :=
  ⟨State A C Got Reply σ, ⟨s, [], .idle, fun _ => .idle⟩, O.Step⟩

/-! ## Actors are atomic -/

/-- What a thread is about, at an actor and at the atomic object. -/
inductive Tracks : Thread C Reply → Atomic.Thread C Reply → Prop where
  | idle : Tracks .idle .idle
  | sending c : Tracks (.sending c) (.called c)
  | waiting c : Tracks (.waiting c) (.called c)
  | replied c r : Tracks (.replied c r) (.done c r)

/-- The calls that are sent and not replied to, the worker's own first. -/
def Worker.open : Worker A C Got Reply → List (Nat × C)
  | idle => []
  | working t c _ => [(t, c)]

/-- What the worker's contents come to once its call is done. -/
def Worker.Comes (O : Actor A C Got Reply σ) (contents s : σ) : Worker A C Got Reply → Prop
  | idle => contents = s
  | working _ c q => Program.run O.answer q contents = O.act c s

structure Mirrors (s : State A C Got Reply σ) (s' : σ × (Nat → Atomic.Thread C Reply)) : Prop where
  contents : s.worker.Comes O s.contents s'.1
  threads t : Tracks (s.threads t) (s'.2 t)
  /-- Every thread waits for one call. -/
  nodup : ((s.worker.open ++ s.queue).map Prod.fst).Nodup
  waiting p : p ∈ s.worker.open ++ s.queue → s.threads p.1 = .waiting p.2

variable {O}

/-- A thread that is not waiting has sent nothing that is open. -/
theorem Mirrors.not_mem {s : State A C Got Reply σ} {s' : σ × (Nat → Atomic.Thread C Reply)}
    (h : Mirrors O s s')
    {t : Nat} (hThread : ∀ c, s.threads t ≠ .waiting c) :
    ∀ p ∈ s.worker.open ++ s.queue, p.1 ≠ t := by
  rintro p hMem rfl
  exact hThread p.2 (h.waiting p hMem)

/-- Where no call is open, the contents are the same. -/
theorem Mirrors.at_rest {s : State A C Got Reply σ} {s' : σ × (Nat → Atomic.Thread C Reply)}
    (h : Mirrors O s s')
    (hIdle : ∀ t, s.threads t = .idle) : s.contents = s'.1 ∧ ∀ t, s'.2 t = .idle := by
  have hContents := h.contents
  have hWaiting := h.waiting
  cases hWorker : s.worker with
  | idle =>
    rw [hWorker] at hContents
    refine ⟨hContents, fun t => ?_⟩
    have hTrack := h.threads t
    rw [hIdle] at hTrack
    generalize s'.2 t = y at hTrack
    cases hTrack
    rfl
  | working t c q =>
    rw [hWorker] at hWaiting
    have hThread := hWaiting (t, c) List.mem_cons_self
    rw [hIdle] at hThread
    cases hThread

/-- What another thread does is nothing to the open calls. -/
theorem waiting_update {ts : Nat → Thread C Reply} {ps : List (Nat × C)}
    (h : ∀ p ∈ ps, ts p.1 = .waiting p.2) {t : Nat}
    (hOther : ∀ p ∈ ps, p.1 ≠ t) (x : Thread C Reply) :
    ∀ p ∈ ps, Function.update ts t x p.1 = .waiting p.2 :=
  fun p hMem => (Function.update_of_ne (hOther p hMem) _ _).trans (h p hMem)

/-- **Actors are atomic.** -/
theorem follows_object (s₀ : σ) :
    System.Follows (O.object s₀) (Atomic.object O.act s₀) (Mirrors O) where
  start := ⟨rfl, fun _ => .idle, List.nodup_nil, fun _ hMem => absurd hMem List.not_mem_nil⟩
  step {s e s₂ s'} hMirrors hStep := by
    obtain ⟨x, ts'⟩ := s'
    cases hStep with
    | @call t c hIdle =>
      have hTrack : Tracks (s.threads t) (ts' t) := hMirrors.threads t
      rw [hIdle] at hTrack
      generalize hThread : ts' t = y at hTrack
      cases hTrack with
      | idle =>
        have hOther := hMirrors.not_mem (t := t) fun c hWaiting => by
          rw [hIdle] at hWaiting
          cases hWaiting
        exact ⟨_, .single (.call hThread), hMirrors.contents,
          rel_update hMirrors.threads (.sending c), hMirrors.nodup,
          waiting_update hMirrors.waiting hOther _⟩
    | @send t c hSending =>
      have hTrack : Tracks (s.threads t) (ts' t) := hMirrors.threads t
      rw [hSending] at hTrack
      generalize hThread : ts' t = y at hTrack
      cases hTrack with
      | sending =>
        have hOther := hMirrors.not_mem (t := t) fun c hWaiting => by
          rw [hSending] at hWaiting
          cases hWaiting
        have hNext := rel_update hMirrors.threads (t := t) (.waiting c : Tracks _ _)
        rw [← hThread, Function.update_eq_self] at hNext
        refine ⟨_, .refl, hMirrors.contents, hNext, ?_, fun p hMem => ?_⟩
        · rw [← List.append_assoc, List.map_append]
          refine List.nodup_append.mpr ⟨hMirrors.nodup, List.nodup_singleton t,
            fun t' hHere t₂ hLast => ?_⟩
          obtain ⟨p, hMem, rfl⟩ := List.mem_map.mp hHere
          rw [List.mem_singleton.mp hLast]
          exact hOther p hMem
        · rw [← List.append_assoc] at hMem
          rcases List.mem_append.mp hMem with hHere | hLast
          · exact waiting_update hMirrors.waiting hOther _ p hHere
          · rw [List.mem_singleton.mp hLast]
            exact Function.update_self ..
    | @take t c queue hIdle hQueue =>
      have hContents := hMirrors.contents
      have hNodup := hMirrors.nodup
      have hWaiting := hMirrors.waiting
      rw [hIdle] at hContents hNodup hWaiting
      rw [hQueue] at hNodup hWaiting
      have hContents : s.contents = x := hContents
      refine ⟨_, .refl, ?_, hMirrors.threads, hNodup, hWaiting⟩
      show Program.run O.answer (O.body c) s.contents = _
      rw [hContents, act]
    | @access t c a q hWorking =>
      have hContents := hMirrors.contents
      have hNodup := hMirrors.nodup
      have hWaiting := hMirrors.waiting
      rw [hWorking] at hContents hNodup hWaiting
      exact ⟨_, .refl, hContents, hMirrors.threads, hNodup, hWaiting⟩
    | @reply t c r hWorking =>
      have hContents := hMirrors.contents
      have hNodup := hMirrors.nodup
      have hWaiting := hMirrors.waiting
      rw [hWorking] at hContents hNodup hWaiting
      have hContents : (r, s.contents) = O.act c x := hContents
      have hTrack : Tracks (s.threads t) (ts' t) := hMirrors.threads t
      rw [hWaiting (t, c) List.mem_cons_self] at hTrack
      generalize hThread : ts' t = y at hTrack
      cases hTrack with
      | waiting =>
        have hAct := @Atomic.Step.act _ _ _ O.act x ts' t c hThread
        rw [← hContents] at hAct
        obtain ⟨hNew, hRest⟩ := List.nodup_cons.mp hNodup
        refine ⟨_, .single hAct, rfl, rel_update hMirrors.threads (.replied c r), hRest,
          waiting_update (fun p hMem => hWaiting p (List.mem_cons_of_mem _ hMem))
            (fun p hMem hEq => ?_) _⟩
        exact hNew (List.mem_map.mpr ⟨p, hMem, hEq⟩)
    | @ret t c r hReplied =>
      have hTrack : Tracks (s.threads t) (ts' t) := hMirrors.threads t
      rw [hReplied] at hTrack
      generalize hThread : ts' t = y at hTrack
      cases hTrack with
      | replied =>
        have hOther := hMirrors.not_mem (t := t) fun c hWaiting => by
          rw [hReplied] at hWaiting
          cases hWaiting
        exact ⟨_, .single (.ret hThread), hMirrors.contents, rel_update hMirrors.threads .idle,
          hMirrors.nodup, waiting_update hMirrors.waiting hOther _⟩

/-! ## A call alone -/

section Alone

variable {O : Actor A C Got Reply σ} {start : σ}

/-- The worker's accesses for a call, one after the other. -/
theorem moves_accesses (queue : List (Nat × C)) (threads : Nat → Thread C Reply) {t : Nat} {c : C}
    (q : Program A Got (Reply c)) (contents : σ) :
    (O.object start).Moves ⟨contents, queue, .working t c q, threads⟩ []
      ⟨(Program.run O.answer q contents).2, queue,
        .working t c (.done (Program.run O.answer q contents).1), threads⟩ := by
  induction q generalizing contents with
  | done r => exact .refl
  | call a q ih =>
    have hAccess := System.Moves.single (A := O.object start)
      (Step.access (s := ⟨contents, queue, .working t c (.call a q), threads⟩) rfl)
    exact hAccess.trans (ih (O.answer a contents).1 (O.answer a contents).2)

/-- **A call ends** once it is the first in the queue of an idle worker. -/
theorem moves_ret (queue : List (Nat × C)) {threads : Nat → Thread C Reply} {t : Nat} {c : C}
    (contents : σ) :
    (O.object start).Moves ⟨contents, (t, c) :: queue, .idle, threads⟩
      [.ret t c (O.act c contents).1]
      ⟨(O.act c contents).2, queue, .idle, Function.update threads t .idle⟩ := by
  have hTake := System.Moves.single (A := O.object start)
    (Step.take (s := ⟨contents, (t, c) :: queue, .idle, threads⟩) rfl rfl)
  have hAccesses := hTake.trans (moves_accesses queue threads (O.body c) contents)
  have hReply := (hAccesses.tail (Step.reply rfl)).tail (Step.ret (Function.update_self t _ _))
  dsimp only at hReply
  rwa [Function.update_idem] at hReply

/-- Two calls that are open at once, and sent in turn. -/
theorem moves_overlapping {t t' : Nat} (hOther : t' ≠ t) (c c' : C) (contents : σ) :
    (O.object start).Moves ⟨contents, [], .idle, fun _ => .idle⟩
      [.call t c, .call t' c', .ret t c (O.act c contents).1,
        .ret t' c' (O.act c' (O.act c contents).2).1]
      ⟨(O.act c' (O.act c contents).2).2, [], .idle, fun _ => .idle⟩ := by
  have hFirst := System.Moves.single (A := O.object start)
    (Step.call (s := ⟨contents, [], .idle, fun _ => .idle⟩) (t := t) (c := c) rfl)
  have hBoth := hFirst.tail (Step.call (t := t') (c := c') (Function.update_of_ne hOther _ _))
  have hSent := hBoth.tail (Step.send
    ((Function.update_of_ne hOther.symm _ _).trans (Function.update_self t _ _)))
  have hQueue := hSent.tail (Step.send
    ((Function.update_of_ne hOther _ _).trans (Function.update_self t' _ _)))
  have hOne := hQueue.trans (moves_ret [(t', c')] contents)
  have hTwo := hOne.trans (moves_ret [] (O.act c contents).2)
  have hIdle (t : Nat) : Function.update (fun _ : Nat => (Thread.idle : Thread C Reply)) t .idle =
      fun _ => .idle := Function.update_eq_self t _
  dsimp only at hTwo
  rwa [Function.update_comm hOther, Function.update_idem, Function.update_idem,
    Function.update_comm hOther, Function.update_idem, Function.update_idem, hIdle, hIdle] at hTwo

end Alone

end Actor

end MultimodalDb
