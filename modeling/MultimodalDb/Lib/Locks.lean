import Mathlib.Data.Finset.Basic
import MultimodalDb.Lib.Histories
import MultimodalDb.Lib.Program

/-!
# Objects behind locks

The state of an object is in parts, each behind a lock of its own that readers share and a writer
has alone. A call goes through sections one after the other. In a section a thread holds one lock
and makes one access after the other to the part behind it, while the threads in other sections make
theirs.

Where the sections that share a lock change nothing, an object of this kind follows one that takes
each section in one step (`follows_sections`), and where every call is one section it follows the
atomic object (`follows_object`). A call that finds no lock taken can come to its end (`moves_ret`).
-/

namespace MultimodalDb

/-- An object behind locks. `I` are its locks, `S` the sections and `A` the accesses. -/
structure Locked (I S A C : Type) (Ret : S → Type) (Got : A → Type) (Reply : C → Type)
    (σ : Type) where
  answer : (a : A) → σ → Got a × σ
  lock : S → I
  /-- Whether a section shares its lock with others. -/
  shares : S → Bool
  body : (k : S) → Program A Got (Ret k)
  script : (c : C) → Program S Ret (Reply c)
  body_reads : ∀ {k}, shares k = true →
    (body k).Meets (fun a => ∀ s, (answer a s).2 = s) fun _ => True

namespace Locked

/-- Who holds a lock. Nobody does where there are no readers. -/
inductive Lock where
  | readers (holders : Finset Nat)
  | writer (holder : Nat)

/-- A thread holds a lock. -/
def Lock.Holds (t : Nat) : Bool → Lock → Prop
  | true, readers holders => t ∈ holders
  | false, writer holder => holder = t
  | _, _ => False

variable {I S A C : Type} {Ret : S → Type} {Got : A → Type} {Reply : C → Type} {σ : Type}

/-- What a thread is about. -/
inductive Thread (S A C : Type) (Ret : S → Type) (Got : A → Type) (Reply : C → Type) where
  | idle
  | outside (c : C) (p : Program S Ret (Reply c))
  | inside (c : C) (k : S) (q : Program A Got (Ret k)) (next : Ret k → Program S Ret (Reply c))

structure State (I S A C : Type) (Ret : S → Type) (Got : A → Type) (Reply : C → Type)
    (σ : Type) where
  parts : I → σ
  locks : I → Lock
  threads : Nat → Thread S A C Ret Got Reply

/-- What a thread is about that takes every section in one step. -/
inductive Running (S C : Type) (Ret : S → Type) (Reply : C → Type) where
  | idle
  | running (c : C) (p : Program S Ret (Reply c))

section Object

variable [DecidableEq I] (O : Locked I S A C Ret Got Reply σ)

/-- A section, run with no access of another thread in between. -/
def perform (k : S) (s : σ) : Ret k × σ := Program.run O.answer (O.body k) s

inductive Step : State I S A C Ret Got Reply σ → Option (Seen C Reply) →
    State I S A C Ret Got Reply σ → Prop where
  | call {s t c} (h : s.threads t = .idle) :
    Step s (some (.call t c)) { s with
      threads := Function.update s.threads t (.outside c (O.script c)) }
  | acquireRead {s t c k next holders} (h : s.threads t = .outside c (.call k next))
    (hShares : O.shares k = true) (hFree : s.locks (O.lock k) = .readers holders) :
    Step s none { s with
      locks := Function.update s.locks (O.lock k) (.readers (insert t holders))
      threads := Function.update s.threads t (.inside c k (O.body k) next) }
  | acquireWrite {s t c k next} (h : s.threads t = .outside c (.call k next))
    (hShares : O.shares k = false) (hFree : s.locks (O.lock k) = .readers ∅) :
    Step s none { s with
      locks := Function.update s.locks (O.lock k) (.writer t)
      threads := Function.update s.threads t (.inside c k (O.body k) next) }
  | access {s t c k a q next} (h : s.threads t = .inside c k (.call a q) next) :
    Step s none { s with
      parts := Function.update s.parts (O.lock k) (O.answer a (s.parts (O.lock k))).2
      threads :=
        Function.update s.threads t (.inside c k (q (O.answer a (s.parts (O.lock k))).1) next) }
  | releaseRead {s t c k r next holders} (h : s.threads t = .inside c k (.done r) next)
    (hHeld : s.locks (O.lock k) = .readers holders) :
    Step s none { s with
      locks := Function.update s.locks (O.lock k) (.readers (holders.erase t))
      threads := Function.update s.threads t (.outside c (next r)) }
  | releaseWrite {s t c k r next} (h : s.threads t = .inside c k (.done r) next)
    (hHeld : s.locks (O.lock k) = .writer t) :
    Step s none { s with
      locks := Function.update s.locks (O.lock k) (.readers ∅)
      threads := Function.update s.threads t (.outside c (next r)) }
  | ret {s t c r} (h : s.threads t = .outside c (.done r)) :
    Step s (some (.ret t c r)) { s with threads := Function.update s.threads t .idle }

def object (parts : I → σ) : System (Seen C Reply) :=
  ⟨State I S A C Ret Got Reply σ, ⟨parts, fun _ => .readers ∅, fun _ => .idle⟩, O.Step⟩

inductive SectionStep : (I → σ) × (Nat → Running S C Ret Reply) → Option (Seen C Reply) →
    (I → σ) × (Nat → Running S C Ret Reply) → Prop where
  | call {s ts t c} (h : ts t = .idle) :
    SectionStep (s, ts) (some (.call t c)) (s, Function.update ts t (.running c (O.script c)))
  | take {s ts t c k next} (h : ts t = .running c (.call k next)) :
    SectionStep (s, ts) none (Function.update s (O.lock k) (O.perform k (s (O.lock k))).2,
      Function.update ts t (.running c (next (O.perform k (s (O.lock k))).1)))
  | ret {s ts t c r} (h : ts t = .running c (.done r)) :
    SectionStep (s, ts) (some (.ret t c r)) (s, Function.update ts t .idle)

/-- The object that takes every section in one step. -/
def sections (parts : I → σ) : System (Seen C Reply) :=
  ⟨(I → σ) × (Nat → Running S C Ret Reply), (parts, fun _ => .idle), O.SectionStep⟩

end Object

/-! ## Sections -/

section Sections

variable {O : Locked I S A C Ret Got Reply σ} {parts parts' : I → σ} {locks : I → Lock} {t : Nat}

/-- A thread holds its lock, and what is left of its section comes to what the section comes to. -/
structure Underway (O : Locked I S A C Ret Got Reply σ) (parts parts' : I → σ) (locks : I → Lock)
    (t : Nat) (k : S) (q : Program A Got (Ret k)) : Prop where
  holds : (locks (O.lock k)).Holds t (O.shares k)
  reads : O.shares k = true → q.Meets (fun a => ∀ s, (O.answer a s).2 = s) fun _ => True
  run : Program.run O.answer q (parts (O.lock k)) = O.perform k (parts' (O.lock k))

/-- What a thread is about, in an object and in the one that takes sections in one step. -/
inductive Tracks (O : Locked I S A C Ret Got Reply σ) (parts parts' : I → σ)
    (locks : I → Lock) (t : Nat) :
    Thread S A C Ret Got Reply → Running S C Ret Reply → Prop where
  | idle : Tracks O parts parts' locks t .idle .idle
  | outside c p : Tracks O parts parts' locks t (.outside c p) (.running c p)
  | inside {c k q next} (h : Underway O parts parts' locks t k q) :
    Tracks O parts parts' locks t (.inside c k q next) (.running c (.call k next))

theorem Tracks.of_idle {y : Running S C Ret Reply} (h : Tracks O parts parts' locks t .idle y) :
    y = .idle := by
  cases h
  rfl

theorem Tracks.of_outside {c : C} {p : Program S Ret (Reply c)} {y : Running S C Ret Reply}
    (h : Tracks O parts parts' locks t (.outside c p) y) : y = .running c p := by
  cases h
  rfl

theorem Tracks.of_inside {c : C} {k : S} {q : Program A Got (Ret k)}
    {next : Ret k → Program S Ret (Reply c)}
    {y : Running S C Ret Reply} (h : Tracks O parts parts' locks t (.inside c k q next) y) :
    y = .running c (.call k next) ∧ Underway O parts parts' locks t k q := by
  cases h with
  | inside h => exact ⟨rfl, h⟩

/-- A thread is in a section of a lock. -/
def Thread.In (O : Locked I S A C Ret Got Reply σ) (i : I) : Thread S A C Ret Got Reply → Prop
  | inside _ k _ _ => O.lock k = i
  | _ => False

/-- The parts are the same wherever no writer is at work. -/
structure Mirrors (O : Locked I S A C Ret Got Reply σ) (s : State I S A C Ret Got Reply σ)
    (s' : (I → σ) × (Nat → Running S C Ret Reply)) : Prop where
  parts i holders : s.locks i = .readers holders → s.parts i = s'.1 i
  threads t : Tracks O s.parts s'.1 s.locks t (s.threads t) (s'.2 t)
  writer i t : s.locks i = .writer t → (s.threads t).In O i

/-- What other threads do leaves a section underway. -/
theorem Underway.frame {k : S} {q : Program A Got (Ret k)} (h : Underway O parts parts' locks t k q)
    {parts₂ parts₂' : I → σ} {locks₂ : I → Lock}
    (hLock : (locks (O.lock k)).Holds t (O.shares k) → (locks₂ (O.lock k)).Holds t (O.shares k))
    (hHere : parts₂ (O.lock k) = parts (O.lock k))
    (hThere : parts₂' (O.lock k) = parts' (O.lock k)) :
    Underway O parts₂ parts₂' locks₂ t k q :=
  ⟨hLock h.holds, h.reads, by rw [hHere, hThere, h.run]⟩

theorem Tracks.frame {x : Thread S A C Ret Got Reply} {y : Running S C Ret Reply}
    (h : Tracks O parts parts' locks t x y) {parts₂ parts₂' : I → σ} {locks₂ : I → Lock}
    (hLock : ∀ i shares, (locks i).Holds t shares → (locks₂ i).Holds t shares)
    (hParts : ∀ i shares, (locks i).Holds t shares → parts₂ i = parts i ∧ parts₂' i = parts' i) :
    Tracks O parts₂ parts₂' locks₂ t x y := by
  cases h with
  | idle => exact .idle
  | outside c p => exact .outside c p
  | inside h =>
    obtain ⟨hHere, hThere⟩ := hParts _ _ h.holds
    exact .inside (h.frame (hLock _ _) hHere hThere)

/-- Of two threads that hold a lock neither is a writer. -/
theorem Lock.Holds.ne {lock : Lock} {t t' : Nat} {shares : Bool} (h : lock.Holds t false)
    (h' : lock.Holds t' shares) :
    t' = t := by
  cases lock with
  | readers holders => cases h
  | writer holder =>
    cases shares with
    | true => cases h'
    | false => exact h'.symm.trans h

end Sections

section Follows

variable {O : Locked I S A C Ret Got Reply σ}

/-- A step of a thread that the others do not notice. -/
theorem Mirrors.update {s : State I S A C Ret Got Reply σ}
    {s' : (I → σ) × (Nat → Running S C Ret Reply)}
    (h : O.Mirrors s s') {t : Nat} {parts₂ parts₂' : I → σ} {locks₂ : I → Lock}
    {x : Thread S A C Ret Got Reply} {y : Running S C Ret Reply}
    (hParts : ∀ i holders, locks₂ i = .readers holders → parts₂ i = parts₂' i)
    (hLock : ∀ t', t' ≠ t → ∀ i shares, (s.locks i).Holds t' shares → (locks₂ i).Holds t' shares)
    (hSame : ∀ t', t' ≠ t → ∀ i shares, (s.locks i).Holds t' shares → parts₂ i = s.parts i ∧
      parts₂' i = s'.1 i)
    (hThread : Tracks O parts₂ parts₂' locks₂ t x y)
    (hWriter : ∀ i t', locks₂ i = .writer t' → (t' = t → x.In O i) ∧
      (t' ≠ t → s.locks i = .writer t')) :
    O.Mirrors ⟨parts₂, locks₂, Function.update s.threads t x⟩
      (parts₂', Function.update s'.2 t y) where
  parts := hParts
  threads t' := by
    dsimp only
    by_cases hOther : t' = t
    · subst hOther
      rw [Function.update_self, Function.update_self]
      exact hThread
    · rw [Function.update_of_ne hOther, Function.update_of_ne hOther]
      exact (h.threads t').frame (hLock t' hOther) (hSame t' hOther)
  writer i t' hHeld := by
    obtain ⟨hHere, hThere⟩ := hWriter i t' hHeld
    dsimp only
    by_cases hOther : t' = t
    · rw [hOther, Function.update_self]
      exact hHere hOther
    · rw [Function.update_of_ne hOther]
      exact h.writer i t' (hThere hOther)

/-- A step of a thread that nothing is seen of where sections are single steps. -/
theorem Mirrors.silent {s : State I S A C Ret Got Reply σ}
    {s' : (I → σ) × (Nat → Running S C Ret Reply)}
    (h : O.Mirrors s s') {t : Nat} {parts₂ : I → σ} {locks₂ : I → Lock}
    {x : Thread S A C Ret Got Reply}
    (hParts : ∀ i holders, locks₂ i = .readers holders → parts₂ i = s'.1 i)
    (hLock : ∀ t', t' ≠ t → ∀ i shares, (s.locks i).Holds t' shares → (locks₂ i).Holds t' shares)
    (hSame : ∀ t', t' ≠ t → ∀ i shares, (s.locks i).Holds t' shares → parts₂ i = s.parts i)
    (hThread : Tracks O parts₂ s'.1 locks₂ t x (s'.2 t))
    (hWriter : ∀ i t', locks₂ i = .writer t' → (t' = t → x.In O i) ∧
      (t' ≠ t → s.locks i = .writer t')) :
    O.Mirrors ⟨parts₂, locks₂, Function.update s.threads t x⟩ s' := by
  have hNext := h.update hParts hLock
    (fun t' hOther i shares hHolds => ⟨hSame t' hOther i shares hHolds, rfl⟩) hThread hWriter
  rwa [Function.update_eq_self] at hNext

/-- A thread that is outside is no writer, and what it does next makes it none. -/
theorem Mirrors.writer_of_not_in {s : State I S A C Ret Got Reply σ}
    {s' : (I → σ) × (Nat → Running S C Ret Reply)}
    (h : O.Mirrors s s') {t : Nat} {i : I} (hOut : ¬ (s.threads t).In O i)
    (x : Thread S A C Ret Got Reply) (t' : Nat)
    (hHeld : s.locks i = .writer t') : (t' = t → x.In O i) ∧ (t' ≠ t → s.locks i = .writer t') :=
  ⟨fun hEq => absurd (hEq ▸ h.writer i t' hHeld) hOut, fun _ => hHeld⟩

/-- Where no call is open, the parts are the same. -/
theorem Mirrors.at_rest {s : State I S A C Ret Got Reply σ}
    {s' : (I → σ) × (Nat → Running S C Ret Reply)}
    (h : O.Mirrors s s') (hIdle : ∀ t, s.threads t = .idle) :
    s.parts = s'.1 ∧ ∀ t, s'.2 t = .idle := by
  refine ⟨funext fun i => ?_, fun t => (hIdle t ▸ h.threads t).of_idle⟩
  cases hLock : s.locks i with
  | readers holders => exact h.parts i holders hLock
  | writer t =>
    have hIn := h.writer i t hLock
    rw [hIdle] at hIn
    cases hIn

variable [DecidableEq I]

/-- A thread takes a lock that readers have. -/
theorem Mirrors.acquireRead {s : State I S A C Ret Got Reply σ}
    {s' : (I → σ) × (Nat → Running S C Ret Reply)}
    (h : O.Mirrors s s') {t : Nat} {c : C} {k : S} {next : Ret k → Program S Ret (Reply c)}
    {holders : Finset Nat}
    (hOutside : s.threads t = .outside c (.call k next)) (hShares : O.shares k = true)
    (hFree : s.locks (O.lock k) = .readers holders) :
    O.Mirrors ⟨s.parts, Function.update s.locks (O.lock k) (.readers (insert t holders)),
      Function.update s.threads t (.inside c k (O.body k) next)⟩ s' := by
  have hThere : s'.2 t = .running c (.call k next) := (hOutside ▸ h.threads t).of_outside
  refine h.silent (fun i held hHeld => ?_) (fun t' hOther i shares hHolds => ?_)
    (fun _ _ _ _ _ => rfl) ?_ (fun i t' hHeld => ?_)
  · by_cases hLock : i = O.lock k
    · exact hLock ▸ h.parts _ _ hFree
    · rw [Function.update_of_ne hLock] at hHeld
      exact h.parts i held hHeld
  · by_cases hLock : i = O.lock k
    · subst hLock
      rw [Function.update_self]
      rw [hFree] at hHolds
      cases shares with
      | true => exact Finset.mem_insert_of_mem hHolds
      | false => exact hHolds
    · rwa [Function.update_of_ne hLock]
  · rw [hThere]
    refine .inside ⟨?_, O.body_reads, ?_⟩
    · rw [Function.update_self, hShares]
      exact Finset.mem_insert_self t holders
    · rw [perform, h.parts _ _ hFree]
  · by_cases hLock : i = O.lock k
    · rw [hLock, Function.update_self] at hHeld
      cases hHeld
    · rw [Function.update_of_ne hLock] at hHeld
      exact h.writer_of_not_in (by rw [hOutside]; exact id) _ t' hHeld

/-- A thread takes a lock that nobody has. -/
theorem Mirrors.acquireWrite {s : State I S A C Ret Got Reply σ}
    {s' : (I → σ) × (Nat → Running S C Ret Reply)}
    (h : O.Mirrors s s') {t : Nat} {c : C} {k : S} {next : Ret k → Program S Ret (Reply c)}
    (hOutside : s.threads t = .outside c (.call k next)) (hShares : O.shares k = false)
    (hFree : s.locks (O.lock k) = .readers ∅) :
    O.Mirrors ⟨s.parts, Function.update s.locks (O.lock k) (.writer t),
      Function.update s.threads t (.inside c k (O.body k) next)⟩ s' := by
  have hThere : s'.2 t = .running c (.call k next) := (hOutside ▸ h.threads t).of_outside
  have hNobody : ∀ t' shares, ¬ (s.locks (O.lock k)).Holds t' shares := by
    intro t' shares hHolds
    rw [hFree] at hHolds
    cases shares with
    | true => exact Finset.notMem_empty t' hHolds
    | false => exact hHolds
  refine h.silent (fun i held hHeld => ?_) (fun t' hOther i shares hHolds => ?_)
    (fun _ _ _ _ _ => rfl) ?_ (fun i t' hHeld => ?_)
  · by_cases hLock : i = O.lock k
    · exact hLock ▸ h.parts _ _ hFree
    · rw [Function.update_of_ne hLock] at hHeld
      exact h.parts i held hHeld
  · have hLock : i ≠ O.lock k := fun hEq => hNobody t' shares (hEq ▸ hHolds)
    rwa [Function.update_of_ne hLock]
  · rw [hThere]
    refine .inside ⟨?_, O.body_reads, ?_⟩
    · rw [Function.update_self, hShares]
      rfl
    · rw [perform, h.parts _ _ hFree]
  · by_cases hLock : i = O.lock k
    · rw [hLock, Function.update_self] at hHeld
      cases hHeld
      exact ⟨fun _ => hLock.symm, fun hOther => absurd rfl hOther⟩
    · rw [Function.update_of_ne hLock] at hHeld
      exact h.writer_of_not_in (by rw [hOutside]; exact id) _ t' hHeld

/-- An access to a part is behind its lock: a thread that shares the lock changes nothing, and one
that does not is alone. -/
theorem Mirrors.access {s : State I S A C Ret Got Reply σ}
    {s' : (I → σ) × (Nat → Running S C Ret Reply)}
    (h : O.Mirrors s s') {t : Nat} {c : C} {k : S} {a : A} {q : Got a → Program A Got (Ret k)}
    {next : Ret k → Program S Ret (Reply c)}
    (hInside : s.threads t = .inside c k (.call a q) next) :
    O.Mirrors ⟨Function.update s.parts (O.lock k) (O.answer a (s.parts (O.lock k))).2, s.locks,
      Function.update s.threads t (.inside c k (q (O.answer a (s.parts (O.lock k))).1) next)⟩
        s' := by
  obtain ⟨hThere, hUnder⟩ := (hInside ▸ h.threads t).of_inside
  refine h.silent (fun i held hHeld => ?_) (fun _ _ _ _ h => h)
    (fun t' hOther i shares hHolds => ?_) ?_ (fun i t' hHeld => ⟨?_, fun _ => hHeld⟩)
  · by_cases hLock : i = O.lock k
    · subst hLock
      rw [Function.update_self]
      have hHolds := hUnder.holds
      rw [hHeld] at hHolds
      cases hShares : O.shares k with
      | true => rw [(hUnder.reads hShares).1, h.parts _ _ hHeld]
      | false =>
        rw [hShares] at hHolds
        cases hHolds
    · rw [Function.update_of_ne hLock]
      exact h.parts i held hHeld
  · by_cases hLock : i = O.lock k
    · subst hLock
      rw [Function.update_self]
      cases hShares : O.shares k with
      | true => exact (hUnder.reads hShares).1 _
      | false =>
        have hAlone := hUnder.holds
        rw [hShares] at hAlone
        exact absurd (hAlone.ne hHolds) hOther
    · rw [Function.update_of_ne hLock]
  · rw [hThere]
    refine .inside ⟨hUnder.holds, fun hShares => (hUnder.reads hShares).2 _, ?_⟩
    rw [Function.update_self, ← hUnder.run, Program.run_call]
  · rintro rfl
    have hIn := h.writer i t' hHeld
    rw [hInside] at hIn
    exact hIn

/-- A reader leaves: its section has changed nothing. -/
theorem Mirrors.releaseRead {s : State I S A C Ret Got Reply σ}
    {s' : (I → σ) × (Nat → Running S C Ret Reply)}
    (h : O.Mirrors s s') {t : Nat} {c : C} {k : S} {r : Ret k}
    {next : Ret k → Program S Ret (Reply c)}
    {holders : Finset Nat} (hInside : s.threads t = .inside c k (.done r) next)
    (hHeld : s.locks (O.lock k) = .readers holders) :
    O.SectionStep s' none (s'.1, Function.update s'.2 t (.running c (next r))) ∧
      O.Mirrors ⟨s.parts, Function.update s.locks (O.lock k) (.readers (holders.erase t)),
        Function.update s.threads t (.outside c (next r))⟩ (s'.1,
          Function.update s'.2 t (.running c (next r))) := by
  obtain ⟨hThere, hUnder⟩ := (hInside ▸ h.threads t).of_inside
  have hRun : O.perform k (s'.1 (O.lock k)) = (r, s'.1 (O.lock k)) := by
    rw [← hUnder.run, Program.run_done, h.parts _ _ hHeld]
  have hTake := SectionStep.take (O := O) (s := s'.1) hThere
  rw [hRun, Function.update_eq_self] at hTake
  refine ⟨hTake, h.update (fun i held hFree => ?_) (fun t' hOther i shares hHolds => ?_)
    (fun _ _ _ _ _ => ⟨rfl, rfl⟩) (.outside c (next r)) (fun i t' hWriter => ?_)⟩
  · by_cases hLock : i = O.lock k
    · exact hLock ▸ h.parts _ _ hHeld
    · rw [Function.update_of_ne hLock] at hFree
      exact h.parts i held hFree
  · by_cases hLock : i = O.lock k
    · subst hLock
      rw [Function.update_self]
      rw [hHeld] at hHolds
      cases shares with
      | true => exact Finset.mem_erase.mpr ⟨hOther, hHolds⟩
      | false => exact hHolds
    · rwa [Function.update_of_ne hLock]
  · by_cases hLock : i = O.lock k
    · rw [hLock, Function.update_self] at hWriter
      cases hWriter
    · rw [Function.update_of_ne hLock] at hWriter
      exact h.writer_of_not_in (by rw [hInside]; exact Ne.symm hLock) _ t' hWriter

/-- A writer leaves: what the section comes to is there for all. -/
theorem Mirrors.releaseWrite {s : State I S A C Ret Got Reply σ}
    {s' : (I → σ) × (Nat → Running S C Ret Reply)}
    (h : O.Mirrors s s') {t : Nat} {c : C} {k : S} {r : Ret k}
    {next : Ret k → Program S Ret (Reply c)}
    (hInside : s.threads t = .inside c k (.done r) next) (hHeld : s.locks (O.lock k) = .writer t) :
    O.SectionStep s' none (Function.update s'.1 (O.lock k) (s.parts (O.lock k)),
        Function.update s'.2 t (.running c (next r))) ∧
      O.Mirrors ⟨s.parts, Function.update s.locks (O.lock k) (.readers ∅),
        Function.update s.threads t (.outside c (next r))⟩
        (Function.update s'.1 (O.lock k) (s.parts (O.lock k)),
          Function.update s'.2 t (.running c (next r))) := by
  obtain ⟨hThere, hUnder⟩ := (hInside ▸ h.threads t).of_inside
  have hRun : O.perform k (s'.1 (O.lock k)) = (r, s.parts (O.lock k)) := by
    rw [← hUnder.run, Program.run_done]
  have hNobody : ∀ t', t' ≠ t → ∀ shares, ¬ (s.locks (O.lock k)).Holds t' shares := by
    intro t' hOther shares hHolds
    rw [hHeld] at hHolds
    cases shares with
    | true => exact hHolds
    | false => exact hOther hHolds.symm
  have hTake := SectionStep.take (O := O) (s := s'.1) hThere
  rw [hRun] at hTake
  refine ⟨hTake, h.update (fun i held hFree => ?_) (fun t' hOther i shares hHolds => ?_)
    (fun t' hOther i shares hHolds => ⟨rfl, ?_⟩) (.outside c (next r)) (fun i t' hWriter => ?_)⟩
  · by_cases hLock : i = O.lock k
    · rw [hLock, Function.update_self]
    · rw [Function.update_of_ne hLock] at hFree ⊢
      exact h.parts i held hFree
  · have hLock : i ≠ O.lock k := fun hEq => hNobody t' hOther shares (hEq ▸ hHolds)
    rwa [Function.update_of_ne hLock]
  · have hLock : i ≠ O.lock k := fun hEq => hNobody t' hOther shares (hEq ▸ hHolds)
    exact Function.update_of_ne hLock _ _
  · by_cases hLock : i = O.lock k
    · rw [hLock, Function.update_self] at hWriter
      cases hWriter
    · rw [Function.update_of_ne hLock] at hWriter
      exact h.writer_of_not_in (by rw [hInside]; exact Ne.symm hLock) _ t' hWriter

/-- **Sections are atomic.** A section takes effect where its lock is released. -/
theorem follows_sections (parts : I → σ) :
    System.Follows (O.object parts) (O.sections parts) O.Mirrors where
  start := ⟨fun _ _ _ => rfl, fun _ => .idle, fun _ _ hHeld => nomatch hHeld⟩
  step {s e s₂ s'} hMirrors hStep := by
    cases hStep with
    | @call t c hIdle =>
      have hThere : s'.2 t = .idle := (hIdle ▸ hMirrors.threads t).of_idle
      exact ⟨_, .single (.call hThere), hMirrors.update hMirrors.parts (fun _ _ _ _ h => h)
        (fun _ _ _ _ _ => ⟨rfl, rfl⟩) (.outside c (O.script c)) fun i =>
          hMirrors.writer_of_not_in (by rw [hIdle]; exact id) _⟩
    | acquireRead hOutside hShares hFree =>
      exact ⟨s', .refl, hMirrors.acquireRead hOutside hShares hFree⟩
    | acquireWrite hOutside hShares hFree =>
      exact ⟨s', .refl, hMirrors.acquireWrite hOutside hShares hFree⟩
    | access hInside => exact ⟨s', .refl, hMirrors.access hInside⟩
    | releaseRead hInside hHeld =>
      obtain ⟨hTake, hNext⟩ := hMirrors.releaseRead hInside hHeld
      exact ⟨_, .single hTake, hNext⟩
    | releaseWrite hInside hHeld =>
      obtain ⟨hTake, hNext⟩ := hMirrors.releaseWrite hInside hHeld
      exact ⟨_, .single hTake, hNext⟩
    | @ret t c r hOutside =>
      have hThere : s'.2 t = .running c (.done r) := (hOutside ▸ hMirrors.threads t).of_outside
      exact ⟨_, .single (.ret hThere),
        hMirrors.update hMirrors.parts (fun _ _ _ _ h => h) (fun _ _ _ _ _ => ⟨rfl, rfl⟩)
        .idle fun i => hMirrors.writer_of_not_in (by rw [hOutside]; exact id) _⟩

/-! ## Calls of one section -/

/-- Every call is one section. -/
structure Single (O : Locked I S A C Ret Got Reply σ) where
  sectionOf : C → S
  result : (c : C) → Ret (sectionOf c) → Reply c
  script_eq c : O.script c = .call (sectionOf c) fun r => .done (result c r)

namespace Single

variable (one : Single O)

/-- A call, with its section run at once. -/
def act (c : C) (s : I → σ) : Reply c × (I → σ) :=
  let performed := O.perform (one.sectionOf c) (s (O.lock (one.sectionOf c)))
  (one.result c performed.1, Function.update s (O.lock (one.sectionOf c)) performed.2)

/-- What a thread is about, when each of its calls is one section. -/
inductive Tracks : Running S C Ret Reply → Atomic.Thread C Reply → Prop where
  | idle : Tracks .idle .idle
  | called c : Tracks (.running c (.call (one.sectionOf c) fun r => .done (one.result c r)))
      (.called c)
  | done c r : Tracks (.running c (.done r)) (.done c r)

omit [DecidableEq I] in
theorem Tracks.of_idle {y : Atomic.Thread C Reply} (h : one.Tracks .idle y) : y = .idle := by
  cases h
  rfl

/-- **An object whose calls are single sections is atomic.** -/
theorem follows_object (parts : I → σ) :
    System.Follows (O.sections parts) (Atomic.object one.act parts)
    fun s s' => s.1 = s'.1 ∧ ∀ t, one.Tracks (s.2 t) (s'.2 t) where
  start := ⟨rfl, fun _ => .idle⟩
  step {s e s₂ s'} hRel hStep := by
    obtain ⟨x, ts'⟩ := s'
    obtain ⟨hParts, hThreads⟩ := hRel
    cases hStep with
    | @call s ts t c hIdle =>
      subst hParts
      have hTrack : one.Tracks (ts t) (ts' t) := hThreads t
      rw [hIdle] at hTrack
      generalize hThread : ts' t = y at hTrack
      cases hTrack with
      | idle =>
        refine ⟨_, .single (.call hThread), rfl, rel_update hThreads ?_⟩
        rw [one.script_eq]
        exact .called c
    | @take s ts t c k next hRunning =>
      subst hParts
      have hTrack : one.Tracks (ts t) (ts' t) := hThreads t
      rw [hRunning] at hTrack
      generalize hThread : ts' t = y at hTrack
      cases hTrack with
      | called => exact ⟨_, .single (.act hThread), rfl, rel_update hThreads (.done c _)⟩
    | @ret s ts t c r hRunning =>
      subst hParts
      have hTrack : one.Tracks (ts t) (ts' t) := hThreads t
      rw [hRunning] at hTrack
      generalize hThread : ts' t = y at hTrack
      cases hTrack with
      | done => exact ⟨_, .single (.ret hThread), rfl, rel_update hThreads .idle⟩

end Single

end Follows

/-! ## A thread alone -/

section Alone

variable [DecidableEq I] {O : Locked I S A C Ret Got Reply σ} {start : I → σ}

/-- A section, run on all the parts. -/
def onParts (O : Locked I S A C Ret Got Reply σ) (k : S) (parts : I → σ) : Ret k × (I → σ) :=
  ((O.perform k (parts (O.lock k))).1,
    Function.update parts (O.lock k) (O.perform k (parts (O.lock k))).2)

/-- The accesses of a section, one after the other. -/
theorem moves_accesses (locks : I → Lock) {t : Nat} {c : C} {k : S} (q : Program A Got (Ret k))
    {next : Ret k → Program S Ret (Reply c)} (parts : I → σ)
    {threads : Nat → Thread S A C Ret Got Reply} (h : threads t = .inside c k q next) :
    (O.object start).Moves ⟨parts, locks, threads⟩ []
      ⟨Function.update parts (O.lock k) (Program.run O.answer q (parts (O.lock k))).2, locks,
        Function.update threads t
          (.inside c k (.done (Program.run O.answer q (parts (O.lock k))).1) next)⟩ := by
  induction q generalizing parts threads with
  | done r =>
    rw [Program.run, Function.update_eq_self, ← h, Function.update_eq_self]
    exact .refl
  | call a q ih =>
    have hAccess := System.Moves.single (A := O.object start)
      (Step.access (s := ⟨parts, locks, threads⟩) h)
    have hRest := ih (O.answer a (parts (O.lock k))).1
      (Function.update parts (O.lock k) (O.answer a (parts (O.lock k))).2)
      (Function.update_self t _ threads)
    rw [Function.update_self, Function.update_idem, Function.update_idem] at hRest
    exact hAccess.trans hRest

/-- A section between two moments at which nobody holds a lock. -/
theorem moves_section {t : Nat} {c : C} {k : S} {next : Ret k → Program S Ret (Reply c)}
    (parts : I → σ) {threads : Nat → Thread S A C Ret Got Reply}
    (h : threads t = .outside c (.call k next)) :
    (O.object start).Moves ⟨parts, fun _ => .readers ∅, threads⟩ []
      ⟨(O.onParts k parts).2, fun _ => .readers ∅,
        Function.update threads t (.outside c (next (O.onParts k parts).1))⟩ := by
  have hFree (lock : Lock) : Function.update (Function.update (fun _ : I => Lock.readers ∅)
      (O.lock k) lock) (O.lock k) (.readers ∅) = fun _ => .readers ∅ := by
    rw [Function.update_idem]
    exact Function.update_eq_self (O.lock k) _
  cases hShares : O.shares k with
  | true =>
    have hAcquire := System.Moves.single (A := O.object start)
      (Step.acquireRead (s := ⟨parts, fun _ => .readers ∅, threads⟩) h hShares rfl)
    have hAccesses := hAcquire.trans
      (moves_accesses _ (O.body k) parts (Function.update_self t _ threads))
    have hRelease := hAccesses.tail (Step.releaseRead (Function.update_self t _ _)
      (Function.update_self (O.lock k) _ _))
    have hLeft : (insert t (∅ : Finset Nat)).erase t = ∅ :=
      Finset.erase_insert (Finset.notMem_empty t)
    rw [hLeft] at hRelease
    dsimp only at hRelease
    rwa [hFree, Function.update_idem, Function.update_idem] at hRelease
  | false =>
    have hAcquire := System.Moves.single (A := O.object start)
      (Step.acquireWrite (s := ⟨parts, fun _ => .readers ∅, threads⟩) h hShares rfl)
    have hAccesses := hAcquire.trans
      (moves_accesses _ (O.body k) parts (Function.update_self t _ threads))
    have hRelease := hAccesses.tail (Step.releaseWrite (Function.update_self t _ _)
      (Function.update_self (O.lock k) _ _))
    dsimp only at hRelease
    rwa [hFree, Function.update_idem, Function.update_idem] at hRelease

/-- **A call ends** with no more steps of another thread, where nobody holds a lock. -/
theorem moves_ret {t : Nat} {c : C} (p : Program S Ret (Reply c)) (parts : I → σ)
    {threads : Nat → Thread S A C Ret Got Reply} (h : threads t = .outside c p) :
    (O.object start).Moves ⟨parts, fun _ => .readers ∅, threads⟩
      [.ret t c (Program.run O.onParts p parts).1]
      ⟨(Program.run O.onParts p parts).2, fun _ => .readers ∅,
        Function.update threads t .idle⟩ := by
  induction p generalizing parts threads with
  | done r =>
    exact System.Moves.single (A := O.object start)
      (Step.ret (s := ⟨parts, fun _ => .readers ∅, threads⟩) h)
  | call k next ih =>
    have hRest := ih (O.onParts k parts).1 (O.onParts k parts).2 (Function.update_self t _ threads)
    rw [Function.update_idem] at hRest
    exact (moves_section parts h).trans hRest

/-- Two calls that are open at once: the first takes effect before the second. -/
theorem moves_overlapping {t t' : Nat} (hOther : t' ≠ t) (c c' : C) (parts : I → σ) :
    (O.object start).Moves ⟨parts, fun _ => .readers ∅, fun _ => .idle⟩
      [.call t c, .call t' c', .ret t c (Program.run O.onParts (O.script c) parts).1,
        .ret t' c' (Program.run O.onParts (O.script c')
          (Program.run O.onParts (O.script c) parts).2).1]
      ⟨(Program.run O.onParts (O.script c') (Program.run O.onParts (O.script c) parts).2).2,
        fun _ => .readers ∅, fun _ => .idle⟩ := by
  have hFirst := System.Moves.single (A := O.object start)
    (Step.call (s := ⟨parts, fun _ => .readers ∅, fun _ => .idle⟩) (t := t) (c := c) rfl)
  have hBoth := hFirst.tail (Step.call (t := t') (c := c') (Function.update_of_ne hOther _ _))
  have hOne := hBoth.trans (moves_ret (O.script c) parts
    ((Function.update_of_ne hOther.symm _ _).trans (Function.update_self t _ _)))
  have hTwo := hOne.trans (moves_ret (O.script c') _
    ((Function.update_of_ne hOther _ _).trans (Function.update_self t' _ _)))
  have hIdle (t : Nat) : Function.update (fun _ : Nat =>
      (Thread.idle : Thread S A C Ret Got Reply)) t .idle = fun _ => .idle :=
    Function.update_eq_self t _
  dsimp only at hTwo
  rwa [Function.update_comm hOther, Function.update_idem, Function.update_idem, hIdle,
    hIdle] at hTwo

end Alone

end Locked

end MultimodalDb
