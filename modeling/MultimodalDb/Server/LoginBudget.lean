import MultimodalDb.Server.FailureTable

/-!
# The budget of failed logins

A login takes the lock of the failure table twice: to see whether its peer is over the budget, and,
when the token was compared and was wrong, to count the failure. What other connections do in
between is not held up. The table keeps its bound in every state (`Bounded`). The budget is only
kept where a wrong token is let through while there is room for it and for the wrong tokens that are
not counted yet (`Room`).
-/

namespace MultimodalDb

namespace Logins

/-- How far a connection is with its login. -/
inductive Phase where
  | idle
  | checking (token : String)
  | failed
  | closed
  deriving DecidableEq

structure Connection (Peer : Type) where
  peer : Option Peer
  failures : Nat
  phase : Phase

/-- The server between two steps of its logins. `compared` is what it has compared and found wrong,
with the peer and the instant. -/
structure State (Peer : Type) where
  now : Nat
  peers : Peers Peer
  conns : List (Connection Peer)
  compared : List (Peer × Nat)

inductive Act (Peer : Type) where
  | tick (d : Nat)
  | accept (peer : Option Peer)
  /-- A connection's login starts, and asks whether the peer is throttled. -/
  | begin (i : Nat) (token : String)
  /-- Its token is compared. -/
  | compare (i : Nat)
  /-- Its failure is counted. The map is iterated in any order. -/
  | count (i : Nat) (order : Peers Peer)
  | hangUp (i : Nat)

variable {Peer : Type} [DecidableEq Peer]

/-- The connection after its answer: it is closed after too many failures. -/
def Connection.settle (c : Connection Peer) : Connection Peer :=
  { c with phase := if MAX_AUTH_FAILURES ≤ c.failures then .closed else .idle }

def State.setConn (s : State Peer) (i : Nat) (c : Connection Peer) : State Peer :=
  { s with conns := s.conns.set i c }

def start (now : Nat) : State Peer := ⟨now, [], [], []⟩

section Step

variable (limit : RateLimit) (options : ServeOptions)

/-- `is_throttled`, also for a connection without a peer address. -/
def throttled (s : State Peer) (peer : Option Peer) : Bool :=
  peer.any fun p => FailureTable.isThrottled limit s.now s.peers p

def begin (s : State Peer) (i : Nat) (token : String) : Option (State Peer) := do
  let c ← s.conns[i]?
  if c.phase ≠ .idle then
    none
  else if options.isConfigured = false then
    some s
  else if throttled limit s c.peer then
    some (s.setConn i (Connection.settle { c with failures := c.failures + 1 }))
  else
    some (s.setConn i { c with phase := .checking token })

def compare (s : State Peer) (i : Nat) : Option (State Peer) := do
  let c ← s.conns[i]?
  match c.phase with
  | .checking token =>
    if (options.check token).isSome then
      some (s.setConn i { c with phase := .idle })
    else
      some { s.setConn i { c with failures := c.failures + 1, phase := .failed } with
        compared := (c.peer.map fun p => (p, s.now)).toList ++ s.compared }
  | _ => none

def count (s : State Peer) (i : Nat) (order : Peers Peer) : Option (State Peer) := do
  let c ← s.conns[i]?
  if c.phase = .failed ∧ order.Perm s.peers then
    let peers := match c.peer with
      | some p => (FailureTable.noteFailure limit s.now order p).1
      | none => s.peers
    some { s.setConn i c.settle with peers := peers }
  else
    none

def hangUp (s : State Peer) (i : Nat) : Option (State Peer) := do
  let c ← s.conns[i]?
  if c.phase = .idle then
    some (s.setConn i { c with phase := .closed })
  else
    none

def step (s : State Peer) : Act Peer → Option (State Peer)
  | .tick d => some { s with now := s.now + d }
  | .accept peer => some { s with conns := s.conns ++ [⟨peer, 0, .idle⟩] }
  | .begin i token => begin limit options s i token
  | .compare i => compare options s i
  | .count i order => count limit s i order
  | .hangUp i => hangUp s i

/-- The states that runs reach whose steps meet a condition. -/
inductive Reach (P : State Peer → Act Peer → Prop) : State Peer → Prop where
  | start (now : Nat) : Reach P (start now)
  | step {s s' : State Peer} {act : Act Peer} :
    Reach P s → P s act → step limit options s act = some s' → Reach P s'

end Step

/-! ## What a step does to the table -/

variable {limit : RateLimit} {options : ServeOptions} {s s' : State Peer}

theorem begin_cases {i : Nat} {token : String} (h : begin limit options s i token = some s') :
    s' = s ∨ ∃ c, s.conns[i]? = some c ∧ c.phase = .idle ∧
      (s' = s.setConn i (Connection.settle { c with failures := c.failures + 1 }) ∨
        throttled limit s c.peer = false ∧
          s' = s.setConn i { c with phase := .checking token }) := by
  unfold begin at h
  obtain ⟨c, hConn, h⟩ := Option.bind_eq_some_iff.mp h
  split at h
  · cases h
  · next hIdle =>
    split at h
    · exact .inl (Option.some.inj h).symm
    · split at h
      · exact .inr ⟨c, hConn, by simpa using hIdle, .inl (Option.some.inj h).symm⟩
      · next hOpen =>
        exact .inr ⟨c, hConn, by simpa using hIdle,
          .inr ⟨by simpa using hOpen, (Option.some.inj h).symm⟩⟩

omit [DecidableEq Peer] in
theorem compare_cases {i : Nat} (h : compare options s i = some s') :
    ∃ c token, s.conns[i]? = some c ∧ c.phase = .checking token ∧
      ((options.check token).isSome ∧ s' = s.setConn i { c with phase := .idle } ∨
        options.check token = none ∧
          s' = { s.setConn i { c with failures := c.failures + 1, phase := .failed } with
            compared := (c.peer.map fun p => (p, s.now)).toList ++ s.compared }) := by
  unfold compare at h
  obtain ⟨c, hConn, h⟩ := Option.bind_eq_some_iff.mp h
  split at h
  · next token hPhase =>
    refine ⟨c, token, hConn, hPhase, ?_⟩
    split at h
    · next hRight => exact .inl ⟨hRight, (Option.some.inj h).symm⟩
    · next hWrong => exact .inr ⟨by simpa using hWrong, (Option.some.inj h).symm⟩
  · cases h

theorem count_cases {i : Nat} {order : Peers Peer} (h : count limit s i order = some s') :
    ∃ c, s.conns[i]? = some c ∧ c.phase = .failed ∧ order.Perm s.peers ∧
      s' = { s.setConn i c.settle with
        peers := match c.peer with
          | some p => (FailureTable.noteFailure limit s.now order p).1
          | none => s.peers } := by
  unfold count at h
  obtain ⟨c, hConn, h⟩ := Option.bind_eq_some_iff.mp h
  split at h
  · next hPhase => exact ⟨c, hConn, hPhase.1, hPhase.2, (Option.some.inj h).symm⟩
  · cases h

omit [DecidableEq Peer] in
theorem hangUp_cases {i : Nat} (h : hangUp s i = some s') :
    ∃ c, s.conns[i]? = some c ∧ c.phase = .idle ∧ s' = s.setConn i { c with phase := .closed } := by
  unfold hangUp at h
  obtain ⟨c, hConn, h⟩ := Option.bind_eq_some_iff.mp h
  split at h
  · next hPhase => exact ⟨c, hConn, hPhase, (Option.some.inj h).symm⟩
  · cases h

/-! ## The ledger of one peer -/

section Ledger

open FailureTable

variable (limit : RateLimit) (now : Nat) (peers : Peers Peer)
  (compared : List (Peer × Nat)) (p : Peer)

/-- The window of a peer, unless it is expired. -/
def live : Option Window := (windowOf peers p).filter fun w => !expired limit now w

/-- The failures that still count against a peer. -/
def counted : Nat := ((live limit now peers p).map (·.failures)).getD 0

/-- The wrong tokens of a peer that were compared while a window lasted. -/
def comparedIn (w : Window) : Nat :=
  compared.countP fun e => e.1 = p && w.started ≤ e.2 && e.2 < w.started + limit.window

def comparedSince (instant : Nat) : Nat := compared.countP fun e => e.1 = p && instant ≤ e.2

/-- What holds of a peer that keeps to its budget: `pending` wrong tokens of it were let through and
are not counted yet, and `failed` of them have been compared. -/
structure Budgeted (pending failed : Nat) : Prop where
  table : Bounded peers
  past : ∀ e ∈ compared, e.2 ≤ now
  started : ∀ w, windowOf peers p = some w → w.started ≤ now
  fewer : failed ≤ pending
  room : counted limit now peers p + pending ≤ limit.failures
  failures : ∀ w, windowOf peers p = some w → w.failures ≤ limit.failures
  budget : ∀ w, windowOf peers p = some w → comparedIn limit compared p w ≤ limit.failures
  live : ∀ w, live limit now peers p = some w → comparedIn limit compared p w ≤ w.failures + failed
  fresh : 0 < limit.window → Logins.live limit now peers p = none →
    comparedSince compared p now ≤ failed

variable {limit now peers compared p} {pending failed : Nat}

theorem live_eq_some {w : Window} :
    live limit now peers p = some w ↔ windowOf peers p = some w ∧ expired limit now w = false := by
  simp [live, Option.filter_eq_some_iff]

/-- A window without an expiry is counted. -/
theorem counted_of_live {w : Window} (h : live limit now peers p = some w) :
    counted limit now peers p = w.failures := by
  rw [counted, h]
  rfl

theorem counted_of_none (h : live limit now peers p = none) : counted limit now peers p = 0 := by
  rw [counted, h]
  rfl

namespace Budgeted

theorem tick (h : Budgeted limit now peers compared p pending failed) (d : Nat) :
    Budgeted limit (now + d) peers compared p pending failed := by
  -- A window that has not expired yet had not expired before.
  have hEarlier (w : Window) (hLive : Logins.live limit (now + d) peers p = some w) :
      Logins.live limit now peers p = some w := by
    rw [live_eq_some] at hLive ⊢
    refine ⟨hLive.1, ?_⟩
    have hLate := hLive.2
    simp only [expired, decide_eq_false_iff_not] at hLate ⊢
    omega
  refine ⟨h.table, fun e hMem => ?_, fun w hFind => ?_, h.fewer, ?_, h.failures, h.budget, ?_, ?_⟩
  · exact Nat.le_add_right_of_le (h.past e hMem)
  · exact Nat.le_add_right_of_le (h.started w hFind)
  · have hRoom := h.room
    cases hLive : Logins.live limit (now + d) peers p with
    | none =>
      rw [counted_of_none hLive]
      omega
    | some w =>
      rw [counted_of_live hLive]
      rwa [counted_of_live (hEarlier w hLive)] at hRoom
  · exact fun w hLive => h.live w (hEarlier w hLive)
  · intro hWindow hNone
    rcases Nat.eq_zero_or_pos d with rfl | hLater
    · exact h.fresh hWindow hNone
    · -- Nothing has been compared since.
      have hZero : comparedSince compared p (now + d) = 0 := by
        refine List.countP_eq_zero.mpr fun e hMem => ?_
        have := h.past e hMem
        simp only [Bool.and_eq_true, decide_eq_true_eq, not_and]
        omega
      omega

theorem admits (h : Budgeted limit now peers compared p pending failed)
    (hRoom : counted limit now peers p + pending < limit.failures) :
    Budgeted limit now peers compared p (pending + 1) failed :=
  { h with
    fewer := Nat.le_succ_of_le h.fewer
    room := hRoom }

/-- A wrong token of the peer is compared. -/
theorem compare (h : Budgeted limit now peers compared p pending failed)
    (hFewer : failed < pending) :
    Budgeted limit now peers ((p, now) :: compared) p pending (failed + 1) := by
  have hLive (w : Window) (hIn : Logins.live limit now peers p = some w) :
      comparedIn limit ((p, now) :: compared) p w ≤ w.failures + (failed + 1) := by
    have := h.live w hIn
    have : comparedIn limit ((p, now) :: compared) p w ≤ comparedIn limit compared p w + 1 := by
      unfold comparedIn
      rw [List.countP_cons]
      split <;> omega
    omega
  refine ⟨h.table, ?_, h.started, hFewer, h.room, h.failures, fun w hFind => ?_, hLive,
    fun hWindow hNone => ?_⟩
  · exact List.forall_mem_cons.mpr ⟨Nat.le_refl now, h.past⟩
  · cases hExpired : expired limit now w with
    | false =>
      have hIn := live_eq_some.mpr ⟨hFind, hExpired⟩
      have := hLive w hIn
      have := h.room
      rw [counted_of_live hIn] at this
      omega
    | true =>
      -- The window is over.
      have hOver : comparedIn limit ((p, now) :: compared) p w = comparedIn limit compared p w := by
        have hStarted := h.started w hFind
        simp only [expired, decide_eq_true_eq] at hExpired
        unfold comparedIn
        rw [List.countP_cons_of_neg]
        simp only [decide_true, Bool.true_and, Bool.and_eq_true, decide_eq_true_eq, not_and]
        omega
      rw [hOver]
      exact h.budget w hFind
  · have := h.fresh hWindow hNone
    unfold comparedSince at this ⊢
    rw [List.countP_cons]
    split <;> omega

/-- A wrong token of another peer is compared. -/
theorem compare_other (h : Budgeted limit now peers compared p pending failed) {q : Peer}
    (hOther : q ≠ p) :
    Budgeted limit now peers ((q, now) :: compared) p pending failed := by
  have hIn (w : Window) : comparedIn limit ((q, now) :: compared) p w =
      comparedIn limit compared p w := by
    unfold comparedIn
    rw [List.countP_cons_of_neg]
    simp [hOther]
  have hSince : comparedSince ((q, now) :: compared) p now = comparedSince compared p now := by
    unfold comparedSince
    rw [List.countP_cons_of_neg]
    simp [hOther]
  refine ⟨h.table, ?_, h.started, h.fewer, h.room, h.failures, fun w => ?_, fun w => ?_, ?_⟩
  · exact List.forall_mem_cons.mpr ⟨Nat.le_refl now, h.past⟩
  · rw [hIn]
    exact h.budget w
  · rw [hIn]
    exact h.live w
  · rw [hSince]
    exact h.fresh

/-- The map is iterated in another order. -/
theorem reorder (h : Budgeted limit now peers compared p pending failed) {order : Peers Peer}
    (hPerm : order.Perm peers) : Budgeted limit now order compared p pending failed := by
  have hSame := windowOf_perm h.table.keys hPerm p
  have hLive : Logins.live limit now order p = Logins.live limit now peers p := by
    rw [Logins.live, hSame]; rfl
  have hCounted : counted limit now order p = counted limit now peers p := by
    rw [counted, hLive]; rfl
  refine ⟨h.table.perm hPerm, h.past, ?_, h.fewer, hCounted ▸ h.room, ?_, ?_, ?_, ?_⟩
  · rw [hSame]
    exact h.started
  · rw [hSame]
    exact h.failures
  · rw [hSame]
    exact h.budget
  · rw [hLive]
    exact h.live
  · rw [hLive]
    exact h.fresh

/-- A failure of the peer is counted: in its window, or as the first of a new one. -/
theorem count (h : Budgeted limit now peers compared p (pending + 1) (failed + 1)) :
    Budgeted limit now (noteFailure limit now peers p).1 compared p pending failed := by
  have hFind := windowOf_noteFailure limit now h.table p
  have hRoom := h.room
  cases hLive : Logins.live limit now peers p with
  | some w =>
    obtain ⟨hWindow, hExpired⟩ := live_eq_some.mp hLive
    have hNext : windowOf (noteFailure limit now peers p).1 p =
        some { w with failures := w.failures + 1 } := by
      rw [hFind, hWindow]
      exact congrArg some (bump_of_live hExpired)
    have hNextLive : Logins.live limit now (noteFailure limit now peers p).1 p =
        some { w with failures := w.failures + 1 } := live_eq_some.mpr ⟨hNext, hExpired⟩
    have hStarted := h.started w hWindow
    have hBudget := h.budget w hWindow
    have hIn := h.live w hLive
    have hFewer := h.fewer
    rw [counted_of_live hLive] at hRoom
    refine ⟨h.table.noteFailure p, h.past, ?_, by omega, ?_, ?_, ?_, ?_, ?_⟩
    · rintro _ hSome
      cases hNext.symm.trans hSome
      exact hStarted
    · rw [counted_of_live hNextLive]
      dsimp only
      omega
    · rintro _ hSome
      cases hNext.symm.trans hSome
      dsimp only
      omega
    · rintro _ hSome
      cases hNext.symm.trans hSome
      exact hBudget
    · rintro _ hSome
      cases hNextLive.symm.trans hSome
      change comparedIn limit compared p w ≤ w.failures + 1 + failed
      omega
    · intro _ hNone
      cases hNextLive.symm.trans hNone
  | none =>
    have hNext : windowOf (noteFailure limit now peers p).1 p = some ⟨now, 1⟩ := by
      rw [hFind]
      cases hWindow : windowOf peers p with
      | none => rfl
      | some w =>
        have hExpired : expired limit now w = true := by
          by_contra hNot
          have := live_eq_some.mpr ⟨hWindow, by simpa using hNot⟩
          cases hLive.symm.trans this
        exact congrArg some (bump_of_expired hExpired)
    have hFewer := h.fewer
    -- What was compared in the new window was compared at this instant.
    have hIn : comparedIn limit compared p ⟨now, 1⟩ ≤ failed + 1 := by
      rcases Nat.eq_zero_or_pos limit.window with hZero | hWindow
      · have hNothing : comparedIn limit compared p ⟨now, 1⟩ = 0 := by
          refine List.countP_eq_zero.mpr fun e _ => ?_
          simp only [Bool.and_eq_true, decide_eq_true_eq, not_and, hZero]
          omega
        omega
      · refine Nat.le_trans (List.countP_mono_left fun e _ => ?_) (h.fresh hWindow hLive)
        simp only [Bool.and_eq_true, decide_eq_true_eq]
        exact fun hAll => hAll.1
    rw [counted_of_none hLive] at hRoom
    refine ⟨h.table.noteFailure p, h.past, ?_, by omega, ?_, ?_, ?_, ?_, ?_⟩
    · rintro _ hSome
      cases hNext.symm.trans hSome
      exact Nat.le_refl now
    · cases hNextLive : Logins.live limit now (noteFailure limit now peers p).1 p with
      | none =>
        rw [counted_of_none hNextLive]
        omega
      | some w =>
        cases hNext.symm.trans (live_eq_some.mp hNextLive).1
        rw [counted_of_live hNextLive]
        dsimp only
        omega
    · rintro _ hSome
      cases hNext.symm.trans hSome
      dsimp only
      omega
    · rintro _ hSome
      cases hNext.symm.trans hSome
      omega
    · intro w hSome
      cases hNext.symm.trans (live_eq_some.mp hSome).1
      dsimp only
      omega
    · intro hWindow hNone
      -- A new window is not expired at once.
      have : Logins.live limit now (noteFailure limit now peers p).1 p = some ⟨now, 1⟩ :=
        live_eq_some.mpr ⟨hNext, by simp [expired, Nat.pos_iff_ne_zero.mp hWindow]⟩
      cases hNone.symm.trans this

/-- A failure of another peer is counted, and the peer's window is not dropped before it expires. -/
theorem count_other (h : Budgeted limit now peers compared p pending failed) {q : Peer}
    (hOther : p ≠ q) (hKept : ∀ w, Logins.live limit now peers p = some w →
      (windowOf (noteFailure limit now peers q).1 p).isSome) :
    Budgeted limit now (noteFailure limit now peers q).1 compared p pending failed := by
  have hBefore {w : Window} (hSome : windowOf (noteFailure limit now peers q).1 p = some w) :
      windowOf peers p = some w := windowOf_noteFailure_other h.table hOther hSome
  have hLive : Logins.live limit now (noteFailure limit now peers q).1 p =
      Logins.live limit now peers p := by
    refine Option.ext fun w => ?_
    constructor
    · intro hSome
      obtain ⟨hFind, hExpired⟩ := live_eq_some.mp hSome
      exact live_eq_some.mpr ⟨hBefore hFind, hExpired⟩
    · intro hSome
      obtain ⟨v, hFind⟩ := Option.isSome_iff_exists.mp (hKept w hSome)
      obtain ⟨hWindow, hExpired⟩ := live_eq_some.mp hSome
      cases hWindow.symm.trans (hBefore hFind)
      exact live_eq_some.mpr ⟨hFind, hExpired⟩
  have hCounted : counted limit now (noteFailure limit now peers q).1 p =
      counted limit now peers p := by
    rw [counted, hLive]
    rfl
  refine ⟨h.table.noteFailure q, h.past, fun w hSome => h.started w (hBefore hSome), h.fewer,
    hCounted ▸ h.room, fun w hSome => h.failures w (hBefore hSome), fun w hSome =>
      h.budget w (hBefore hSome),
    ?_, ?_⟩
  · rw [hLive]
    exact h.live
  · rw [hLive]
    exact h.fresh

end Budgeted

end Ledger

/-! ## Runs -/

section Runs

open FailureTable

variable (limit : RateLimit) (options : ServeOptions) (p : Peer)

/-- A wrong token of the peer was let through and its failure is not counted yet. -/
def isPending (c : Connection Peer) : Bool :=
  c.peer = some p && match c.phase with
    | .checking token => (options.check token).isNone
    | .failed => true
    | _ => false

def hasFailed (c : Connection Peer) : Bool := c.peer = some p && c.phase = .failed

def pending (s : State Peer) : Nat := s.conns.countP (isPending options p)

/-- There is room for a wrong token that is let through, and a window is not dropped before it
expires. -/
def Room (s : State Peer) : Act Peer → Prop
  | .begin i token => ∀ c, s.conns[i]? = some c → c.peer = some p → options.check token = none →
      throttled limit s c.peer = false →
      counted limit s.now s.peers p + pending options p s < limit.failures
  | .count i order => ∀ c q w, s.conns[i]? = some c → c.peer = some q →
      live limit s.now s.peers p = some w → (windowOf (noteFailure limit s.now order q).1 p).isSome
  | _ => True

/-- The ledger of the peer in a state. -/
def KeepsBudget (s : State Peer) : Prop :=
  Budgeted limit s.now s.peers s.compared p (pending options p s) (s.conns.countP (hasFailed p))

variable {limit options p} {s s' : State Peer}

omit [DecidableEq Peer] in
theorem countP_setConn (f : Connection Peer → Bool) {i : Nat} {c : Connection Peer}
    (h : s.conns[i]? = some c) (c' : Connection Peer) :
    (s.setConn i c').conns.countP f + (if f c then 1 else 0) =
      s.conns.countP f + (if f c' then 1 else 0) := by
  obtain ⟨hi, rfl⟩ := List.getElem?_eq_some_iff.mp h
  have hLe := List.boole_getElem_le_countP (p := f) hi
  change (s.conns.set i c').countP f + _ = _
  rw [List.countP_set hi]
  omega

/-- A connection whose standing does not change. -/
theorem keepsBudget_setConn (h : KeepsBudget limit options p s) {i : Nat} {c c' : Connection Peer}
    (hConn : s.conns[i]? = some c) (hPending : isPending options p c' = isPending options p c)
    (hFailed : hasFailed p c' = hasFailed p c) : KeepsBudget limit options p (s.setConn i c') := by
  have hFirst := countP_setConn (isPending options p) hConn c'
  have hNext := countP_setConn (hasFailed p) hConn c'
  rw [hPending] at hFirst
  rw [hFailed] at hNext
  unfold KeepsBudget pending
  rw [Nat.add_right_cancel hFirst, Nat.add_right_cancel hNext]
  exact h

variable (options p) in
theorem settle_standing (c : Connection Peer) :
    isPending options p c.settle = false ∧ hasFailed p c.settle = false := by
  unfold Connection.settle isPending hasFailed
  split <;> simp

variable (options p) in
theorem idle_standing {c : Connection Peer} (h : c.phase = .idle ∨ c.phase = .closed) :
    isPending options p c = false ∧ hasFailed p c = false := by
  unfold isPending hasFailed
  rcases h with h | h <;> simp [h]

theorem failed_lt_pending {i : Nat} {c : Connection Peer} (hConn : s.conns[i]? = some c)
    (hPending : isPending options p c = true) (hFailed : hasFailed p c = false) :
    s.conns.countP (hasFailed p) < pending options p s := by
  -- Without the connection no more have failed than are pending.
  obtain ⟨hPending', hFailed'⟩ := idle_standing options p (c := { c with phase := .closed })
    (.inr rfl)
  have hFirst := countP_setConn (isPending options p) hConn { c with phase := .closed }
  have hNext := countP_setConn (hasFailed p) hConn { c with phase := .closed }
  have hLe : (s.setConn i { c with phase := .closed }).conns.countP (hasFailed p) ≤
      (s.setConn i { c with phase := .closed }).conns.countP (isPending options p) := by
    refine List.countP_mono_left fun c _ hIs => ?_
    simp only [hasFailed, Bool.and_eq_true, decide_eq_true_eq] at hIs
    simp [isPending, hIs]
  simp only [hPending, hPending', hFailed, hFailed', if_true, Bool.false_eq_true, if_false,
    Nat.add_zero] at hFirst hNext
  unfold pending
  omega

theorem keepsBudget_begin (h : KeepsBudget limit options p s) {i : Nat} {token : String}
    (hRoom : Room limit options p s (.begin i token))
    (hStep : begin limit options s i token = some s') :
    KeepsBudget limit options p s' := by
  rcases begin_cases hStep with rfl | ⟨c, hConn, hIdle, rfl | ⟨hOpen, rfl⟩⟩
  · exact h
  · obtain ⟨hPending, hFailed⟩ := idle_standing options p (.inl hIdle)
    obtain ⟨hPending', hFailed'⟩ := settle_standing options p
      { c with failures := c.failures + 1 }
    exact keepsBudget_setConn h hConn (hPending'.trans hPending.symm) (hFailed'.trans hFailed.symm)
  · obtain ⟨hPending, hFailed⟩ := idle_standing options p (.inl hIdle)
    have hFailed' : hasFailed p { c with phase := .checking token } = false := by simp [hasFailed]
    by_cases hWrong : c.peer = some p ∧ options.check token = none
    · -- One wrong token more.
      have hPending' : isPending options p { c with phase := .checking token } = true := by
        simp [isPending, hWrong]
      have hFirst := countP_setConn (isPending options p) hConn { c with phase := .checking token }
      have hNext := countP_setConn (hasFailed p) hConn { c with phase := .checking token }
      simp only [hPending, hPending', hFailed, hFailed', if_true, Bool.false_eq_true, if_false,
        Nat.add_zero] at hFirst hNext
      unfold KeepsBudget pending
      rw [hFirst, hNext]
      exact Budgeted.admits h (hRoom c hConn hWrong.1 hWrong.2 hOpen)
    · refine keepsBudget_setConn h hConn (Eq.trans ?_ hPending.symm) (hFailed'.trans hFailed.symm)
      simp only [isPending, Bool.and_eq_false_imp, decide_eq_true_eq]
      intro hPeer
      rw [Option.isNone_eq_false_iff, Option.isSome_iff_ne_none]
      exact fun hNone => hWrong ⟨hPeer, hNone⟩

theorem keepsBudget_compare (h : KeepsBudget limit options p s) {i : Nat}
    (hStep : compare options s i = some s') :
    KeepsBudget limit options p s' := by
  obtain ⟨c, token, hConn, hPhase, ⟨hRight, rfl⟩ | ⟨hWrong, rfl⟩⟩ := compare_cases hStep
  · refine keepsBudget_setConn h hConn ?_ ?_
    · simp [isPending, hPhase, hRight]
    · simp [hasFailed, hPhase]
  · have hFirst := countP_setConn (isPending options p) hConn
      { c with failures := c.failures + 1, phase := .failed }
    have hNext := countP_setConn (hasFailed p) hConn
      { c with failures := c.failures + 1, phase := .failed }
    have hSame : isPending options p { c with failures := c.failures + 1, phase := .failed } =
        isPending options p c := by
      simp [isPending, hPhase, hWrong]
    rw [hSame] at hFirst
    unfold KeepsBudget pending
    change Budgeted limit s.now s.peers ((c.peer.map fun p => (p, s.now)).toList ++ s.compared) p
      ((s.setConn i { c with failures := c.failures + 1, phase := .failed }).conns.countP
        (isPending options p))
      ((s.setConn i { c with failures := c.failures + 1, phase := .failed }).conns.countP
        (hasFailed p))
    rw [Nat.add_right_cancel hFirst]
    have hBefore : hasFailed p c = false := by simp [hasFailed, hPhase]
    by_cases hPeer : c.peer = some p
    · have hAfter : hasFailed p { c with failures := c.failures + 1, phase := .failed } = true := by
        simp [hasFailed, hPeer]
      simp only [hBefore, hAfter, Bool.false_eq_true, if_false, if_true, Nat.add_zero] at hNext
      rw [hNext, hPeer]
      refine Budgeted.compare h (failed_lt_pending hConn ?_ hBefore)
      simp [isPending, hPeer, hPhase, hWrong]
    · have hAfter : hasFailed p { c with failures := c.failures + 1, phase := .failed } =
          false := by
        simp [hasFailed, hPeer]
      simp only [hBefore, hAfter, Bool.false_eq_true, if_false, Nat.add_zero] at hNext
      rw [hNext]
      cases hQ : c.peer with
      | none => exact h
      | some q =>
        rw [hQ] at hPeer
        exact Budgeted.compare_other h fun hEq => hPeer (congrArg some hEq)

theorem keepsBudget_count (h : KeepsBudget limit options p s) {i : Nat} {order : Peers Peer}
    (hRoom : Room limit options p s (.count i order)) (hStep : count limit s i order = some s') :
    KeepsBudget limit options p s' := by
  obtain ⟨c, hConn, hPhase, hPerm, rfl⟩ := count_cases hStep
  obtain ⟨hPending', hFailed'⟩ := settle_standing options p c
  by_cases hPeer : c.peer = some p
  · have hPending : isPending options p c = true := by simp [isPending, hPeer, hPhase]
    have hFailed : hasFailed p c = true := by simp [hasFailed, hPeer, hPhase]
    have hFirst := countP_setConn (isPending options p) hConn c.settle
    have hNext := countP_setConn (hasFailed p) hConn c.settle
    simp only [hPending, hPending', hFailed, hFailed', if_true, Bool.false_eq_true, if_false,
      Nat.add_zero] at hFirst hNext
    unfold KeepsBudget pending
    simp only [hPeer]
    refine Budgeted.count (Budgeted.reorder ?_ hPerm)
    rw [hFirst, hNext]
    exact h
  · have hSame := keepsBudget_setConn h hConn
      (hPending'.trans (by simp [isPending, hPeer] : isPending options p c = false).symm)
      (hFailed'.trans (by simp [hasFailed, hPeer] : hasFailed p c = false).symm)
    cases hQ : c.peer with
    | none => exact hSame
    | some q =>
      have hOther : p ≠ q := by
        rintro rfl
        exact hPeer hQ
      refine Budgeted.count_other (Budgeted.reorder hSame hPerm) hOther fun w hLive => ?_
      refine hRoom c q w hConn hQ ?_
      rwa [live, windowOf_perm h.table.keys hPerm] at hLive

theorem keepsBudget_step (h : KeepsBudget limit options p s) {act : Act Peer}
    (hRoom : Room limit options p s act) (hStep : step limit options s act = some s') :
    KeepsBudget limit options p s' := by
  cases act with
  | tick d =>
    cases hStep
    exact Budgeted.tick h d
  | accept peer =>
    cases hStep
    obtain ⟨hPending, hFailed⟩ := idle_standing options p
      (c := (⟨peer, 0, .idle⟩ : Connection Peer)) (.inl rfl)
    unfold KeepsBudget pending
    simp only [List.countP_append, List.countP_singleton, hPending, hFailed,
      Bool.false_eq_true, if_false, Nat.add_zero]
    exact h
  | begin i token => exact keepsBudget_begin h hRoom hStep
  | compare i => exact keepsBudget_compare h hStep
  | count i order => exact keepsBudget_count h hRoom hStep
  | hangUp i =>
    obtain ⟨c, hConn, hIdle, rfl⟩ := hangUp_cases hStep
    obtain ⟨hPending, hFailed⟩ := idle_standing options p (.inl hIdle)
    obtain ⟨hPending', hFailed'⟩ := idle_standing options p
      (c := { c with phase := .closed }) (.inr rfl)
    exact keepsBudget_setConn h hConn (hPending'.trans hPending.symm) (hFailed'.trans hFailed.symm)

theorem keepsBudget_start (now : Nat) : KeepsBudget limit options p (start now) where
  table := ⟨List.nodup_nil, Nat.zero_le _⟩
  past := nofun
  started := nofun
  fewer := Nat.le_refl 0
  room := Nat.zero_le _
  failures := nofun
  budget := nofun
  live := nofun
  fresh _ _ := Nat.le_refl 0

theorem Reach.keepsBudget (h : Reach limit options (Room limit options p) s) :
    KeepsBudget limit options p s := by
  induction h with
  | start now => exact keepsBudget_start now
  | step _ hRoom hStep ih => exact keepsBudget_step ih hRoom hStep

/-! ## Every run -/

theorem bounded_step (h : Bounded s.peers) {act : Act Peer}
    (hStep : step limit options s act = some s') :
    Bounded s'.peers := by
  cases act with
  | tick d =>
    cases hStep
    exact h
  | accept peer =>
    cases hStep
    exact h
  | begin i token =>
    rcases begin_cases hStep with rfl | ⟨c, -, -, rfl | ⟨-, rfl⟩⟩ <;> exact h
  | compare i =>
    obtain ⟨c, token, -, -, ⟨-, rfl⟩ | ⟨-, rfl⟩⟩ := compare_cases hStep <;> exact h
  | count i order =>
    obtain ⟨c, -, -, hPerm, rfl⟩ := count_cases hStep
    dsimp only
    split
    · exact (h.perm hPerm).noteFailure _
    · exact h
  | hangUp i =>
    obtain ⟨c, -, -, rfl⟩ := hangUp_cases hStep
    exact h

theorem Reach.bounded {P : State Peer → Act Peer → Prop} (h : Reach limit options P s) :
    Bounded s.peers := by
  induction h with
  | start now => exact ⟨List.nodup_nil, Nat.zero_le _⟩
  | step _ _ hStep ih => exact bounded_step ih hStep

/-- An unexpired window that a step drops is dropped where no window is expired. -/
def Spares (limit : RateLimit) (s s' : State Peer) : Prop :=
  ∀ p, (live limit s.now s.peers p).isSome → windowOf s'.peers p = none →
    ∀ q w, windowOf s.peers q = some w → expired limit s.now w = false

theorem spares_of_same (h : s'.peers = s.peers) : Spares limit s s' := by
  intro p hLive hGone
  obtain ⟨w, hLive⟩ := Option.isSome_iff_exists.mp hLive
  rw [h, (live_eq_some.mp hLive).1] at hGone
  cases hGone

theorem spares_step (h : Bounded s.peers) {act : Act Peer}
    (hStep : step limit options s act = some s') :
    Spares limit s s' := by
  cases act with
  | tick d =>
    cases hStep
    exact spares_of_same rfl
  | accept peer =>
    cases hStep
    exact spares_of_same rfl
  | begin i token =>
    rcases begin_cases hStep with rfl | ⟨c, -, -, rfl | ⟨-, rfl⟩⟩ <;> exact spares_of_same rfl
  | compare i =>
    obtain ⟨c, token, -, -, ⟨-, rfl⟩ | ⟨-, rfl⟩⟩ := compare_cases hStep <;> exact spares_of_same rfl
  | count i order =>
    obtain ⟨c, -, -, hPerm, rfl⟩ := count_cases hStep
    cases hPeer : c.peer with
    | none => exact spares_of_same rfl
    | some q =>
      intro p hLive hGone other v hFind
      obtain ⟨w, hLive⟩ := Option.isSome_iff_exists.mp hLive
      obtain ⟨hWindow, hExpired⟩ := live_eq_some.mp hLive
      rw [← windowOf_perm h.keys hPerm] at hWindow hFind
      have hOrder := h.perm hPerm
      have hMem := (windowOf_eq_some hOrder.keys).mp hFind
      exact noteFailure_spares hOrder hWindow hExpired hGone (other, v) hMem
  | hangUp i =>
    obtain ⟨c, -, -, rfl⟩ := hangUp_cases hStep
    exact spares_of_same rfl

variable (limit options)

/-- **The budget of failed logins.** In every run the table keeps its bound and drops an unexpired
window only where none is expired. Where every wrong token of a peer is let through with room for it
and for the wrong tokens that are not counted yet, and the peer's window is not dropped before it
expires, no more than `failures` of its wrong tokens are compared in a window, or counted in it. -/
theorem login_budget :
    (∀ s : State Peer, Reach limit options (fun _ _ => True) s →
      s.peers.length ≤ MAX_TRACKED_PEERS ∧
      ∀ act s', step limit options s act = some s' → Spares limit s s') ∧
    ∀ (p : Peer) s, Reach limit options (Room limit options p) s →
      ∀ w, windowOf s.peers p = some w →
      comparedIn limit s.compared p w ≤ limit.failures ∧ w.failures ≤ limit.failures := by
  refine ⟨fun s hReach => ?_, fun p s hReach w hFind => ?_⟩
  · exact ⟨hReach.bounded.length, fun act s' hStep => spares_step hReach.bounded hStep⟩
  · exact ⟨hReach.keepsBudget.budget w hFind, hReach.keepsBudget.failures w hFind⟩

end Runs

/-! ## A run of two -/

/-- A server with one token, whose peers have a budget of one failure a minute. -/
def strictOptions : ServeOptions := ⟨none, some "secret", []⟩

def strictLimit : RateLimit := ⟨1, 60⟩

/-- Two connections of one peer log in at once. -/
def twoAtOnce : List (Act Nat) :=
  [.accept (some 7), .accept (some 7), .begin 0 "guess", .begin 1 "other", .compare 0, .compare 1,
    .count 0 [], .count 1 [(7, ⟨0, 1⟩)]]

def afterTwo : State Nat :=
  ⟨0, [(7, ⟨0, 2⟩)], [⟨some 7, 1, .idle⟩, ⟨some 7, 1, .idle⟩], [(7, 0), (7, 0)]⟩

theorem reach_of_foldlM {limit : RateLimit} {options : ServeOptions} {acts : List (Act Peer)}
    {s s' : State Peer}
    (hReach : Reach limit options (fun _ _ => True) s)
    (hRun : acts.foldlM (step limit options) s = some s') :
    Reach limit options (fun _ _ => True) s' := by
  induction acts generalizing s with
  | nil =>
    cases hRun
    exact hReach
  | cons act acts ih =>
    rw [List.foldlM_cons] at hRun
    obtain ⟨next, hStep, hRest⟩ := Option.bind_eq_some_iff.mp hRun
    exact ih (.step hReach trivial hStep) hRest

/-- Both are let through before either failure is counted, and with a budget of one two wrong tokens
are compared in one window. -/
theorem budget_overrun :
    Reach strictLimit strictOptions (fun _ _ => True) afterTwo ∧
      FailureTable.windowOf afterTwo.peers 7 = some ⟨0, 2⟩ ∧
      strictLimit.failures < comparedIn strictLimit afterTwo.compared 7 ⟨0, 2⟩ :=
  ⟨reach_of_foldlM (.start 0) (show twoAtOnce.foldlM _ _ = some afterTwo from rfl),
    by decide, by decide⟩

/-- One connection alone keeps to the budget. -/
theorem login_budget_sample :
    comparedIn strictLimit [(7, 0)] 7 ⟨0, 1⟩ ≤ strictLimit.failures ∧ 1 ≤ strictLimit.failures := by
  have hStep {s s' : State Nat}
      (h : Reach strictLimit strictOptions (Room strictLimit strictOptions 7) s)
      (act : Act Nat) (hRoom : Room strictLimit strictOptions 7 s act)
      (hNext : step strictLimit strictOptions s act = some s') :
      Reach strictLimit strictOptions (Room strictLimit strictOptions 7) s' := .step h hRoom hNext
  have hAccepted := hStep (.start 0) (.accept (some 7)) trivial rfl
  have hBegun := hStep hAccepted (.begin 0 "guess") (fun _ _ _ _ _ => by decide) rfl
  have hCompared := hStep hBegun (.compare 0) trivial rfl
  have hCounted := hStep hCompared (.count 0 []) (fun _ _ _ _ _ hLive => by cases hLive) rfl
  exact (login_budget strictLimit strictOptions).2 7 _ hCounted ⟨0, 1⟩ rfl

end Logins

end MultimodalDb
