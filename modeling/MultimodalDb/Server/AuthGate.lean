import MultimodalDb.Server.Catalog
import MultimodalDb.Server.Requests

/-!
# The authentication gate

A connection that its certificate gives no class starts without a role when anything is configured.
Until a login of its own succeeds, its requests reach no table and its answers are versions and
errors. A connection that never has the read-write role only reads: no step of it changes a table.

* `handle_gate`: what a request may call, and what it may answer, from the role its connection has.
* `auth_gate`: both, over every run of a server.
-/

namespace MultimodalDb

open Program

variable {n : Nat} {σ : Fin n → Type}

/-- A response that says nothing about a table. -/
def Response.isBare : Response → Bool
  | .hello _ | .err .. => true
  | _ => false

/-- A login of the connection succeeded. -/
def LoggedIn (acts : List (Act σ)) : Prop :=
  ∃ token, Act.answered (.authenticate token) .ok ∈ acts

/-- The connection had a role: from its certificate or from a login. -/
def HadRole (options : ServeOptions) (acts : List (Act σ)) (cls : TokenClass) : Prop :=
  (∃ certificate, Act.accepted certificate ∈ acts ∧
      certificate.bind options.classForCertificate = some cls) ∨
    ∃ token, Act.answered (.authenticate token) .ok ∈ acts ∧ options.check token = some cls

/-- No certificate gave the connection a class. -/
def Unclassed (options : ServeOptions) (acts : List (Act σ)) : Prop :=
  ∀ certificate, Act.accepted certificate ∈ acts →
    certificate.bind options.classForCertificate = none

/-- What a connection without a role may do: no call, and no answer about a table. -/
def Act.Shut : Act σ → Prop
  | .called .. => False
  | .answered _ resp => resp.isBare = true
  | _ => True

namespace HadRole

variable {options : ServeOptions} {acts : List (Act σ)} {cls : TokenClass}

theorem cons (h : HadRole options acts cls) (act : Act σ) : HadRole options (act :: acts) cls := by
  rcases h with ⟨certificate, hMem, hClass⟩ | ⟨token, hMem, hClass⟩
  · exact Or.inl ⟨certificate, List.mem_cons_of_mem _ hMem, hClass⟩
  · exact Or.inr ⟨token, List.mem_cons_of_mem _ hMem, hClass⟩

theorem loggedIn (h : HadRole options acts cls) (hPlain : Unclassed options acts) :
    LoggedIn acts := by
  rcases h with ⟨certificate, hMem, hClass⟩ | ⟨token, hMem, -⟩
  · rw [hPlain certificate hMem] at hClass
    cases hClass
  · exact ⟨token, hMem⟩

end HadRole

namespace Tables

variable (T : Tables n σ) (options : ServeOptions)

/-- What a connection may call: nothing without a role, and nothing but reads as long as its role is
to read. -/
def Allowed (c : Conn n) (call : Call n) : Prop :=
  c.authenticated.isSome = true ∧ (call.isRead = true ∨ c.authenticated = some .readWrite)

theorem hello_isBare (c : Conn n) (protocolVersion : UInt32) :
    (hello c protocolVersion).2.isBare = true := by
  unfold hello
  split <;> rfl

theorem authenticate_answer (hConfigured : options.isConfigured = true) (throttled : Bool)
    (c : Conn n) (token : String) : (authenticate options throttled c token).2.isBare = true ∨
      (authenticate options throttled c token).2 = .ok := by
  unfold authenticate
  rw [if_neg (by rw [hConfigured]; exact Bool.noConfusion)]
  split
  · exact Or.inl rfl
  · split
    · exact Or.inr rfl
    · exact Or.inl rfl

theorem handle_gate (hConfigured : options.isConfigured = true) (throttled : Bool) (c : Conn n)
    (req : Request) : (T.handle options throttled c req).Meets (Allowed c) fun served =>
      c.authenticated = none → served.response.isBare = true ∨
        ∃ token, req = .authenticate token ∧ served.response = .ok := by
  unfold handle
  split
  · next v => exact fun _ => Or.inl (hello_isBare c v)
  · next token =>
    intro _
    rcases authenticate_answer options hConfigured throttled
        { c with firstFrame := false } token with
      hBare | hOk
    · exact Or.inl hBare
    · exact Or.inr ⟨token, rfl, hOk⟩
  · dsimp only
    split
    · exact fun _ => Or.inl rfl
    · next cls hAuth =>
      have hRole : c.authenticated = some cls := hAuth
      split
      · exact fun _ => Or.inl rfl
      · next hGate =>
        have hCalls : (T.request { c with firstFrame := false } req).Meets (Allowed c) fun _ =>
          True := by
          have hSome : c.authenticated.isSome = true := by
            rw [hRole]
            rfl
          cases cls with
          | readWrite => exact (meets_true _).mono (fun _ _ => ⟨hSome, Or.inr hRole⟩) fun _ h => h
          | readOnly =>
            have hRead : isWrite req = false := by simpa using hGate
            exact (T.onlyReads_request _ (Or.inl hRead)).mono (fun _ h => ⟨hSome, Or.inl h⟩)
              fun _ h => h
        apply hCalls.bind
        intro _ _ hNone
        rw [hRole] at hNone
        cases hNone

/-! ## Connections of a run -/

/-- What is known of a connection's thread. -/
def Gated (acts : List (Act σ)) : Worker n → Prop
  | .idle c => Tidy c ∧ ∀ cls, c.authenticated = some cls → HadRole options acts cls
  | .serving c req program =>
    (∀ cls, c.authenticated = some cls → HadRole options acts cls) ∧
      program.Meets (Allowed c) (fun served =>
        c.authenticated = none → served.response.isBare = true ∨
          ∃ token, req = .authenticate token ∧ served.response = .ok) ∧
      program.Meets (fun _ => True) (T.After options c req)
  | .absent | .closed => True

/-- What a connection did so far is what its role at the time allowed. -/
structure Behaved (acts : List (Act σ)) : Prop where
  shut : ∀ (newer : List (Act σ)) act older, acts = newer ++ act :: older →
    ¬ (∃ cls, HadRole options older cls) →
    act.Shut ∨ ∃ token, act = .answered (.authenticate token) .ok
  reads : ∀ newer (c : Call n) (reply : c.Reply) (w : Contents σ) older, acts =
    newer ++ .called c reply w :: older → ¬ HadRole options older .readWrite → c.isRead = true

variable {T options}

theorem Behaved.cons {acts : List (Act σ)} (h : Behaved options acts) {act : Act σ}
    (hShut : ¬ (∃ cls, HadRole options acts cls) →
      act.Shut ∨ ∃ token, act = .answered (.authenticate token) .ok)
    (hReads : ∀ c reply w, act = .called c reply w → ¬ HadRole options acts .readWrite →
      c.isRead = true) : Behaved options (act :: acts) := by
  constructor
  · intro newer here older hActs
    cases newer with
    | nil =>
      obtain ⟨rfl, rfl⟩ := List.cons.inj hActs
      exact hShut
    | cons first newer => exact h.shut newer here older (List.cons.inj hActs).2
  · intro newer c reply w older hActs
    cases newer with
    | nil =>
      obtain ⟨rfl, rfl⟩ := List.cons.inj hActs
      exact hReads c reply w rfl
    | cons first newer => exact h.reads newer c reply w older (List.cons.inj hActs).2

theorem Behaved.quiet {acts : List (Act σ)} (h : Behaved options acts) {act : Act σ}
    (hCalled : act.isCall = false) (hShut : ¬ (∃ cls, HadRole options acts cls) →
      act.Shut ∨ ∃ token, act = .answered (.authenticate token) .ok) :
    Behaved options (act :: acts) := by
  apply h.cons hShut
  intro c reply w hAct
  rw [hAct] at hCalled
  cases hCalled

theorem gated_admitted (hConfigured : options.isConfigured = true) (certificate : Option Bytes)
    (acts : List (Act σ)) :
    T.Gated options (.accepted certificate :: acts) (.idle (T.admitted options certificate)) := by
  refine ⟨⟨nofun, nofun, nofun, nofun, nofun, nofun⟩, fun cls hRole => Or.inl ⟨certificate, ?_⟩⟩
  refine ⟨List.mem_cons_self, ?_⟩
  unfold admitted at hRole
  dsimp only at hRole
  rw [hConfigured, if_pos rfl] at hRole
  split at hRole
  · next hClass => exact hClass.trans hRole
  · cases hRole

/-- The role behind an answer is the one before it, or the one of the login it answers. -/
theorem hadRole_answered {acts : List (Act σ)} {c : Conn n} {req : Request} {served : Served n}
    (hHad : ∀ cls, c.authenticated = some cls → HadRole options acts cls)
    (hAfter : T.After options c req served) (cls : TokenClass)
    (hRole : served.conn.authenticated = some cls) :
    HadRole options (.answered req served.response :: acts) cls := by
  rcases hAfter.authenticated with hSame | ⟨token, rfl, hOk, hCheck⟩
  · exact (hHad cls (hSame.symm.trans hRole)).cons _
  · rw [hOk]
    exact Or.inr ⟨token, List.mem_cons_self, hCheck.trans hRole⟩

theorem behaved_answered {acts : List (Act σ)} (h : Behaved options acts) {c : Conn n}
    {req : Request}
    {served : Served n} (hHad : ∀ cls, c.authenticated = some cls → HadRole options acts cls)
    (hBare : c.authenticated = none → served.response.isBare = true ∨
      ∃ token, req = .authenticate token ∧ served.response = .ok) :
    Behaved options (.answered req served.response :: acts) := by
  refine h.quiet rfl fun hNoRole => ?_
  have hNone : c.authenticated = none := by
    by_contra hSome
    obtain ⟨cls, hRole⟩ := Option.ne_none_iff_exists'.mp hSome
    exact hNoRole ⟨cls, hHad cls hRole⟩
  rcases hBare hNone with hBare | ⟨token, rfl, hOk⟩
  · exact Or.inl hBare
  · rw [hOk]
    exact Or.inr ⟨token, rfl⟩

/-- **One step.** Every step of a connection keeps to its role. -/
theorem gated_moves (hConfigured : options.isConfigured = true) {w w' : Contents σ}
    {peer peer' : Peer σ} (hMoves : T.Moves options w peer peer' w')
    (h : T.Gated options peer.acts peer.worker ∧ Behaved options peer.acts) :
    T.Gated options peer'.acts peer'.worker ∧ Behaved options peer'.acts := by
  obtain ⟨hGated, hBehaved⟩ := h
  cases hMoves with
  | accept certificate =>
    exact ⟨gated_admitted hConfigured certificate _, hBehaved.quiet rfl fun _ => Or.inl trivial⟩
  | receive req throttled =>
    obtain ⟨hTidy, hHad⟩ := hGated
    refine ⟨⟨fun cls hRole => (hHad cls hRole).cons _,
      T.handle_gate options hConfigured throttled _ req,
      T.handle_after options throttled hTidy req⟩, hBehaved.quiet rfl fun _ => Or.inl trivial⟩
  | call taken here next =>
    obtain ⟨hHad, hGate, hAfter⟩ := hGated
    refine ⟨⟨fun cls hRole => (hHad cls hRole).cons _, hGate.2 _, hAfter.2 _⟩, hBehaved.cons ?_ ?_⟩
    · intro hNoRole
      obtain ⟨cls, hRole⟩ := Option.isSome_iff_exists.mp hGate.1.1
      exact absurd ⟨cls, hHad cls hRole⟩ hNoRole
    · intro c reply w hAct hNever
      cases hAct
      exact hGate.1.2.resolve_right fun hRole => hNever (hHad _ hRole)
  | respond served hOpen =>
    obtain ⟨hHad, hBare, hAfter⟩ := hGated
    exact ⟨⟨hAfter.tidy, hadRole_answered hHad hAfter⟩, behaved_answered hBehaved hHad hBare⟩
  | close served =>
    obtain ⟨hHad, hBare, -⟩ := hGated
    exact ⟨trivial, behaved_answered hBehaved hHad hBare⟩
  | hangUp => exact ⟨trivial, hBehaved.quiet rfl fun _ => Or.inl trivial⟩

theorem gated_of_reaches (hConfigured : options.isConfigured = true) {s : Server σ}
    (h : T.Reaches options s) (k : Nat) :
    T.Gated options (s.peers k).acts (s.peers k).worker ∧ Behaved options (s.peers k).acts := by
  refine peer_invariant (P := fun peer => T.Gated options peer.acts peer.worker ∧
    Behaved options peer.acts) ⟨trivial, ?_⟩ (fun _ _ _ _ => gated_moves hConfigured) h k
  constructor
  · intro newer act older hActs
    cases newer <;> cases hActs
  · intro newer c reply w older hActs
    cases newer <;> cases hActs

/-- A step of a connection that does not have the read-write role changes no table. -/
theorem world_of_moves {w w' : Contents σ} {peer peer' : Peer σ}
    (hMoves : T.Moves options w peer peer' w')
    (h : T.Gated options peer.acts peer.worker) (hNever : ¬ HadRole options peer.acts .readWrite) :
    w' = w := by
  cases hMoves with
  | accept | receive | respond | close | hangUp => rfl
  | call taken here next =>
    obtain ⟨hHad, hGate, -⟩ := h
    exact T.answer_of_isRead taken (hGate.1.2.resolve_right fun hRole => hNever (hHad _ hRole)) w

/-- **The authentication gate.** On a server with tokens, whatever the tables hold and however the
connections' steps interleave:

* a connection that its certificate gives no class makes no call, and is answered nothing but
  versions and errors, before a login of its own succeeds;
* a connection that never had the read-write role makes no call but reads, and no step of it changes
  what any table holds. -/
theorem auth_gate (T : Tables n σ) (options : ServeOptions)
    (hTokens : options.readOnlyToken.isSome = true ∨ options.readWriteToken.isSome = true)
    {s : Server σ} (h : T.Reaches options s) (k : Nat) :
    (Unclassed options (s.peers k).acts →
      ∀ newer act older, (s.peers k).acts = newer ++ act :: older →
      ¬ LoggedIn (act :: older) → act.Shut) ∧
    (¬ HadRole options (s.peers k).acts .readWrite →
      (∀ (c : Call n) (reply : c.Reply) (w : Contents σ), Act.called c reply w ∈ (s.peers k).acts →
        c.isRead = true) ∧
      ∀ e s', T.step options s (k, e) = some s' → s'.world = s.world) := by
  have hConfigured : options.isConfigured = true := by
    unfold ServeOptions.isConfigured
    rcases hTokens with hToken | hToken <;> simp [hToken]
  obtain ⟨hGated, hBehaved⟩ := gated_of_reaches hConfigured h k
  constructor
  · intro hPlain newer act older hActs hOut
    have hOlder : Unclassed options older := by
      intro certificate hMem
      apply hPlain certificate
      rw [hActs]
      exact List.mem_append_right _ (List.mem_cons_of_mem _ hMem)
    have hNoRole : ¬ ∃ cls, HadRole options older cls := by
      rintro ⟨cls, hRole⟩
      obtain ⟨token, hMem⟩ := hRole.loggedIn hOlder
      exact hOut ⟨token, List.mem_cons_of_mem _ hMem⟩
    rcases hBehaved.shut newer act older hActs hNoRole with hShut | ⟨token, rfl⟩
    · exact hShut
    · exact absurd ⟨token, List.mem_cons_self⟩ hOut
  · intro hNever
    constructor
    · intro c reply w hMem
      obtain ⟨newer, older, hActs⟩ := List.append_of_mem hMem
      apply hBehaved.reads newer c reply w older hActs
      intro hRole
      apply hNever
      rw [hActs]
      clear hActs
      induction newer with
      | nil => exact hRole.cons _
      | cons first newer ih => exact ih.cons _
    · intro e s' hStep
      obtain ⟨peer, hMoves, -⟩ := moves_of_step hStep
      exact world_of_moves hMoves hGated hNever

end Tables

/-! ## A certificate's class -/

/-- A server with a token, and a certificate that may read. -/
def sampleOptions : ServeOptions := ⟨some "reader", some "writer", [([1], .readOnly)]⟩

/-- A connection that reads before any login of its own. -/
def readsFirst (certificate : Option Bytes) : List (Nat × ConnEvent) :=
  [(0, .accept certificate), (0, .receive (.getById (Uuid.ofNat 1)) false), (0, .call true),
    (0, .respond true)]

/-- The last thing a connection did was to answer something about a table, and it never logged in.
-/
def reveals (acts : List (Act σ)) : Bool :=
  match acts with
  | .answered (.getById _) resp :: acts => !resp.isBare && acts.all fun act =>
    match act with
    | .answered .. => false
    | _ => true
  | _ => false

/-- A connection that its certificate gives a class reads a record with no login. -/
theorem certificate_reads_first :
    ¬ ∀ (options : ServeOptions) (s : Server (memoryServer false).Content)
    (k : Nat), options.readOnlyToken.isSome = true ∨ options.readWriteToken.isSome = true →
      (memoryServer false).tables.Reaches options s →
      ∀ newer act older, (s.peers k).acts = newer ++ act :: older → ¬ LoggedIn (act :: older) →
        act.Shut := by
  intro hClaim
  have hRun : (Machine.run ((memoryServer false).tables.step sampleOptions)
      (Tables.started (memoryWorld false)) (readsFirst (some [1]))).any
        (fun s => reveals (s.peers 0).acts) = true := by decide +kernel
  obtain ⟨s, hRun, hReveals⟩ := (Option.any_eq_true _ _).mp hRun
  have hReach : (memoryServer false).tables.Reaches sampleOptions s := ⟨_, Machine.runs_of_run hRun⟩
  have hShut := hClaim sampleOptions s 0 (Or.inl rfl) hReach
  unfold reveals at hReveals
  split at hReveals
  · next id resp acts hActs =>
    rw [Bool.and_eq_true, Bool.not_eq_true', List.all_eq_true] at hReveals
    have hBare : resp.isBare = true := by
      refine hShut [] _ acts hActs ?_
      rintro ⟨token, hMem⟩
      rcases List.mem_cons.mp hMem with hHere | hOlder
      · cases hHere
      · exact absurd (hReveals.2 _ hOlder) Bool.noConfusion
    rw [hReveals.1] at hBare
    cases hBare
  · cases hReveals

/-- A connection without a certificate reads too early, logs in to read, reads, and writes. -/
def readerTries : List (Nat × ConnEvent) :=
  [(0, .accept none), (0, .receive (.getById (Uuid.ofNat 1)) false), (0, .respond true),
    (0, .receive (.authenticate "reader") false), (0, .respond true),
    (0, .receive (.getById (Uuid.ofNat 1)) false), (0, .call true), (0, .respond true),
    (0, .receive (.updateField (Uuid.ofNat 1) Memory.FIELD_ACCESS_COUNT (.i64 7)) false),
      (0, .respond true)]

/-- Nothing gave the connection the role to write. -/
def readsAtMost (act : Act σ) : Bool :=
  match act with
  | .accepted certificate => certificate.isNone
  | .answered (.authenticate token) _ => sampleOptions.check token ≠ some .readWrite
  | _ => true

/-- The error codes of a connection's answers, the last one first. -/
def errorCodes (acts : List (Act σ)) : List (Option ErrorCode) :=
  acts.filterMap fun act =>
    match act with
    | .answered _ (.err code _) => some (some code)
    | .answered _ _ => some none
    | _ => none

/-- Too early it is told so, then it logs in and reads, and its write is refused. -/
theorem auth_gate_sample : ∃ s, Machine.run ((memoryServer false).tables.step sampleOptions)
    (Tables.started (memoryWorld false)) readerTries = some s ∧
    errorCodes (s.peers 0).acts = [some .unauthorized, none, none, some .unauthenticated] ∧
    (∀ newer act older, (s.peers 0).acts = newer ++ act :: older →
      ¬ LoggedIn (act :: older) → act.Shut) ∧
    ∀ e s', (memoryServer false).tables.step sampleOptions s (0, e) = some s' →
      s'.world = s.world := by
  have hCheck : (Machine.run ((memoryServer false).tables.step sampleOptions)
      (Tables.started (memoryWorld false)) readerTries).any
        (fun s => (s.peers 0).acts.all readsAtMost &&
        errorCodes (s.peers 0).acts = [some .unauthorized, none, none, some .unauthenticated]) =
          true := by
    decide +kernel
  obtain ⟨s, hRun, hCheck⟩ := (Option.any_eq_true _ _).mp hCheck
  rw [Bool.and_eq_true, decide_eq_true_eq, List.all_eq_true] at hCheck
  obtain ⟨hReads, hCodes⟩ := hCheck
  obtain ⟨hShut, hReader⟩ := Tables.auth_gate (memoryServer false).tables sampleOptions (Or.inl rfl)
    ⟨_, Machine.runs_of_run hRun⟩ 0
  refine ⟨s, hRun, hCodes, hShut fun certificate hMem => ?_, (hReader ?_).2⟩
  · rw [Option.isNone_iff_eq_none.mp (hReads _ hMem)]
    rfl
  · rintro (⟨certificate, hMem, hClass⟩ | ⟨token, hMem, hClass⟩)
    · rw [Option.isNone_iff_eq_none.mp (hReads _ hMem)] at hClass
      cases hClass
    · exact of_decide_eq_true (hReads _ hMem) hClass

end MultimodalDb
