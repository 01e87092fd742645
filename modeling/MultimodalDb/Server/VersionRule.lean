import MultimodalDb.Server.VersionGates

/-!
# The version rule over runs

The version of a connection is told by its own acts: it is 1 until a `Hello` is answered with
another.

* `handle_versioned`: one turn of a connection's loop.
* `version_rule`: every run.
-/

namespace MultimodalDb

open Program

variable {n : Nat} {σ : Fin n → Type}

/-- The version agreed on. -/
def agreedVersion : List (Act σ) → UInt32
  | [] => 1
  | .answered (.hello _) (.hello v) :: _ => v
  | _ :: acts => agreedVersion acts

/-- The version after an answer. -/
def versionAfter (v : UInt32) (req : Request) (resp : Response) : UInt32 :=
  match req, resp with
  | .hello _, .hello agreed => agreed
  | _, _ => v

theorem agreedVersion_answered (req : Request) (resp : Response) (acts : List (Act σ)) :
    agreedVersion (.answered req resp :: acts) = versionAfter (agreedVersion acts) req resp := by
  cases req with
  | hello v => cases resp <;> rfl
  | _ => rfl

namespace Tables

variable {T : Tables n σ}

/-! ## One turn -/

/-- What is sent in one turn, and the version after it. -/
structure Sent (c : Conn n) (req : Request) (served : Served n) : Prop where
  known : req.since ≤ c.negotiated → served.response.Known c.negotiated
  negotiated : served.conn.negotiated = versionAfter c.negotiated req served.response
  first : 1 ≤ served.conn.negotiated

theorem hello_sent {c : Conn n} (hVersion : 1 ≤ c.negotiated) (protocolVersion : UInt32)
    (closed : Bool) :
    Sent c (.hello protocolVersion)
      ⟨(hello c protocolVersion).1, (hello c protocolVersion).2, closed⟩ := by
  unfold hello
  split
  · exact ⟨fun _ => ⟨hVersion, hVersion⟩, rfl, hVersion⟩
  · next hFirst =>
    rw [Bool.or_eq_true, not_or, decide_eq_true_eq, decide_eq_true_eq] at hFirst
    refine ⟨fun h => ⟨h, trivial⟩, rfl, ?_⟩
    have hPositive : 1 ≤ protocolVersion := by
      rw [UInt32.le_iff_toNat_le]
      exact Nat.one_le_iff_ne_zero.mpr fun h => hFirst.2 (UInt32.toNat_inj.mp h)
    show 1 ≤ if protocolVersion ≤ PROTOCOL_VERSION then protocolVersion else PROTOCOL_VERSION
    split
    · exact hPositive
    · decide

/-- An answer of the connection itself: no `Hello`, and nothing new. -/
theorem sent_own {c c' : Conn n} (hVersion : 1 ≤ c.negotiated)
    (hSame : c'.negotiated = c.negotiated)
    {req : Request} (hReq : ∀ v, req ≠ .hello v) {resp : Response}
    (hOld : resp = .ok ∨ ∃ code, resp = errResponse code ∧ code.since ≤ 1) (closed : Bool) :
    Sent c req ⟨c', resp, closed⟩ := by
  refine ⟨fun _ => ?_, ?_, hSame ▸ hVersion⟩
  · rcases hOld with rfl | ⟨code, rfl, hCode⟩
    · exact ⟨hVersion, trivial⟩
    · exact ⟨hVersion, UInt32.le_trans hCode hVersion⟩
  · cases req with
    | hello v => exact absurd rfl (hReq v)
    | _ => exact hSame

theorem authenticate_sent (options : ServeOptions) (throttled : Bool) {c : Conn n}
    (hVersion : 1 ≤ c.negotiated) (token : String) (closed : Bool) :
    Sent c (.authenticate token) ⟨(authenticate options throttled c token).1,
      (authenticate options throttled c token).2, closed⟩ := by
  have hReq : ∀ v, Request.authenticate token ≠ .hello v := by nofun
  have hFailed : ∃ code, errResponse .unauthenticated = errResponse code ∧ code.since ≤ 1 :=
    ⟨.unauthenticated, rfl, UInt32.le_refl 1⟩
  unfold authenticate
  split
  · exact sent_own hVersion rfl hReq (Or.inl rfl) closed
  · split
    · refine sent_own hVersion ?_ hReq (Or.inr hFailed) closed
      rfl
    · split
      · refine sent_own hVersion ?_ hReq (Or.inl rfl) closed
        rfl
      · refine sent_own hVersion ?_ hReq (Or.inr hFailed) closed
        rfl

/-- A request that is served is answered with what its version knows. -/
theorem request_sent {c : Conn n} (hTidy : Tidy c) (hVersion : 1 ≤ c.negotiated)
    (hSettled : c.firstFrame = false ∧ c.authenticated.isSome = true) {req : Request}
    (hReq : ∀ v, req ≠ .hello v) :
    (T.request c req >>= fun r => pure ⟨r.1, downgradeForVersion r.2 r.1.negotiated, false⟩).Returns
      T.Sound (Sent c req) := by
  have hFollows := T.request_follows hTidy hSettled req
  by_cases h : req.since ≤ c.negotiated
  · apply ((request_arises hTidy hVersion h).and_meets hFollows).bind
    rintro r ⟨hArises, hFollows⟩
    refine ⟨fun _ => ?_, ?_, hFollows.negotiated ▸ hVersion⟩
    · dsimp only
      rw [hFollows.negotiated, hArises.downgrade_eq hVersion]
      exact Response.older_known hVersion r.2
    · cases req with
      | hello v => exact absurd rfl (hReq v)
      | _ => exact hFollows.negotiated
  · apply ((returns_of_forall (Q := fun _ => True) (fun _ => trivial) _).and_meets hFollows).bind
    rintro r ⟨-, hFollows⟩
    refine ⟨fun hKnown => absurd hKnown h, ?_, hFollows.negotiated ▸ hVersion⟩
    cases req with
    | hello v => exact absurd rfl (hReq v)
    | _ => exact hFollows.negotiated

/-- **One turn of a connection's loop.** -/
theorem handle_versioned (options : ServeOptions) (throttled : Bool) {c : Conn n} (hTidy : Tidy c)
    (hVersion : 1 ≤ c.negotiated) (req : Request) :
    (T.handle options throttled c req).Returns T.Sound (Sent c req) := by
  have hBehind (hReq : ∀ v, req ≠ .hello v) (hReq' : ∀ token, req ≠ .authenticate token) :
      (T.handle options throttled c req).Returns T.Sound (Sent c req) := by
    unfold handle
    split
    · next v => exact absurd rfl (hReq v)
    · next token => exact absurd rfl (hReq' token)
    · dsimp only
      split
      · refine sent_own hVersion ?_ hReq (Or.inr ⟨.unauthenticated, rfl, UInt32.le_refl 1⟩) false
        rfl
      · next cls hAuth =>
        split
        · refine sent_own hVersion ?_ hReq (Or.inr ⟨.unauthorized, rfl, UInt32.le_refl 1⟩) false
          rfl
        · have hSettled : ({ c with firstFrame := false } : Conn n).firstFrame = false ∧
              ({ c with firstFrame := false } : Conn n).authenticated.isSome = true := by
            refine ⟨rfl, ?_⟩
            rw [hAuth]
            rfl
          have hSent := request_sent (T := T) hTidy.withFirstFrame hVersion hSettled hReq
          exact hSent.mono fun served h => ⟨h.known, h.negotiated, h.first⟩
  cases req with
  | hello v => exact hello_sent hVersion v false
  | authenticate token =>
    have hSent :=
      authenticate_sent (c := { c with firstFrame := false }) options throttled hVersion token
    exact ⟨(hSent _).known, (hSent _).negotiated, (hSent _).first⟩
  | _ => exact hBehind nofun nofun

/-! ## Runs -/

variable (T) (options : ServeOptions)

/-- What is known of a connection: its version is the one its acts tell. -/
structure Speaks (acts : List (Act σ)) (c : Conn n) : Prop where
  tidy : Tidy c
  negotiated : c.negotiated = agreedVersion acts
  first : 1 ≤ c.negotiated

def Speaking (acts : List (Act σ)) : Worker n → Prop
  | .absent => acts = []
  | .idle c => Speaks acts c
  | .serving c req program =>
    Speaks acts c ∧ program.Returns T.Sound (Sent c req) ∧
      program.Meets (fun _ => True) (T.After options c req)
  | .closed => True

/-- An answer to a request that its version knew is known to that version. -/
def Understood (older : List (Act σ)) : Act σ → Prop
  | .answered req resp => req.since ≤ agreedVersion older → resp.Known (agreedVersion older)
  | _ => True

variable {T options}

theorem Speaks.quiet {acts acts' : List (Act σ)} {c : Conn n} (h : Speaks acts c)
    (hVersion : agreedVersion acts' = agreedVersion acts) : Speaks acts' c :=
  ⟨h.tidy, h.negotiated.trans hVersion.symm, h.first⟩

theorem Speaks.answered {acts : List (Act σ)} {c : Conn n} {req : Request} {served : Served n}
    (h : Speaks acts c) (hSent : Sent c req served) (hAfter : T.After options c req served) :
    Speaks (.answered req served.response :: acts) served.conn := by
  refine ⟨hAfter.tidy, ?_, hSent.first⟩
  rw [agreedVersion_answered, hSent.negotiated, h.negotiated]

theorem Speaks.understood {acts : List (Act σ)} {c : Conn n} {req : Request} {served : Served n}
    (h : Speaks acts c) (hSent : Sent c req served) :
    Understood acts (.answered req served.response) := by
  intro hKnown
  rw [← h.negotiated] at hKnown ⊢
  exact hSent.known hKnown

/-- **One step.** -/
theorem speaking_moves (hStores : ∀ i, (T.store i).Versioned) {w w' : Contents σ}
    {peer peer' : Peer σ} (hMoves : T.Moves options w peer peer' w')
    (h : T.Speaking options peer.acts peer.worker ∧ Throughout Understood peer.acts) :
    T.Speaking options peer'.acts peer'.worker ∧ Throughout Understood peer'.acts := by
  obtain ⟨hHere, hActs⟩ := h
  cases hMoves with
  | accept certificate =>
    cases hHere
    refine ⟨⟨⟨nofun, nofun, nofun, nofun, nofun, nofun⟩, rfl, UInt32.le_refl 1⟩, trivial, hActs⟩
  | receive req throttled =>
    exact ⟨⟨hHere.quiet rfl, handle_versioned options throttled hHere.tidy hHere.first req,
      T.handle_after options throttled hHere.tidy req⟩, trivial, hActs⟩
  | call taken here next =>
    obtain ⟨hSpeaks, hSent, hAfter⟩ := hHere
    exact ⟨⟨hSpeaks.quiet rfl, hSent _ (sound_answer hStores taken here w), hAfter.2 _⟩,
      trivial, hActs⟩
  | respond served hOpen =>
    obtain ⟨hSpeaks, hSent, hAfter⟩ := hHere
    exact ⟨hSpeaks.answered hSent hAfter, hSpeaks.understood hSent, hActs⟩
  | close served => exact ⟨trivial, hHere.1.understood hHere.2.1, hActs⟩
  | hangUp => exact ⟨trivial, trivial, hActs⟩

theorem speaking_of_reaches (hStores : ∀ i, (T.store i).Versioned) {s : Server σ}
    (h : T.Reaches options s) (k : Nat) :
    T.Speaking options (s.peers k).acts (s.peers k).worker ∧
      Throughout Understood (s.peers k).acts :=
  peer_invariant (P := fun peer => T.Speaking options peer.acts peer.worker ∧
    Throughout Understood peer.acts)
    ⟨rfl, trivial⟩ (fun _ _ _ _ hMoves => speaking_moves hStores hMoves) h k

theorem Speaking.speaks {acts : List (Act σ)} {worker : Worker n}
    (h : T.Speaking options acts worker)
    {c : Conn n} (hConn : worker.conn? = some c) : Speaks acts c := by
  cases worker with
  | absent | closed => cases hConn
  | idle c' =>
    cases hConn
    exact h
  | serving c' req program =>
    cases hConn
    exact h.1

/-- A reply that the tables give, whatever they hold. -/
def Gives (T : Tables n σ) (c : Call n) (reply : c.Reply) : Prop :=
  ∃ taken w, reply = (T.answer taken c w).1

end Tables

/-- **The version rule.** In every run of a server of the domains' tables, over storage that may
fail, for every connection:

* an answer to a request that the version agreed on knew holds nothing newer, at any depth;
* a request that the version knows is answered, whatever the tables hold at each of its calls, with
  the nearest older shape of what was formed: what is newer is left out, and nothing else changes;
* what the version knew already is sent as it was formed. -/
theorem version_rule (name : Fin n → String) (adapter : Fin n → Adapter) (journaled : Fin n → Bool)
    (primary : Fin n) (options : ServeOptions)
    {s : Server fun i => Faulty (Stack ((adapter i).table (journaled i)).R)}
    (h : (servedTables name adapter journaled primary).Reaches options s) (k : Nat) :
    (∀ newer req resp older, (s.peers k).acts = newer ++ .answered req resp :: older →
      req.since ≤ agreedVersion older → resp.Known (agreedVersion older)) ∧
    (∀ c, (s.peers k).worker.conn? = some c → c.negotiated = agreedVersion (s.peers k).acts ∧
      ∀ req, req.since ≤ c.negotiated →
        ((servedTables name adapter journaled primary).request c req).Returns
          (servedTables name adapter journaled primary).Gives fun r =>
            downgradeForVersion r.2 c.negotiated = r.2.older c.negotiated ∧
              (r.2.Known c.negotiated → downgradeForVersion r.2 c.negotiated = r.2)) := by
  have hStores (i : Fin n) : ((servedTables name adapter journaled primary).store i).Versioned :=
    ((adapter i).versioned (journaled i)).faulty
  obtain ⟨hSpeaking, hActs⟩ := Tables.speaking_of_reaches hStores h k
  constructor
  · intro newer req resp older hAt
    rw [hAt] at hActs
    exact hActs.at
  · intro c hConn
    have hSpeaks := hSpeaking.speaks hConn
    refine ⟨hSpeaks.negotiated, fun req hReq => ?_⟩
    have hArises := Tables.request_arises (T := servedTables name adapter journaled primary)
      hSpeaks.tidy hSpeaks.first hReq
    have hReplies :=
      hArises.replies (fun call reply (hGives : (servedTables name adapter journaled primary).Gives
        call reply) => by
      obtain ⟨taken, w, rfl⟩ := hGives
      exact Tables.sound_answer hStores taken call w)
    apply hReplies.mono
    intro r hFormed
    have hRule := hFormed.downgrade_eq hSpeaks.first
    exact ⟨hRule, fun hKnown => hRule.trans (Response.older_eq_self hKnown)⟩

/-! ## An old client reads a memory -/

/-- Layers that list nothing. -/
def Layers.none (R V : Type) : Layers R V :=
  ⟨fun _ => [], fun _ _ _ => [], fun _ => [], fun _ _ => [], fun _ _ _ => .none, fun _ => [],
    fun _ _ => .none, fun _ _ _ => []⟩

def memoryAdapters : Fin 2 → Adapter
  | 0 => .memory (.none ..) fun _ => ⟨0, 0, 0, 0⟩
  | 1 => .entity (.none ..) fun _ => ⟨0, 0, 0, 0⟩

/-- Two memories in a table of memories, and nothing in any other. -/
def Adapter.sampleStack : (a : Adapter) → Stack (a.table false).R
  | .memory .. => Memory.sampleStack
  | .dog _ => Stack.empty
  | .reminder .. => Stack.empty
  | .relation .. => Stack.empty
  | .entity .. => Stack.empty

/-- Two memories and no entity, over storage that works. -/
def memoryContents (i : Fin 2) : Faulty (Stack ((memoryAdapters i).table false).R) :=
  ⟨(memoryAdapters i).sampleStack, []⟩

/-- A connection that says no `Hello` asks for a memory. -/
def readsAsFirst : List (Nat × ConnEvent) :=
  [(0, .accept none), (0, .receive (.getById (Uuid.ofNat 1)) false), (0, .call true),
    (0, .respond true)]

theorem version_rule_sample : ∃ s, Machine.run
    ((servedTables (fun i => if i = 0 then "memory" else "entity") memoryAdapters
      (fun _ => false) 0).step
      ⟨none, none, []⟩) (Tables.started memoryContents) readsAsFirst = some s ∧
    ∀ newer req resp older, (s.peers 0).acts = newer ++ .answered req resp :: older →
      req.since ≤ agreedVersion older → resp.Known (agreedVersion older) := by
  have hRun : (Machine.run
      ((servedTables (fun i => if i = 0 then "memory" else "entity") memoryAdapters
        (fun _ => false) 0).step
        ⟨none, none, []⟩) (Tables.started memoryContents) readsAsFirst).isSome = true := by
          decide +kernel
  obtain ⟨s, hRun⟩ := Option.isSome_iff_exists.mp hRun
  have hRule := version_rule (fun i => if i = 0 then "memory" else "entity") memoryAdapters
    (fun _ => false) 0 _ ⟨_, Machine.runs_of_run hRun⟩ 0
  exact ⟨s, hRun, hRule.1⟩

end MultimodalDb
