import MultimodalDb.Server.Serving

/-!
# What a request does

* `onlyReads_request`: a request that is no write, and any request but a commit in a session, reads.
* `request_follows`: what becomes of the connection, told from the request and its answer.
-/

namespace MultimodalDb

open Program

variable {n : Nat} {σ : Fin n → Type}

/-- A call that reads a table. -/
def Call.isRead (c : Call n) : Bool :=
  match c.call with
  | .read _ => true
  | _ => false

namespace Tables

variable (T : Tables n σ)

theorem answer_of_isRead (taken : Bool) {c : Call n} (h : c.isRead = true) (w : Contents σ) :
    (T.answer taken c w).2 = w := by
  obtain ⟨i, call⟩ := c
  cases call with
  | read r => rfl
  | write x => cases h
  | journal updates => cases h

/-! ## What only reads -/

/-- A program that makes nothing but reads. -/
abbrev OnlyReads {α : Type} (p : Serving n α) : Prop :=
  p.Meets (fun c => c.isRead = true) fun _ => True

theorem OnlyReads.read_bind {α : Type} {i : Fin n} {r : Read} {f : r.Reply → Serving n α}
    (h : ∀ reply, OnlyReads (f reply)) : OnlyReads (read i r >>= f) :=
  And.intro rfl h

theorem OnlyReads.bind {α β : Type} {p : Serving n α} {f : α → Serving n β} (h : OnlyReads p)
    (hf : ∀ a, OnlyReads (f a)) : OnlyReads (p >>= f) :=
  Meets.bind h fun a _ => hf a

theorem onlyReads_getAll (i : Fin n) (ids : List RecordId) : OnlyReads (getAll i ids) := by
  induction ids with
  | nil => trivial
  | cons id ids ih =>
    apply OnlyReads.read_bind
    intro reply
    cases reply with
    | none => exact ih
    | some fields => exact OnlyReads.bind ih fun _ => trivial

theorem onlyReads_scanAll (i : Fin n) : OnlyReads (scanAll i) :=
  OnlyReads.read_bind fun ids => onlyReads_getAll i ids

theorem onlyReads_describeRelations (i : Fin n) : OnlyReads (T.describeRelations i) := by
  unfold describeRelations
  split
  · trivial
  · exact OnlyReads.read_bind fun _ => trivial

theorem onlyReads_page (i : Fin n) (orderBy : FieldRef) (after : Option (ScanValue × RecordId))
    (limit : Nat) : OnlyReads (T.page i orderBy after limit) := by
  unfold page
  split
  · split
    · exact OnlyReads.read_bind fun _ => OnlyReads.bind (onlyReads_getAll i _) fun _ => trivial
    · exact OnlyReads.read_bind fun _ => OnlyReads.bind (onlyReads_getAll i _) fun _ => trivial
    · trivial
  · refine OnlyReads.bind ?_ fun _ => trivial
    exact OnlyReads.bind (onlyReads_scanAll i) fun _ => onlyReads_getAll i _

theorem onlyReads_relatedIds (i : Fin n) (relation : JoinRelation) (id : RecordId) :
    OnlyReads (relatedIds i relation id) := by
  cases relation with
  | neighbors label => cases label <;> exact OnlyReads.read_bind fun _ => trivial
  | parent =>
    apply OnlyReads.read_bind
    intro reply
    split <;> trivial
  | children => exact OnlyReads.read_bind fun _ => trivial

theorem onlyReads_joinRights (j : Fin n) (spec : JoinSpec) (leftRow : PageRow) (ids : List RecordId)
    (out : List JoinedRow) : OnlyReads (joinRights j spec leftRow ids out) := by
  induction ids generalizing out with
  | nil => trivial
  | cons id ids ih =>
    unfold joinRights
    split
    · trivial
    · apply OnlyReads.read_bind
      intro reply
      cases reply with
      | none => exact ih out
      | some fields =>
        dsimp only
        split
        · exact ih _
        · exact ih out

theorem onlyReads_joinLefts (i j : Fin n) (spec : JoinSpec) (rows : List PageRow)
    (out : List JoinedRow) : OnlyReads (joinLefts i j spec rows out) := by
  induction rows generalizing out with
  | nil => trivial
  | cons row rows ih =>
    unfold joinLefts
    split
    · trivial
    · split
      · apply OnlyReads.bind (onlyReads_relatedIds i _ _)
        intro ids
        exact OnlyReads.bind (onlyReads_joinRights j spec row ids out) ih
      · exact ih out

theorem onlyReads_evaluateJoin (i j : Fin n) (spec : JoinSpec) :
    OnlyReads (evaluateJoin i j spec) := by
  unfold evaluateJoin
  split
  · trivial
  · exact OnlyReads.bind (onlyReads_scanAll i) fun rows => onlyReads_joinLefts i j spec rows []

theorem onlyReads_joinAcross (i : Fin n) (spec : JoinSpec) : OnlyReads (T.joinAcross i spec) := by
  apply OnlyReads.bind (T.onlyReads_describeRelations i)
  intro relations
  split
  · exact OnlyReads.bind (onlyReads_evaluateJoin i _ spec) fun _ => trivial
  · trivial
  · trivial

theorem onlyReads_dispatch (i : Fin n) {req : Request} (h : isWrite req = false) :
    OnlyReads (T.dispatch i req) := by
  cases req with
  | getById id =>
    apply OnlyReads.read_bind
    intro reply
    cases reply <;> trivial
  | filterEq | scanField | children | neighbors | neighborsByRelation | countEdges =>
    apply OnlyReads.read_bind
    intro reply
    cases reply <;> trivial
  | parent id =>
    apply OnlyReads.read_bind
    intro reply
    split <;> trivial
  | query select filter limit =>
    unfold dispatch
    dsimp only
    split
    · exact OnlyReads.bind (onlyReads_scanAll i) fun _ => trivial
    · trivial
  | aggregate groupBy filter aggregates limit =>
    unfold dispatch
    dsimp only
    split
    · exact OnlyReads.bind (onlyReads_scanAll i) fun _ => trivial
    · trivial
  | listRelationKinds => exact OnlyReads.read_bind fun _ => trivial
  | join spec =>
    apply OnlyReads.bind (T.onlyReads_describeRelations i)
    intro relations
    split
    · exact OnlyReads.bind (onlyReads_evaluateJoin i i spec) fun _ => trivial
    · trivial
  | describeRelations => exact OnlyReads.bind (T.onlyReads_describeRelations i) fun _ => trivial
  | page orderBy after limit =>
    unfold dispatch
    dsimp only
    split
    · trivial
    · apply OnlyReads.bind (T.onlyReads_page i orderBy after _)
      intro reply
      cases reply <;> trivial
  | describeSchema | authenticate | hello | begin | beginWith | rollback | use
  | listTables => trivial
  | updateField | transaction | commit | insert | link | replace | delete | compact | replaceIf
  | writeBatch => cases h

theorem onlyReads_keep {c : Conn n} {p : Serving n Response} (h : OnlyReads p) :
    OnlyReads (do return (c, ← p)) :=
  OnlyReads.bind h fun _ => trivial

theorem onlyReads_unstaged {c : Conn n} (since : UInt32) {p : Serving n Response}
    (h : c.session.isSome = true ∨ OnlyReads p) : OnlyReads (unstaged c since p) := by
  unfold unstaged
  split
  · trivial
  · next hNone =>
    split
    · trivial
    · exact h.resolve_left hNone

theorem onlyReads_versioned {c : Conn n} (since : UInt32) {p : Serving n Response}
    (h : OnlyReads p) :
    OnlyReads (versioned c since p) := by
  unfold versioned
  split
  · trivial
  · exact h

theorem onlyReads_stage (c : Conn n) (staged : Batch) (op : TransactionOp) :
    OnlyReads (stage c staged op) := by
  unfold stage
  split
  · apply OnlyReads.read_bind
    intro reply
    cases reply <;> trivial
  · trivial

theorem onlyReads_getInSession (c : Conn n) (staged : Batch) (id : RecordId) :
    OnlyReads (getInSession c staged id) := by
  apply OnlyReads.read_bind
  intro reply
  cases reply <;> trivial

/-- **Reads.** A request that is no write makes nothing but reads; in a session no request but a
commit makes anything else. -/
theorem onlyReads_request (c : Conn n) {req : Request}
    (h : isWrite req = false ∨ (c.session.isSome = true ∧ req ≠ .commit)) :
    OnlyReads (T.request c req) := by
  have hUnstaged (hWrite : isWrite req = true) (since : UInt32) (p : Serving n Response) :
      OnlyReads (do return (c, ← unstaged c since p)) := by
    apply onlyReads_keep
    apply onlyReads_unstaged
    refine Or.inl (h.resolve_left ?_).1
    rw [hWrite]
    exact Bool.noConfusion
  cases req with
  | begin | rollback | beginWith | use => trivial
  | commit =>
    rcases h with h | ⟨-, h⟩
    · cases h
    · exact absurd rfl h
  | getById id =>
    unfold request
    dsimp only
    split
    · split
      · exact onlyReads_getInSession c _ id
      · exact onlyReads_keep (T.onlyReads_dispatch c.table rfl)
    · exact onlyReads_keep (T.onlyReads_dispatch c.table rfl)
  | updateField id field value =>
    rcases h with h | ⟨h, -⟩
    · cases h
    · obtain ⟨staged, hStaged⟩ := Option.isSome_iff_exists.mp h
      unfold request
      rw [hStaged]
      exact onlyReads_stage c staged _
  | transaction | insert | link | replace | delete | compact | replaceIf | writeBatch =>
    exact hUnstaged rfl _ _
  | join spec =>
    apply onlyReads_keep
    apply onlyReads_versioned
    split
    · exact T.onlyReads_joinAcross c.table spec
    · exact T.onlyReads_dispatch c.table rfl
  | describeRelations | page | countEdges =>
    exact onlyReads_keep (onlyReads_versioned _ (T.onlyReads_dispatch c.table rfl))
  | listTables => exact onlyReads_keep (onlyReads_versioned _ trivial)
  | filterEq | scanField | parent | children | neighbors | describeSchema | authenticate
  | hello | query
  | aggregate | neighborsByRelation | listRelationKinds =>
    exact onlyReads_keep (T.onlyReads_dispatch c.table rfl)

/-! ## The connection after a request -/

/-- The writes staged in an open session, after a request and its answer. -/
def stagedAfter (staged : Option Batch) (req : Request) (resp : Response) : Option Batch :=
  match req, resp with
  | .begin, .ok | .beginWith _, .ok => some []
  | .updateField id field value, .staged _ => staged.map (· ++ [⟨id, field, value⟩])
  | .commit, .err .unauthorized _ => staged
  | .commit, _ => none
  | .rollback, _ => none
  | _, _ => staged

/-- The table a connection is on, after a request and its answer. -/
def tableAfter (table : Fin n) (req : Request) (resp : Response) : Fin n :=
  match req, resp with
  | .use name, .ok => (T.position name).getD table
  | _, _ => table

/-- No session, no staged list longer than the cap, and nothing of a session outside one. -/
structure Tidy (c : Conn n) : Prop where
  capped : ∀ staged, c.session = some staged → staged.length ≤ MAX_STAGED_OPS
  readYourWrites : c.readYourWrites.isSome = true → c.session.isSome = true
  validateOnStage : c.validateOnStage = true → c.session.isSome = true
  snapshotReads : c.snapshotReads.isSome = true → c.session.isSome = true
  /-- A session is opened by a request that version 3 brought, and the version is agreed on once. -/
  version : c.session.isSome = true → 3 ≤ c.negotiated
  settled : c.session.isSome = true → c.firstFrame = false ∧ c.authenticated.isSome = true

/-- What becomes of a connection. -/
structure Follows (c : Conn n) (req : Request) (c' : Conn n) (resp : Response) : Prop where
  authenticated : c'.authenticated = c.authenticated
  negotiated : c'.negotiated = c.negotiated
  failures : c'.failures = c.failures
  table : c'.table = T.tableAfter c.table req resp
  session : c'.session = stagedAfter c.session req resp
  /-- A session stays on its table. -/
  stays : c.session.isSome = true → c'.table = c.table
  tidy : Tidy c'

theorem Tidy.endSession {c : Conn n} : Tidy (endSession c) :=
  ⟨nofun, nofun, nofun, nofun, nofun, nofun⟩

theorem Follows.keep {c : Conn n} (hTidy : Tidy c) {req : Request}
    (hTable : ∀ resp, T.tableAfter c.table req resp = c.table)
    (hSession : ∀ resp, stagedAfter c.session req resp = c.session) (p : Serving n Response) :
    (do return (c, ← p)).Meets (fun _ => True) fun r : Conn n × Response =>
      T.Follows c req r.1 r.2 :=
  p.meets_true.bind fun resp _ =>
    ⟨rfl, rfl, rfl, (hTable resp).symm, (hSession resp).symm, fun _ => rfl, hTidy⟩

theorem pushStaged_follows {c : Conn n} (hTidy : Tidy c) {staged : Batch}
    (h : c.session = some staged) (id : RecordId) (field : FieldRef) (value : ScanValue) :
    T.Follows c (.updateField id field value) (pushStaged c staged ⟨id, field, value⟩).1
      (pushStaged c staged ⟨id, field, value⟩).2 := by
  have hSome : c.session.isSome = true := by
    rw [h]
    rfl
  unfold pushStaged
  split
  · next hRoom =>
    refine ⟨rfl, rfl, rfl, rfl, ?_, fun _ => rfl, ?_⟩
    · rw [h]
      rfl
    · refine ⟨?_, fun _ => rfl, fun _ => rfl, fun _ => rfl, fun _ => hTidy.version hSome,
        fun _ => hTidy.settled hSome⟩
      intro _ hStaged
      cases hStaged
      rw [List.length_append, List.length_singleton]
      omega
  · exact ⟨rfl, rfl, rfl, rfl, rfl, fun _ => rfl, hTidy⟩

theorem begin_follows {c : Conn n} (hTidy : Tidy c) (hVersion : 3 ≤ c.negotiated)
    (hSettled : c.firstFrame = false ∧ c.authenticated.isSome = true) :
    T.Follows c .begin (begin c).1 (begin c).2 := by
  unfold begin
  split
  · exact ⟨rfl, rfl, rfl, rfl, rfl, fun _ => rfl, hTidy⟩
  · refine ⟨rfl, rfl, rfl, rfl, rfl, fun _ => rfl, ?_, nofun, nofun, nofun, fun _ => hVersion,
      fun _ => hSettled⟩
    intro _ hStaged
    cases hStaged
    exact Nat.zero_le _

theorem beginWith_follows {c : Conn n} (hTidy : Tidy c) (hVersion : 3 ≤ c.negotiated)
    (hSettled : c.firstFrame = false ∧ c.authenticated.isSome = true) (flags : UInt32) :
    T.Follows c (.beginWith flags) (T.beginWith c flags).1 (T.beginWith c flags).2 := by
  unfold beginWith
  split
  · exact ⟨rfl, rfl, rfl, rfl, rfl, fun _ => rfl, hTidy⟩
  · split
    · exact ⟨rfl, rfl, rfl, rfl, rfl, fun _ => rfl, hTidy⟩
    · refine ⟨rfl, rfl, rfl, rfl, rfl, fun _ => rfl, ?_, fun _ => rfl, fun _ => rfl, fun _ => rfl,
        fun _ => hVersion,
        fun _ => hSettled⟩
      intro _ hStaged
      cases hStaged
      exact Nat.zero_le _

theorem commit_follows {c : Conn n} : (T.commit c).Meets (fun _ => True)
    fun r => T.Follows c .commit r.1 r.2 := by
  unfold commit
  split
  · exact ⟨rfl, rfl, rfl, rfl, rfl, fun _ => rfl, Tidy.endSession⟩
  · refine (meets_true _).bind fun reply _ => ?_
    cases reply <;> exact ⟨rfl, rfl, rfl, rfl, rfl, fun _ => rfl, Tidy.endSession⟩

/-- **The connection after a request.** -/
theorem request_follows {c : Conn n} (hTidy : Tidy c)
    (hSettled : c.firstFrame = false ∧ c.authenticated.isSome = true) (req : Request) :
    (T.request c req).Meets (fun _ => True) fun r => T.Follows c req r.1 r.2 := by
  -- An old connection has no session that its refusal could end.
  have hOld (hOld : c.negotiated < 3) : c.session = none := by
    by_contra hOpen
    have hVersion := hTidy.version (Option.isSome_iff_ne_none.mpr hOpen)
    exact absurd hOld (UInt32.not_lt.mpr hVersion)
  cases req with
  | begin =>
    unfold request
    dsimp only
    split
    · exact ⟨rfl, rfl, rfl, rfl, rfl, fun _ => rfl, hTidy⟩
    · next hVersion => exact T.begin_follows hTidy (UInt32.not_lt.mp hVersion) hSettled
  | beginWith flags =>
    unfold request
    dsimp only
    split
    · exact ⟨rfl, rfl, rfl, rfl, rfl, fun _ => rfl, hTidy⟩
    · next hVersion =>
      refine T.beginWith_follows hTidy ?_ hSettled flags
      rw [UInt32.not_lt, UInt32.le_iff_toNat_le] at hVersion
      rw [UInt32.le_iff_toNat_le]
      exact Nat.le_trans (by decide) hVersion
  | commit =>
    unfold request
    dsimp only
    split
    · next hVersion => exact ⟨rfl, rfl, rfl, rfl, hOld hVersion, fun _ => rfl, hTidy⟩
    · exact T.commit_follows
  | rollback =>
    unfold request
    dsimp only
    split
    · next hVersion => exact ⟨rfl, rfl, rfl, rfl, hOld hVersion, fun _ => rfl, hTidy⟩
    · exact ⟨rfl, rfl, rfl, rfl, rfl, fun _ => rfl, Tidy.endSession⟩
  | getById id =>
    unfold request
    dsimp only
    split
    · next staged hStaged =>
      split
      · refine ⟨trivial, fun reply => ?_⟩
        cases reply with
        | none => exact ⟨rfl, rfl, rfl, rfl, rfl, fun _ => rfl, hTidy⟩
        | some fields =>
          refine ⟨rfl, rfl, rfl, rfl, rfl, fun _ => rfl, hTidy.capped, hTidy.readYourWrites,
            hTidy.validateOnStage, fun _ => ?_, hTidy.version, hTidy.settled⟩
          rw [hStaged]
          rfl
      · exact Follows.keep T hTidy (fun _ => rfl) (fun _ => rfl) _
    · exact Follows.keep T hTidy (fun _ => rfl) (fun _ => rfl) _
  | updateField id field value =>
    unfold request
    dsimp only
    split
    · next staged hStaged =>
      have hPushed := T.pushStaged_follows hTidy hStaged id field value
      unfold stage
      split
      · refine ⟨trivial, fun reply => ?_⟩
        cases reply with
        | error code => exact ⟨rfl, rfl, rfl, rfl, rfl, fun _ => rfl, hTidy⟩
        | ok _ => exact hPushed
      · exact hPushed
    · next hNone =>
      refine Follows.keep T hTidy (fun _ => rfl) (fun resp => ?_) _
      rw [hNone]
      cases resp <;> rfl
  | use name =>
    unfold request
    dsimp only
    split
    · exact ⟨rfl, rfl, rfl, rfl, rfl, fun _ => rfl, hTidy⟩
    · split
      · exact ⟨rfl, rfl, rfl, rfl, rfl, fun _ => rfl, hTidy⟩
      · next hClosed =>
        split
        · next i hPosition =>
          refine ⟨rfl, rfl, rfl, ?_, rfl, fun hOpen => absurd hOpen hClosed, hTidy.capped,
            hTidy.readYourWrites, hTidy.validateOnStage, hTidy.snapshotReads, hTidy.version,
            hTidy.settled⟩
          show i = (T.position name).getD c.table
          rw [hPosition]
          rfl
        · exact ⟨rfl, rfl, rfl, rfl, rfl, fun _ => rfl, hTidy⟩
  | transaction | insert | link | replace | delete | compact | replaceIf | writeBatch | join
  | describeRelations | page | countEdges | listTables | filterEq | scanField | parent | children
  | neighbors | describeSchema | authenticate | hello | query | aggregate | neighborsByRelation
  | listRelationKinds => exact Follows.keep T hTidy (fun _ => rfl) (fun _ => rfl) _

/-! ## The connection after a turn of its loop -/

theorem stagedAfter_downgrade (staged : Option Batch) (req : Request) (resp : Response)
    (negotiated : UInt32) :
    stagedAfter staged req (downgradeForVersion resp negotiated) = stagedAfter staged req resp := by
  unfold downgradeForVersion
  split
  any_goals split
  all_goals cases req <;> rfl

theorem tableAfter_downgrade (table : Fin n) (req : Request) (resp : Response)
    (negotiated : UInt32) :
    T.tableAfter table req (downgradeForVersion resp negotiated) = T.tableAfter table req resp := by
  unfold downgradeForVersion
  split
  any_goals split
  all_goals cases req <;> rfl

/-- What becomes of a connection in one turn of its loop. -/
structure After (options : ServeOptions) (c : Conn n) (req : Request)
    (served : Served n) : Prop where
  authenticated : served.conn.authenticated = c.authenticated ∨
    ∃ token, req = .authenticate token ∧ served.response = .ok ∧
      options.check token = served.conn.authenticated
  table : served.conn.table = T.tableAfter c.table req served.response
  session : served.conn.session = stagedAfter c.session req served.response
  stays : c.session.isSome = true → served.conn.table = c.table
  tidy : Tidy served.conn

theorem Tidy.withFirstFrame {c : Conn n} (h : Tidy c) : Tidy { c with firstFrame := false } :=
  ⟨h.capped, h.readYourWrites, h.validateOnStage, h.snapshotReads, h.version,
    fun hOpen => ⟨rfl, (h.settled hOpen).2⟩⟩

theorem hello_after (options : ServeOptions) {c : Conn n} (hTidy : Tidy c)
    (protocolVersion : UInt32) :
    T.After options c (.hello protocolVersion)
      ⟨(hello c protocolVersion).1, (hello c protocolVersion).2, false⟩ := by
  unfold hello
  split
  · exact ⟨Or.inl rfl, rfl, rfl, fun _ => rfl, hTidy.withFirstFrame⟩
  · next hFirst =>
    rw [Bool.or_eq_true, not_or, decide_eq_true_eq] at hFirst
    refine ⟨Or.inl rfl, rfl, rfl, fun _ => rfl, hTidy.capped, hTidy.readYourWrites,
      hTidy.validateOnStage, hTidy.snapshotReads, fun hOpen => ?_, fun hOpen =>
        ⟨rfl, (hTidy.settled hOpen).2⟩⟩
    exact absurd (hTidy.settled hOpen).1 hFirst.1

theorem authenticate_after (options : ServeOptions) (throttled : Bool) {c : Conn n} (hTidy : Tidy c)
    (token : String) (closed : Bool) :
    T.After options c (.authenticate token) ⟨(authenticate options throttled c token).1,
      (authenticate options throttled c token).2, closed⟩ := by
  have hFailed : Tidy { c with failures := c.failures + 1 } :=
    ⟨hTidy.capped, hTidy.readYourWrites, hTidy.validateOnStage, hTidy.snapshotReads, hTidy.version,
      hTidy.settled⟩
  unfold authenticate
  split
  · exact ⟨Or.inl rfl, rfl, rfl, fun _ => rfl, hTidy⟩
  · split
    · exact ⟨Or.inl rfl, rfl, rfl, fun _ => rfl, hFailed⟩
    · split
      · next cls hCheck =>
        exact ⟨Or.inr ⟨token, rfl, rfl, hCheck⟩, rfl, rfl, fun _ => rfl, hTidy.capped,
          hTidy.readYourWrites, hTidy.validateOnStage, hTidy.snapshotReads, hTidy.version,
          fun hOpen => ⟨(hTidy.settled hOpen).1, rfl⟩⟩
      · exact ⟨Or.inl rfl, rfl, rfl, fun _ => rfl, hFailed⟩

/-- A refusal at a gate keeps the connection as it is, its session included. -/
theorem After.refused (options : ServeOptions) {c : Conn n} (hTidy : Tidy c) {req : Request}
    {code : ErrorCode} (h : c.session = none ∨ (code = .unauthorized ∧ req ≠ .rollback)) :
    T.After options c req ⟨{ c with firstFrame := false }, errResponse code, false⟩ := by
  refine ⟨Or.inl rfl, ?_, ?_, fun _ => rfl, hTidy.withFirstFrame⟩
  · cases req <;> rfl
  · show c.session = stagedAfter c.session req (errResponse code)
    rcases h with h | ⟨rfl, h⟩
    · rw [h]
      cases req <;> cases code <;> rfl
    · cases req with
      | rollback => exact absurd rfl h
      | _ => rfl

/-- **The connection after a turn of its loop.** -/
theorem handle_after (options : ServeOptions) (throttled : Bool) {c : Conn n} (hTidy : Tidy c)
    (req : Request) :
    (T.handle options throttled c req).Meets (fun _ => True) (T.After options c req) := by
  have hBehind (hIs : ∀ v, req ≠ .hello v) (hIs' : ∀ token, req ≠ .authenticate token) :
      (T.handle options throttled c req).Meets (fun _ => True) (T.After options c req) := by
    unfold handle
    split
    · next v => exact absurd rfl (hIs v)
    · next token => exact absurd rfl (hIs' token)
    · dsimp only
      split
      · next hNone =>
        refine After.refused T options hTidy (Or.inl ?_)
        by_contra hOpen
        have hAuth := (hTidy.settled (Option.isSome_iff_ne_none.mpr hOpen)).2
        rw [hNone] at hAuth
        cases hAuth
      · next cls hAuth =>
        split
        · next hGate =>
          refine After.refused T options hTidy (Or.inr ⟨rfl, ?_⟩)
          rintro rfl
          rw [Bool.and_eq_true] at hGate
          cases hGate.2
        · have hSettled : ({ c with firstFrame := false } : Conn n).firstFrame = false ∧
              ({ c with firstFrame := false } : Conn n).authenticated.isSome = true := by
            refine ⟨rfl, ?_⟩
            rw [hAuth]
            rfl
          apply (T.request_follows hTidy.withFirstFrame hSettled req).bind
          intro r hFollows
          refine ⟨Or.inl hFollows.authenticated, ?_, ?_, hFollows.stays, hFollows.tidy⟩
          · exact hFollows.table.trans (T.tableAfter_downgrade ..).symm
          · exact hFollows.session.trans (stagedAfter_downgrade ..).symm
  cases req with
  | hello v => exact T.hello_after options hTidy v
  | authenticate token =>
    have hAfter := T.authenticate_after options throttled hTidy.withFirstFrame token
    exact ⟨(hAfter _).authenticated, (hAfter _).table, (hAfter _).session, (hAfter _).stays,
      (hAfter _).tidy⟩
  | _ => exact hBehind nofun nofun

end Tables

end MultimodalDb
