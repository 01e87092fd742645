import MultimodalDb.Server.Acceptance
import MultimodalDb.Server.SnapshotReads

/-!
# Sessions that validate their writes as they are staged

A write that such a session stages was accepted when it was staged. It stays accepted as long as no
one deletes its record, and then the commit is not refused because of it.

* `handle_marks`, `handle_stages`: the flags of a session after a request, and the read behind a
  write that is staged.
* `validated_commits`: what a run without such deletes keeps.
* `deleted_before_commit`: a run with one.
-/

namespace MultimodalDb

open Program

variable {n : Nat} {σ : Fin n → Type}

/-! ## What the acts of a connection tell -/

/-- Whether the open session validates what it stages. -/
def validatingAfter (on : Bool) (req : Request) (resp : Response) : Bool :=
  match req, resp with
  | .begin, .ok => false
  | .beginWith flags, .ok => Tables.hasFlag flags SESSION_VALIDATE_ON_STAGE
  | .commit, .err .unauthorized _ => on
  | .commit, _ => false
  | .rollback, _ => false
  | _, _ => on

def validatingSince : List (Act σ) → Bool
  | [] => false
  | .answered req resp :: acts => validatingAfter (validatingSince acts) req resp
  | .hungUp :: _ => false
  | _ :: acts => validatingSince acts

/-- A write that a read found to be accepted. -/
def Call.accepted? (c : Call n) (reply : c.Reply) : Option (Fin n × TransactionOp) :=
  match c, reply with
  | ⟨i, .read (.validateOp op)⟩, .ok _ => some (i, op)
  | _, _ => none

/-- The write that was just validated. -/
def justValidated : List (Act σ) → Option (Fin n × TransactionOp)
  | .called c reply _ :: _ => c.accepted? reply
  | _ => none

/-- The writes that a validating session counts on: those that it staged, and one that was just
validated. -/
def Peer.counted (peer : Peer σ) : List (Fin n × TransactionOp) :=
  match peer.worker.conn? with
  | some c =>
    if c.validateOnStage then
      (c.session.getD []).map (c.table, ·) ++ (justValidated peer.acts).toList else []
  | none => []

namespace Tables

variable (T : Tables n σ)

/-- What becomes of the flags of a session. -/
structure Marks (c : Conn n) (req : Request) (c' : Conn n) (resp : Response) : Prop where
  validating : c'.validateOnStage = validatingAfter c.validateOnStage req resp
  known : FlagsKnown c → FlagsKnown c'

theorem Marks.keep {c : Conn n} {req : Request}
    (h : ∀ resp, validatingAfter c.validateOnStage req resp = c.validateOnStage)
    (p : Serving n Response) :
    (do return (c, ← p)).Meets (fun _ => True) fun r : Conn n × Response => Marks c req r.1 r.2 :=
  p.meets_true.bind fun resp _ => ⟨(h resp).symm, id⟩

theorem flagsKnown_endSession {c : Conn n} : FlagsKnown (endSession c) := ⟨nofun, nofun⟩

/-- A flag is known from the version that brought it. -/
theorem known_of_hasFlag {negotiated flags : UInt32} (h : flags &&& ~~~knownFlags negotiated = 0) :
    (hasFlag flags SESSION_VALIDATE_ON_STAGE = true → 6 ≤ negotiated) ∧
      (hasFlag flags SESSION_SNAPSHOT_ISOLATION = true → 7 ≤ negotiated) := by
  have hUnknown : ∀ flag : UInt32, flag &&& ~~~knownFlags negotiated = flag →
      hasFlag flags flag = false := by
    intro flag hFlag
    have hNone : flags &&& flag = 0 := by
      rw [← hFlag, UInt32.and_comm flag, ← UInt32.and_assoc, h, UInt32.zero_and]
    rw [hasFlag, hNone]
    rfl
  constructor
  · intro hOn
    by_contra hOld
    rw [UInt32.not_le] at hOld
    have hOlder : ¬ (7 : UInt32) ≤ negotiated := by
      rw [UInt32.le_iff_toNat_le]
      rw [UInt32.lt_iff_toNat_lt] at hOld
      exact fun hNew => absurd (Nat.le_trans hNew hOld.le) (by decide)
    rw [hUnknown SESSION_VALIDATE_ON_STAGE (by
      rw [knownFlags, if_neg (UInt32.not_le.mpr hOld), if_neg hOlder]
      decide)] at hOn
    cases hOn
  · intro hOn
    by_contra hOld
    rw [hUnknown SESSION_SNAPSHOT_ISOLATION (by
      rw [knownFlags, if_neg hOld]
      split <;> decide)] at hOn
    cases hOn

/-- **The flags after a request.** -/
theorem request_marks {c : Conn n} (hTidy : Tidy c) (req : Request) :
    (T.request c req).Meets (fun _ => True) fun r => Marks c req r.1 r.2 := by
  -- An old connection has no session that its refusal could end.
  have hOld (hOld : c.negotiated < 3) : c.validateOnStage = false := by
    by_contra hOn
    have hOpen := hTidy.validateOnStage (Bool.not_eq_false _ ▸ hOn)
    exact absurd hOld (UInt32.not_lt.mpr (hTidy.version hOpen))
  cases req with
  | begin =>
    unfold request
    dsimp only
    split
    · exact ⟨rfl, id⟩
    · show Marks c .begin (begin c).1 (begin c).2
      unfold begin
      split
      · exact ⟨rfl, id⟩
      · exact ⟨rfl, fun _ => ⟨nofun, nofun⟩⟩
  | beginWith flags =>
    unfold request
    dsimp only
    split
    · exact ⟨rfl, id⟩
    · show Marks c (.beginWith flags) (T.beginWith c flags).1 (T.beginWith c flags).2
      unfold beginWith
      split
      · exact ⟨rfl, id⟩
      · next hFlags =>
        split
        · exact ⟨rfl, id⟩
        · have hKnown := known_of_hasFlag (not_not.mp hFlags)
          refine ⟨rfl, fun _ => ⟨hKnown.1, fun hSome => hKnown.2 ?_⟩⟩
          by_contra hOff
          rw [if_neg hOff] at hSome
          cases hSome
  | commit =>
    unfold request
    dsimp only
    split
    · next hVersion => exact ⟨hOld hVersion, id⟩
    · unfold commit
      split
      · exact ⟨rfl, fun _ => flagsKnown_endSession⟩
      · refine (meets_true _).bind fun reply _ => ?_
        cases reply <;> exact ⟨rfl, fun _ => flagsKnown_endSession⟩
  | rollback =>
    unfold request
    dsimp only
    split
    · next hVersion => exact ⟨hOld hVersion, id⟩
    · exact ⟨rfl, fun _ => flagsKnown_endSession⟩
  | getById id' =>
    unfold request
    dsimp only
    split
    · split
      · refine ⟨trivial, fun reply => ?_⟩
        cases reply with
        | none => exact ⟨rfl, id⟩
        | some fields =>
          refine ⟨rfl, fun hKnown => ⟨hKnown.validating, fun hSome => hKnown.snapshot ?_⟩⟩
          rwa [Option.isSome_map] at hSome
      · exact Marks.keep (fun _ => rfl) _
    · exact Marks.keep (fun _ => rfl) _
  | updateField id' field value =>
    unfold request
    dsimp only
    split
    · next staged hStaged =>
      have hPushed : Marks c (.updateField id' field value) (pushStaged c staged ⟨id',
          field, value⟩).1 (pushStaged c staged ⟨id', field, value⟩).2 := by
        unfold pushStaged
        split
        · exact ⟨rfl, fun hKnown => ⟨hKnown.validating, hKnown.snapshot⟩⟩
        · exact ⟨rfl, id⟩
      unfold stage
      split
      · refine ⟨trivial, fun reply => ?_⟩
        cases reply with
        | error code => exact ⟨rfl, id⟩
        | ok _ => exact hPushed
      · exact hPushed
    · exact Marks.keep (fun _ => rfl) _
  | use name =>
    unfold request
    dsimp only
    split
    · exact ⟨rfl, id⟩
    · split
      · exact ⟨rfl, id⟩
      · split
        · exact ⟨rfl, fun hKnown => ⟨hKnown.validating, hKnown.snapshot⟩⟩
        · exact ⟨rfl, id⟩
  | transaction | insert | link | replace | delete | compact | replaceIf | writeBatch | join
  | describeRelations | page | countEdges | listTables | filterEq | scanField | parent | children
  | neighbors | describeSchema | authenticate | hello | query | aggregate | neighborsByRelation
  | listRelationKinds => exact Marks.keep (fun _ => rfl) _

theorem validatingAfter_downgrade (on : Bool) (req : Request) (resp : Response)
    (negotiated : UInt32) :
    validatingAfter on req (downgradeForVersion resp negotiated) = validatingAfter on req resp := by
  unfold downgradeForVersion
  split
  any_goals split
  all_goals cases req <;> rfl

/-- **The flags after a turn of the loop.** -/
theorem handle_marks (options : ServeOptions) (throttled : Bool) {c : Conn n} (hTidy : Tidy c)
    (req : Request) :
    (T.handle options throttled c req).Meets (fun _ => True) fun served =>
      Marks c req served.conn served.response := by
  have hClosed (hNone : c.session = none) : c.validateOnStage = false := by
    by_contra hOn
    have hOpen := hTidy.validateOnStage (Bool.not_eq_false _ ▸ hOn)
    rw [hNone] at hOpen
    cases hOpen
  have hFirst : FlagsKnown c → FlagsKnown { c with firstFrame := false } :=
    fun h => ⟨h.validating, h.snapshot⟩
  unfold handle
  split
  · next v =>
    show Marks c (.hello v) (hello c v).1 (hello c v).2
    unfold hello
    split
    · exact ⟨rfl, hFirst⟩
    · next hNew =>
      -- The version is agreed on once, and before that there is no session.
      rw [Bool.or_eq_true, not_or, decide_eq_true_eq] at hNew
      have hNone : c.session = none := by
        by_contra hOpen
        exact absurd (hTidy.settled (Option.isSome_iff_ne_none.mpr hOpen)).1 hNew.1
      refine ⟨rfl, fun _ => ⟨fun hOn => ?_, fun hSome => ?_⟩⟩
      · have hOff := hClosed hNone
        rw [show c.validateOnStage = true from hOn] at hOff
        cases hOff
      · have hOpen := hTidy.snapshotReads hSome
        rw [hNone] at hOpen
        cases hOpen
  · next token =>
    show Marks c (.authenticate token) (authenticate options throttled _ token).1 _
    unfold authenticate
    split
    · exact ⟨rfl, hFirst⟩
    · split
      · exact ⟨rfl, fun h => ⟨h.validating, h.snapshot⟩⟩
      · split
        · exact ⟨rfl, fun h => ⟨h.validating, h.snapshot⟩⟩
        · exact ⟨rfl, fun h => ⟨h.validating, h.snapshot⟩⟩
  · dsimp only
    split
    · next hNone =>
      refine ⟨?_, hFirst⟩
      have hOff : c.validateOnStage = false := by
        by_contra hOn
        have hRole := (hTidy.settled (hTidy.validateOnStage (Bool.not_eq_false _ ▸ hOn))).2
        rw [hNone] at hRole
        cases hRole
      show c.validateOnStage = validatingAfter c.validateOnStage req (errResponse .unauthenticated)
      rw [hOff]
      cases req <;> rfl
    · split
      · next hGate =>
        refine ⟨?_, hFirst⟩
        show c.validateOnStage = validatingAfter c.validateOnStage req (errResponse .unauthorized)
        rw [Bool.and_eq_true] at hGate
        cases req with
        | rollback => cases hGate.2
        | _ => rfl
      · apply (T.request_marks hTidy.withFirstFrame req).bind
        intro r hMarks
        exact ⟨hMarks.validating.trans (validatingAfter_downgrade ..).symm,
          fun h => hMarks.known (hFirst h)⟩

/-- The read of a write that is staged. -/
def validation (c : Conn n) (op : TransactionOp) : Trace (Call n) Call.Reply :=
  [⟨⟨c.table, .read (.validateOp op)⟩, .ok ()⟩]

theorem downgrade_eq_staged (resp : Response) (negotiated : UInt32) (k : Nat) :
    downgradeForVersion resp negotiated = .staged k ↔ resp = .staged k := by
  unfold downgradeForVersion
  split
  any_goals split
  all_goals simp [transactionFailed]

/-- **Staging.** A validating session stages a write behind a read that accepted it. -/
theorem handle_stages (options : ServeOptions) (throttled : Bool) {c : Conn n} (hTidy : Tidy c)
    (hValidating : c.validateOnStage = true) (id : RecordId) (field : FieldRef)
    (value : ScanValue) :
    (T.handle options throttled c (.updateField id field value)).Yields
      (fun made served => ∀ k, served.response = .staged k → made = validation c ⟨id, field, value⟩)
        [] := by
  obtain ⟨staged, hStaged⟩ := Option.isSome_iff_exists.mp (hTidy.validateOnStage hValidating)
  unfold handle
  dsimp only
  split
  · exact nofun
  · split
    · exact nofun
    · unfold request
      dsimp only
      rw [hStaged]
      dsimp only
      rw [stage, if_pos hValidating]
      intro reply
      cases reply with
      | error code =>
        intro k hk
        rw [downgrade_eq_staged] at hk
        cases hk
      | ok u => exact fun _ _ => rfl

/-! ## Connections of a run -/

variable (options : ServeOptions)

/-- What is known of the flags of the connection behind a thread. -/
structure Marked (acts : List (Act σ)) (c : Conn n) : Prop where
  validating : c.validateOnStage = validatingSince acts
  known : FlagsKnown c

def Guarded (acts : List (Act σ)) : Worker n → Prop
  | .idle c => Marked acts c
  | .serving c req program =>
    Marked acts c ∧
    program.Meets (fun _ => True) (fun served => Marks c req served.conn served.response) ∧
    (∀ id field value, req = .updateField id field value → c.validateOnStage = true → program.Yields
      (fun made served => ∀ k, served.response = .staged k → made = validation c ⟨id, field, value⟩)
        (madeSince acts)) ∧
    (req = .commit → c.validateOnStage = true → ∀ batch, c.session = some batch →
      program.Returns (Call.Passed c.table batch) fun served => Settled served.response)
  | .absent | .closed => True

/-- The answer to the commit of a validating session. -/
def SettledAt (older : List (Act σ)) (act : Act σ) : Prop :=
  ∀ resp batch, act = .answered .commit resp → stagedSince older = some batch →
    validatingSince older = true → Settled resp

variable {T options}

theorem Marked.quiet {acts acts' : List (Act σ)} {c : Conn n} (h : Marked acts c)
    (hSame : validatingSince acts' = validatingSince acts) : Marked acts' c :=
  ⟨h.validating.trans hSame.symm, h.known⟩

theorem Marked.answered {acts : List (Act σ)} {c : Conn n} {req : Request} {served : Served n}
    (h : Marked acts c)
    (hMarks : Marks c req served.conn served.response) :
    Marked (.answered req served.response :: acts) served.conn := by
  refine ⟨hMarks.validating.trans ?_, hMarks.known h.known⟩
  rw [h.validating]
  rfl

/-- A write that is staged after a request was staged before, or it is the write of the request. -/
theorem mem_stagedAfter {on : Bool} {staged : Option Batch} {req : Request} {resp : Response}
    {batch : Batch}
    (hOn : validatingAfter on req resp = true) (hBatch : stagedAfter staged req resp = some batch)
    {op : TransactionOp} (hMem : op ∈ batch) : on = true ∧ ((∃ old, staged = some old ∧ op ∈ old) ∨
      ∃ k, req = .updateField op.id op.field op.value ∧ resp = .staged k) := by
  unfold stagedAfter at hBatch
  split at hBatch
  · cases hOn
  · obtain rfl := Option.some.inj hBatch
    cases hMem
  · next id field value k =>
    obtain ⟨old, rfl, rfl⟩ := Option.map_eq_some_iff.mp hBatch
    refine ⟨hOn, ?_⟩
    rcases List.mem_append.mp hMem with hOld | hNew
    · exact Or.inl ⟨old, rfl, hOld⟩
    · rw [List.mem_singleton.mp hNew]
      exact Or.inr ⟨k, rfl, rfl⟩
  · exact ⟨hOn, Or.inl ⟨batch, hBatch, hMem⟩⟩
  · cases hBatch
  · cases hBatch
  · next hBeginWith _ _ =>
    refine ⟨?_, Or.inl ⟨batch, hBatch, hMem⟩⟩
    unfold validatingAfter at hOn
    split at hOn
    · cases hOn
    · exact (hBeginWith _ rfl rfl).elim
    · exact hOn
    · cases hOn
    · cases hOn
    · exact hOn

end Tables

/-! ## Runs without deletes -/

namespace Catalog

open Tables

variable {C : Catalog n} {options : ServeOptions}

/-- No write that a validating session counts on loses its record to the next call of a connection.
-/
def Spares (s : Server C.Content) (e : Nat × ConnEvent) : Prop :=
  ∀ c req i x next, (s.peers e.1).worker = .serving c req (.call ⟨i, .write x⟩ next) →
    ∀ k op, (i, op) ∈ (s.peers k).counted → op.id ∉ (C.table i).removes x (s.world i)

/-- What a connection of such a run keeps. -/
structure Counts (C : Catalog n) (options : ServeOptions) (w : Contents C.Content)
    (peer : Peer C.Content) : Prop where
  tracked : C.tables.Tracked options peer.acts peer.worker
  guarded : Guarded peer.acts peer.worker
  accepted : ∀ p ∈ peer.counted, (C.table p.1).Accepts (w p.1) p.2
  settled : Throughout SettledAt peer.acts

theorem mem_counted_staged {peer : Peer C.Content} {c : Conn n} (hConn : peer.worker.conn? = some c)
    (hValidating : c.validateOnStage = true) {batch : Batch} (hSession : c.session = some batch)
    {op : TransactionOp} (hMem : op ∈ batch) : (c.table, op) ∈ peer.counted := by
  unfold Peer.counted
  rw [hConn]
  dsimp only
  rw [if_pos hValidating, hSession]
  exact List.mem_append_left _ (List.mem_map_of_mem hMem)

theorem mem_counted_validated {peer : Peer C.Content} {c : Conn n}
    (hConn : peer.worker.conn? = some c)
    (hValidating : c.validateOnStage = true) {p : Fin n × TransactionOp}
    (hJust : justValidated peer.acts = some p) :
    p ∈ peer.counted := by
  unfold Peer.counted
  rw [hConn]
  dsimp only
  rw [if_pos hValidating, hJust]
  exact List.mem_append_right _ (List.mem_singleton_self p)

theorem of_mem_counted {peer : Peer C.Content} {p : Fin n × TransactionOp} (h : p ∈ peer.counted) :
    ∃ c, peer.worker.conn? = some c ∧ c.validateOnStage = true ∧
      ((∃ batch, c.session = some batch ∧ p.1 = c.table ∧ p.2 ∈ batch) ∨
        justValidated peer.acts = some p) := by
  unfold Peer.counted at h
  split at h
  · next c hConn =>
    split at h
    · next hValidating =>
      refine ⟨c, hConn, hValidating, ?_⟩
      rcases List.mem_append.mp h with hStaged | hJust
      · obtain ⟨op, hMem, rfl⟩ := List.mem_map.mp hStaged
        cases hSession : c.session with
        | none =>
          rw [hSession] at hMem
          cases hMem
        | some batch =>
          rw [hSession] at hMem
          exact Or.inl ⟨batch, rfl, rfl, hMem⟩
      · exact Or.inr (Option.mem_toList.mp hJust)
    · cases h
  · cases h

theorem accepts_of_accepted? {c : Call n} {w : Contents C.Content} {taken : Bool}
    {p : Fin n × TransactionOp} (h : c.accepted? (C.tables.answer taken c w).1 = some p) :
    (C.table p.1).Accepts ((C.tables.answer taken c w).2 p.1) p.2 := by
  obtain ⟨i, call⟩ := c
  cases call with
  | journal updates => cases h
  | write x => cases h
  | read r =>
    cases r with
    | validateOp op =>
      change Call.accepted? (⟨i, .read (.validateOp op)⟩ : Call n)
        ((C.table i).read (.validateOp op) (w i)) = some p at h
      cases hRead : (C.table i).read (.validateOp op) (w i) with
      | error code =>
        rw [hRead] at h
        cases h
      | ok u =>
        rw [hRead] at h
        cases h
        exact Table.read_validateOp.mp hRead
    | _ => cases h

theorem counts_started {w : Contents C.Content} : Counts C options w ⟨.absent, []⟩ := by
  refine ⟨rfl, trivial, fun p hp => ?_, trivial⟩
  obtain ⟨c, hConn, -⟩ := of_mem_counted hp
  cases hConn

/-- **One step of a connection.** -/
theorem counts_moves {w w' : Contents C.Content} {peer peer' : Peer C.Content}
    (hMoves : C.tables.Moves options w peer peer' w') (h : Counts C options w peer)
    (hWorld : ∀ p ∈ peer.counted, (C.table p.1).Accepts (w' p.1) p.2) :
    Counts C options w' peer' := by
  obtain ⟨hTracked, hGuarded, hAccepted, hSettled⟩ := h
  have hTracked' := tracked_moves hMoves hTracked
  have hQuiet : ∀ {acts : List (Act C.Content)} {act : Act C.Content}, Throughout SettledAt acts →
      (∀ resp, act ≠ .answered .commit resp) → Throughout SettledAt (act :: acts) :=
    fun hOld hNot => ⟨fun resp _ hAct => absurd hAct (hNot resp), hOld⟩
  -- The answer to a request, which may be a commit.
  have hAnswered : ∀ {c req acts served}, peer = ⟨.serving c req (.done served), acts⟩ →
      Throughout SettledAt (.answered req served.response :: acts) := by
    rintro c req acts served rfl
    refine ⟨fun resp batch hAct hBatch hOn => ?_, hSettled⟩
    obtain ⟨rfl, rfl⟩ := Act.answered.inj hAct
    exact hGuarded.2.2.2 rfl (hGuarded.1.validating.trans hOn) batch
      (hTracked.1.session.trans hBatch)
  cases hMoves with
  | @accept acts certificate =>
    obtain rfl : acts = [] := hTracked
    refine ⟨hTracked', ⟨rfl, nofun, nofun⟩, fun p hp => ?_, hQuiet hSettled nofun⟩
    obtain ⟨c, hConn, hOn, -⟩ := of_mem_counted hp
    cases hConn
    cases hOn
  | @receive c acts req throttled =>
    refine ⟨hTracked', ⟨hGuarded.quiet rfl,
      C.tables.handle_marks options throttled hTracked.tidy req, ?_, ?_⟩,
      fun p hp => ?_, hQuiet hSettled nofun⟩
    · rintro id field value rfl hOn
      exact C.tables.handle_stages options throttled hTracked.tidy hOn id field value
    · rintro rfl hOn batch hBatch
      exact C.tables.handle_commit options throttled hTracked.tidy hGuarded.known hBatch hOn
    · obtain ⟨c', hConn, hOn, ⟨batch, hBatch, hTable, hMem⟩ | hJust⟩ := of_mem_counted hp
      · cases hConn
        obtain ⟨i, op⟩ := p
        obtain rfl : i = c.table := hTable
        exact hWorld _ (mem_counted_staged rfl hOn hBatch hMem)
      · cases hJust
  | @call c req acts taken here next =>
    obtain ⟨hMarked, hMeets, hStages, hCommit⟩ := hGuarded
    refine ⟨hTracked', ⟨hMarked.quiet rfl, hMeets.2 _, ?_, ?_⟩, fun p hp => ?_,
      hQuiet hSettled nofun⟩
    · exact fun id field value hReq hOn => hStages id field value hReq hOn _
    · intro hReq hOn batch hBatch
      refine hCommit hReq hOn batch hBatch _ (passed_answer taken here fun op hMem => ?_)
      exact hAccepted (c.table, op) (mem_counted_staged rfl hOn hBatch hMem)
    · obtain ⟨c', hConn, hOn, ⟨batch, hBatch, hTable, hMem⟩ | hJust⟩ := of_mem_counted hp
      · cases hConn
        obtain ⟨i, op⟩ := p
        obtain rfl : i = c.table := hTable
        exact hWorld _ (mem_counted_staged rfl hOn hBatch hMem)
      · exact accepts_of_accepted? hJust
  | @respond c req acts served hOpen =>
    obtain ⟨hMarked, hMarks, hStages, -⟩ := hGuarded
    refine ⟨hTracked', hMarked.answered hMarks, fun p hp => ?_, hAnswered rfl⟩
    obtain ⟨c', hConn, hOn, ⟨batch, hBatch, hTable, hMem⟩ | hJust⟩ := of_mem_counted hp
    · cases hConn
      obtain ⟨hTold, -, -, hAfter⟩ := hTracked
      have hAfter' : C.tables.After options c req served := hAfter
      obtain ⟨hOld, hCases⟩ :=
        mem_stagedAfter (hMarks.validating.symm.trans hOn) (hAfter'.session.symm.trans hBatch) hMem
      have hSame : served.conn.table = c.table := hAfter'.stays (hTold.tidy.validateOnStage hOld)
      obtain ⟨i, op⟩ := p
      obtain rfl : i = c.table := hTable.trans hSame
      rcases hCases with ⟨old, hSession, hOp⟩ | ⟨k, rfl, hStaged⟩
      · exact hWorld _ (mem_counted_staged rfl hOld hSession hOp)
      · have hMade : madeSince acts = validation c op :=
          hStages op.id op.field op.value rfl hOld k hStaged
        obtain ⟨w₀, older, rfl⟩ := exists_of_madeSince hMade
        exact hWorld _ (mem_counted_validated rfl hOld rfl)
    · cases hJust
  | close served =>
    refine ⟨hTracked', trivial, fun p hp => ?_, hAnswered rfl⟩
    obtain ⟨c', hConn, -⟩ := of_mem_counted hp
    cases hConn
  | hangUp =>
    refine ⟨hTracked', trivial, fun p hp => ?_, hQuiet hSettled nofun⟩
    obtain ⟨c', hConn, -⟩ := of_mem_counted hp
    cases hConn

/-- A step that spares the writes counted on leaves them accepted. -/
theorem accepts_of_spares {s : Server C.Content} {e : Nat × ConnEvent} {peer : Peer C.Content}
    {w' : Contents C.Content}
    (hSpares : Spares s e) (hMoves : C.tables.Moves options s.world (s.peers e.1) peer w') {k : Nat}
    (h : ∀ p ∈ (s.peers k).counted, (C.table p.1).Accepts (s.world p.1) p.2) :
    ∀ p ∈ (s.peers k).counted, (C.table p.1).Accepts (w' p.1) p.2 := by
  rintro ⟨i, op⟩ hp
  have hSpared := hSpares
  unfold Spares at hSpared
  generalize s.peers e.1 = mover at hMoves hSpared
  cases hMoves with
  | accept | receive | respond | close | hangUp => exact h _ hp
  | call taken here next =>
    refine accepts_answer taken (h _ hp) fun x hCall => ?_
    subst hCall
    exact hSpared _ _ i x next rfl k op hp

/-- **A write that was validated commits.** In every run in which no record that a validating
session counts on is deleted, the commit of such a session is answered `Ok`, or it is refused at the
read-only gate, or it could not be journaled, or a read of the session has changed. -/
theorem validated_commits (C : Catalog n) (options : ServeOptions) {w : Contents C.Content}
    {s : Server C.Content}
    (h : Machine.Runs (C.tables.step options) Spares (started w) s) (k : Nat) :
    ∀ newer resp older, (s.peers k).acts = newer ++ .answered .commit resp :: older →
      ∀ batch, stagedSince older = some batch → validatingSince older = true → Settled resp := by
  have hCounts : ∀ k, Counts C options s.world (s.peers k) := by
    refine h.invariant (P := fun s => ∀ k, Counts C options s.world (s.peers k))
      (fun _ => counts_started) ?_
    intro s e s' _ hHere hSpares hStep j
    obtain ⟨peer, hMoves, hPeers⟩ := moves_of_step hStep
    have hWorld := accepts_of_spares (k := j) hSpares hMoves (hHere j).accepted
    rw [hPeers]
    by_cases hj : j = e.1
    · subst hj
      rw [Function.update_self]
      exact counts_moves hMoves (hHere e.1) hWorld
    · rw [Function.update_of_ne hj]
      exact ⟨(hHere j).tracked, (hHere j).guarded, hWorld, (hHere j).settled⟩
  intro newer resp older hActs batch hBatch hOn
  have hSettled := (hCounts k).settled
  rw [hActs] at hSettled
  exact hSettled.at resp batch rfl hBatch hOn

/-- The next call of a connection is no delete and no atomic batch. -/
def deletesNothing (s : Server C.Content) (e : Nat × ConnEvent) : Bool :=
  match (s.peers e.1).worker with
  | .serving _ _ (.call ⟨_, .write (.deleteRecord _)⟩ _)
  | .serving _ _ (.call ⟨_, .write (.writeAtomic _)⟩ _) => false
  | _ => true

theorem spares_of_deletesNothing {s : Server C.Content} {e : Nat × ConnEvent}
    (h : deletesNothing s e = true) :
    Spares s e := by
  intro c req i x next hWorker k op _ hRemoved
  unfold deletesNothing at h
  rw [hWorker] at h
  cases x with
  | deleteRecord | writeAtomic => cases h
  | _ => cases hRemoved

end Catalog

/-! ## A record that is deleted before the commit -/

/-- A write is validated and staged, and committed behind what comes between. -/
def stagesThen (between : List (Nat × ConnEvent)) : List (Nat × ConnEvent) :=
  [(0, .accept none), (0, .receive (.hello 22) false), (0, .respond true),
    (0, .receive (.beginWith SESSION_VALIDATE_ON_STAGE) false), (0, .respond true),
    (0, .receive (.updateField (Uuid.ofNat 1) Memory.FIELD_ACCESS_COUNT (.i64 5)) false),
    (0, .call true), (0, .respond true),
    (1, .accept none), (1, .receive (.hello 22) false), (1, .respond true)] ++ between ++
  [(0, .receive .commit false), (0, .call true), (0, .respond true)]

/-- Another connection deletes the record. -/
def deletesBetween : List (Nat × ConnEvent) :=
  [(1, .receive (.delete (Uuid.ofNat 1)) false), (1, .call true), (1, .call true),
    (1, .respond true)]

/-- Another connection writes the field. -/
def updatesBetween : List (Nat × ConnEvent) :=
  [(1, .receive (.updateField (Uuid.ofNat 1) Memory.FIELD_ACCESS_COUNT (.i64 7)) false),
    (1, .call true), (1, .respond true)]

/-- The commit of a validating session did not find a record. -/
def foundNoRecord (acts : List (Act σ)) : Bool :=
  match acts with
  | .answered .commit (.transactionFailed _ .recordNotFound _) :: older =>
    (stagedSince older).isSome && validatingSince older
  | _ => false

/-- The write was answered `Staged`, and the commit is refused because of it. -/
theorem deleted_before_commit :
    ¬ ∀ (options : ServeOptions) (s : Server (memoryServer false).Content) (k : Nat),
    (memoryServer false).tables.Reaches options s →
      ∀ newer resp older, (s.peers k).acts = newer ++ .answered .commit resp :: older →
        ∀ batch, stagedSince older = some batch → validatingSince older = true →
          Tables.Settled resp := by
  intro hClaim
  have hRun : (Machine.run ((memoryServer false).tables.step ⟨none, none, []⟩)
      (Tables.started (memoryWorld false)) (stagesThen deletesBetween)).any
        (fun s => foundNoRecord (s.peers 0).acts) = true := by decide +kernel
  obtain ⟨s, hRun, hRefused⟩ := (Option.any_eq_true _ _).mp hRun
  have hSettled := hClaim _ s 0 ⟨_, Machine.runs_of_run hRun⟩
  unfold foundNoRecord at hRefused
  split at hRefused
  · next index message older hActs =>
    rw [Bool.and_eq_true] at hRefused
    obtain ⟨batch, hBatch⟩ := Option.isSome_iff_exists.mp hRefused.1
    rcases hSettled [] _ older hActs batch hBatch hRefused.2 with h | h | h | h <;> cases h
  · cases hRefused

/-- With another write between, the commit is answered. -/
theorem validated_commits_sample :
      ∃ s, Machine.run ((memoryServer false).tables.step ⟨none, none, []⟩)
      (Tables.started (memoryWorld false)) (stagesThen updatesBetween) = some s ∧
    ∀ newer resp older, (s.peers 0).acts = newer ++ .answered .commit resp :: older →
      ∀ batch, stagedSince older = some batch → validatingSince older = true →
        Tables.Settled resp := by
  have hRun : (Machine.run ((memoryServer false).tables.step ⟨none, none, []⟩)
      (Tables.started (memoryWorld false)) (stagesThen updatesBetween)).isSome = true := by
        decide +kernel
  have hAllowed : Machine.allowed ((memoryServer false).tables.step ⟨none, none, []⟩)
      Catalog.deletesNothing
      (Tables.started (memoryWorld false)) (stagesThen updatesBetween) = true := by decide +kernel
  obtain ⟨s, hRun⟩ := Option.isSome_iff_exists.mp hRun
  have hRuns := (Machine.runs_of_allowed hRun hAllowed).mono fun _ _ h =>
    Catalog.spares_of_deletesNothing h
  exact ⟨s, hRun, Catalog.validated_commits (memoryServer false) _ hRuns 0⟩

end MultimodalDb
