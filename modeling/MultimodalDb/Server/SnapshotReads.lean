import MultimodalDb.Lib.Capped
import MultimodalDb.Server.Sessions

/-!
# Snapshot-checked sessions

A session that was begun with the snapshot flag keeps the committed values that its reads of records
found, and its commit hands them over to be checked where the transaction is applied. Only `GetById`
is tracked: the other reads have no key that could be looked up again.

* `request_reads`: what becomes of the tracked reads, told from the request and what it fetched.
* `handle_commits`: a commit hands over its tracked reads, and its answer is the answer of the
  apply.
* `read_set_checked`: over every run, what an apply is handed, and what it does with it.
-/

namespace MultimodalDb

open Program

variable {n : Nat} {σ : Fin n → Type}

/-- The writes that a call applies as a transaction, and the reads that it checks before. -/
def Call.applied? (c : Call n) : Option (Batch × List TrackedRead) :=
  match c.call with
  | .write (.applyTransaction updates readSet) | .write (.applyTurn updates readSet) =>
    some (updates, readSet)
  | _ => none

/-- The transaction that a call applied went through. -/
def Call.succeeded (c : Call n) (reply : c.Reply) : Bool :=
  match c, reply with
  | ⟨_, .write (.applyTransaction ..)⟩, .ok _ | ⟨_, .write (.applyTurn ..)⟩, .ok _ => true
  | _, _ => false

abbrev ReadLog := List ((RecordId × FieldRef) × ScanValue)

/-- The fields that a read of a record found. -/
def Call.fetched (c : Call n) (reply : c.Reply) : ReadLog :=
  match c, reply with
  | ⟨_, .read (.get id)⟩, some fields => fields.map fun (field, value) => ((id, field), value)
  | _, _ => []

/-- The fields that a request fetched for a session to track. -/
def fetchedBy (req : Request) (c : Call n) (reply : c.Reply) : ReadLog :=
  match req with
  | .getById _ => c.fetched reply
  | _ => []

/-! ## What the acts of a connection tell -/

def logAfter (log : ReadLog) (req : Request) (resp : Response) : ReadLog :=
  match req, resp with
  | .begin, .ok | .beginWith _, .ok => []
  | _, _ => log

/-- The fields read by `GetById` since the last `Begin`, in order, as the table had them. -/
def fetchedSince : List (Act σ) → ReadLog
  | [] => []
  | .answered req resp :: acts => logAfter (fetchedSince acts) req resp
  | .called c reply _ :: acts =>
    fetchedSince acts ++ (servingOf acts).elim [] fun req => fetchedBy req c reply
  | _ :: acts => fetchedSince acts

/-- Whether the open session checks its reads. -/
def snapshotAfter (on : Bool) (req : Request) (resp : Response) : Bool :=
  match req, resp with
  | .begin, .ok => false
  | .beginWith flags, .ok => Tables.hasFlag flags SESSION_SNAPSHOT_ISOLATION
  | .commit, .err .unauthorized _ => on
  | .commit, _ => false
  | .rollback, _ => false
  | _, _ => on

def snapshotSince : List (Act σ) → Bool
  | [] => false
  | .answered req resp :: acts => snapshotAfter (snapshotSince acts) req resp
  | .hungUp :: _ => false
  | _ :: acts => snapshotSince acts

/-- The calls made for the request that is being served. -/
def madeSince : List (Act σ) → Trace (Call n) Call.Reply
  | .called c reply _ :: acts => ⟨c, reply⟩ :: madeSince acts
  | _ => []

/-- The fields that the calls of a request fetched. -/
def fetchedOf (req : Request) : Trace (Call n) Call.Reply → ReadLog
  | [] => []
  | ⟨c, reply⟩ :: made => fetchedOf req made ++ fetchedBy req c reply

theorem fetchedOf_other {req : Request} (h : ∀ id, req ≠ .getById id)
    (made : Trace (Call n) Call.Reply) :
    fetchedOf req made = [] := by
  induction made with
  | nil => rfl
  | cons m made ih =>
    rw [fetchedOf, ih, List.nil_append]
    cases req with
    | getById id => exact absurd rfl (h id)
    | _ => rfl

/-! ## The tracked reads of a connection -/

theorem trackRead_eq (reads : ReadSet) (key : RecordId × FieldRef) (value : ScanValue) :
    trackRead reads key value = Capped.put MAX_TRACKED_READS reads key value := by
  unfold trackRead Capped.put
  congr

theorem recordReadSet_eq (reads : ReadSet) (id : RecordId) (fields : Fields) :
    recordReadSet reads id fields =
      Capped.collect MAX_TRACKED_READS reads
        (fields.map fun (field, value) => ((id, field), value)) := by
  unfold recordReadSet Capped.collect
  rw [List.foldl_map]
  simp only [trackRead_eq]

/-- The tracked reads of a connection, after a request that fetched some fields. -/
def readsAfter (reads : Option ReadSet) (req : Request) (fetched : ReadLog) (resp : Response) :
    Option ReadSet :=
  match req, resp with
  | .begin, .ok => none
  | .beginWith flags, .ok =>
    if Tables.hasFlag flags SESSION_SNAPSHOT_ISOLATION then some [] else none
  | .commit, .err .unauthorized _ => reads
  | .commit, _ => none
  | .rollback, _ => none
  | .getById _, _ => reads.map fun reads => Capped.collect MAX_TRACKED_READS reads fetched
  | _, _ => reads

/-- What the tracked reads of a connection hold. -/
structure Reading (reads : Option ReadSet) (on : Bool) (log : ReadLog) : Prop where
  on : reads.isSome = on
  holds : ∀ entries, reads = some entries → Capped.Holds MAX_TRACKED_READS log entries

theorem Reading.after {reads : Option ReadSet} {on : Bool} {log fetched : ReadLog}
    (h : Reading reads on log) {req : Request} (hFetched : (∀ id, req ≠ .getById id) → fetched = [])
    (resp : Response) : Reading (readsAfter reads req fetched resp) (snapshotAfter on req resp)
      (logAfter (log ++ fetched) req resp) := by
  have hKept (hNot : ∀ id, req ≠ .getById id) : Reading reads on (log ++ fetched) := by
    rw [hFetched hNot, List.append_nil]
    exact h
  have hNone (log : ReadLog) : Reading none false log := ⟨rfl, nofun⟩
  cases req with
  | begin =>
    cases resp with
    | ok => exact hNone []
    | _ => exact hKept nofun
  | beginWith flags =>
    cases resp with
    | ok =>
      show Reading (if Tables.hasFlag flags SESSION_SNAPSHOT_ISOLATION = true then some []
        else none) _ []
      split
      · next hFlag =>
        refine ⟨hFlag.symm, fun entries hEntries => ?_⟩
        cases hEntries
        exact Capped.holds_nil _
      · next hFlag =>
        rw [Bool.not_eq_true] at hFlag
        exact ⟨hFlag.symm, nofun⟩
    | _ => exact hKept nofun
  | commit =>
    cases resp with
    | err code message =>
      cases code with
      | unauthorized => exact hKept nofun
      | _ => exact hNone _
    | _ => exact hNone _
  | rollback => exact hNone _
  | getById id =>
    refine ⟨?_, ?_⟩
    · show (reads.map _).isSome = on
      rw [Option.isSome_map]
      exact h.on
    · intro entries hEntries
      obtain ⟨old, hOld, rfl⟩ := Option.map_eq_some_iff.mp hEntries
      exact (h.holds old hOld).collect fetched
  | _ => exact hKept nofun

/-- The reads that a commit hands over: the first distinct keys fetched, each with the value fetched
last; and none without the snapshot flag. -/
structure Checks (on : Bool) (log : ReadLog) (readSet : List TrackedRead) : Prop where
  off : on = false → readSet = []
  keys : on = true →
    readSet.map (fun (id, field, _) => (id, field)) = (Capped.keys log).take MAX_TRACKED_READS
  values : on = true → ∀ id field value, (id, field, value) ∈ readSet →
    Capped.lastOf log (id, field) = some value

theorem Reading.checks {reads : Option ReadSet} {on : Bool} {log : ReadLog}
    (h : Reading reads on log) :
    Checks on log (reads.elim [] trackedReads) := by
  cases reads with
  | none =>
    obtain rfl := h.on
    exact ⟨fun _ => rfl, nofun, nofun⟩
  | some entries =>
    obtain rfl := h.on
    have hHolds := h.holds entries rfl
    refine ⟨nofun, fun _ => ?_, fun _ id field value hMem => ?_⟩
    · rw [← hHolds.keys]
      show (entries.map _).map _ = _
      rw [List.map_map]
      rfl
    · obtain ⟨entry, hEntry, hEq⟩ := List.mem_map.mp hMem
      obtain ⟨⟨id', field'⟩, value'⟩ := entry
      cases hEq
      exact hHolds.values _ hEntry

namespace Tables

variable (T : Tables n σ)

/-- The tracked reads follow from the request, what it fetched, and the answer. -/
abbrev ReadsFollow (c : Conn n) (req : Request) (made : Trace (Call n) Call.Reply) (c' : Conn n)
    (resp : Response) : Prop :=
  c'.snapshotReads = readsAfter c.snapshotReads req (fetchedOf req made) resp

theorem yields_keep {c : Conn n} {req : Request}
    (h : ∀ log resp, readsAfter c.snapshotReads req log resp = c.snapshotReads)
    (p : Serving n Response) (made : Trace (Call n) Call.Reply) :
    (do return (c, ← p)).Yields
      (fun made (r : Conn n × Response) => ReadsFollow c req made r.1 r.2) made := by
  apply (yields_of_forall (R := fun _ _ => True) (fun _ _ => trivial) p made).bind
  exact fun made resp _ => (h _ resp).symm

/-- **The tracked reads after a request.** -/
theorem request_reads {c : Conn n} (hTidy : Tidy c) (req : Request) :
    (T.request c req).Yields (fun made r => ReadsFollow c req made r.1 r.2) [] := by
  have hClosed (hNone : c.session = none) : c.snapshotReads = none := by
    by_contra hSome
    have hOpen := hTidy.snapshotReads (Option.isSome_iff_ne_none.mpr hSome)
    rw [hNone] at hOpen
    cases hOpen
  -- An old connection has no session that its refusal could end.
  have hOld (hOld : c.negotiated < 3) : c.snapshotReads = none := by
    apply hClosed
    by_contra hOpen
    have hVersion := hTidy.version (Option.isSome_iff_ne_none.mpr hOpen)
    exact absurd hOld (UInt32.not_lt.mpr hVersion)
  cases req with
  | begin =>
    unfold request
    dsimp only
    split
    · exact rfl
    · show ReadsFollow c .begin [] (begin c).1 (begin c).2
      unfold begin
      split <;> rfl
  | beginWith flags =>
    unfold request
    dsimp only
    split
    · exact rfl
    · show ReadsFollow c (.beginWith flags) [] (T.beginWith c flags).1 (T.beginWith c flags).2
      unfold beginWith
      split
      · rfl
      · split <;> rfl
  | commit =>
    unfold request
    dsimp only
    split
    · next hVersion => exact hOld hVersion
    · unfold commit
      split
      · exact rfl
      · apply (yields_of_forall (R := fun _ _ => True) (fun _ _ => trivial) _ _).bind
        intro made reply _
        cases reply <;> exact rfl
  | rollback =>
    unfold request
    dsimp only
    split
    · next hVersion => exact hOld hVersion
    · exact rfl
  | getById id =>
    have hUntracked (hNone : c.snapshotReads = none) :
        (do return (c, ← T.dispatch c.table (.getById id)) : Serving n (Conn n × Response)).Yields
          (fun made r => ReadsFollow c (.getById id) made r.1 r.2) [] := by
      apply yields_keep
      intro log resp
      rw [hNone]
      rfl
    unfold request
    dsimp only
    split
    · next staged hStaged =>
      split
      · intro reply
        cases reply with
        | none =>
          show c.snapshotReads = c.snapshotReads.map fun reads => reads
          rw [Option.map_id']
        | some fields =>
          show c.snapshotReads.map (fun reads => recordReadSet reads id fields) =
            c.snapshotReads.map fun reads => Capped.collect MAX_TRACKED_READS reads _
          simp only [recordReadSet_eq]
          rfl
      · next hOff =>
        apply hUntracked
        rw [Bool.or_eq_true, not_or, Option.not_isSome_iff_eq_none, Option.not_isSome_iff_eq_none]
          at hOff
        exact hOff.2
    · next hNone => exact hUntracked (hClosed hNone)
  | updateField id field value =>
    unfold request
    dsimp only
    split
    · next staged hStaged =>
      have hPushed (made : Trace (Call n) Call.Reply) :
          ReadsFollow c (.updateField id field value) made
          (pushStaged c staged ⟨id, field, value⟩).1
            (pushStaged c staged ⟨id, field, value⟩).2 := by
        unfold pushStaged
        split <;> rfl
      unfold stage
      split
      · intro reply
        cases reply with
        | error code => exact rfl
        | ok _ => exact hPushed _
      · exact hPushed _
    · exact yields_keep (fun _ _ => rfl) _ _
  | use name =>
    unfold request
    dsimp only
    split
    · exact rfl
    · split
      · exact rfl
      · split <;> exact rfl
  | transaction | insert | link | replace | delete | compact | replaceIf | writeBatch | join
  | describeRelations | page | countEdges | listTables | filterEq | scanField | parent | children
  | neighbors | describeSchema | authenticate | hello | query | aggregate | neighborsByRelation
  | listRelationKinds => exact yields_keep (fun _ _ => rfl) _ _

theorem readsAfter_downgrade (reads : Option ReadSet) (req : Request) (fetched : ReadLog)
    (resp : Response)
    (negotiated : UInt32) : readsAfter reads req fetched (downgradeForVersion resp negotiated) =
      readsAfter reads req fetched resp := by
  unfold downgradeForVersion
  split
  any_goals split
  all_goals cases req <;> rfl

/-- **The tracked reads after a turn of the loop.** -/
theorem handle_reads (options : ServeOptions) (throttled : Bool) {c : Conn n} (hTidy : Tidy c)
    (req : Request) : (T.handle options throttled c req).Yields
      (fun made served => ReadsFollow c req made served.conn served.response) [] := by
  unfold handle
  split
  · next v =>
    show ReadsFollow c (.hello v) [] (hello c v).1 (hello c v).2
    unfold hello
    split <;> rfl
  · next token =>
    show ReadsFollow c (.authenticate token) [] (authenticate options throttled _ token).1 _
    unfold authenticate
    split
    · rfl
    · split
      · rfl
      · split <;> rfl
  · dsimp only
    split
    · next hNone =>
      show c.snapshotReads = readsAfter c.snapshotReads req [] (errResponse .unauthenticated)
      have hReads : c.snapshotReads = none := by
        by_contra hSome
        have hOpen := hTidy.snapshotReads (Option.isSome_iff_ne_none.mpr hSome)
        have hRole := (hTidy.settled hOpen).2
        rw [hNone] at hRole
        cases hRole
      rw [hReads]
      cases req <;> rfl
    · split
      · next hGate =>
        show c.snapshotReads = readsAfter c.snapshotReads req [] (errResponse .unauthorized)
        rw [Bool.and_eq_true] at hGate
        cases req with
        | rollback => cases hGate.2
        | getById id => cases hGate.2
        | _ => rfl
      · apply (T.request_reads hTidy.withFirstFrame req).bind
        intro made r hFollow
        exact hFollow.trans (readsAfter_downgrade ..).symm

/-! ## Commits -/

/-- The last call of a trace applied a transaction, which went through. -/
def Applied (made : Trace (Call n) Call.Reply) : Prop :=
  ∃ call reply rest, made = ⟨call, reply⟩ :: rest ∧ call.applied?.isSome = true ∧
    call.succeeded reply = true

/-- What a program of a commit does from a trace on: it hands over what its session holds, and an
apply is its last call and decides the answer. -/
structure Commits {α : Type} (batch : Batch) (readSet : List TrackedRead) (isOk : α → Prop)
    (made : Trace (Call n) Call.Reply) (p : Serving n α) : Prop where
  hands : p.Meets (fun call => ∀ handed, call.applied? = some handed → handed = (batch, readSet))
    fun _ => True
  last : p.Closes (fun call => call.applied?.isSome = true) fun call reply a =>
    (isOk a ↔ call.succeeded reply = true)
  told : p.Yields (fun made a => isOk a → Applied made) made

theorem Commits.next {α : Type} {batch : Batch} {readSet : List TrackedRead} {isOk : α → Prop}
    {made : Trace (Call n) Call.Reply} {call : Call n} {next : call.Reply → Serving n α}
    (h : Commits batch readSet isOk made (.call call next)) (reply : call.Reply) :
    Commits batch readSet isOk (⟨call, reply⟩ :: made) (next reply) :=
  ⟨h.hands.2 reply, (h.last reply).2, h.told reply⟩

/-- What is done with the outcome of a commit is no call. -/
theorem Commits.bind {α β : Type} {batch : Batch} {readSet : List TrackedRead} {isOk : α → Prop}
    {isOk' : β → Prop} {made : Trace (Call n) Call.Reply} {p : Serving n α}
    (h : Commits batch readSet isOk made p) {f : α → Serving n β}
    (hf : ∀ a, ∃ b, f a = .done b ∧ (isOk' b ↔ isOk a)) :
    Commits batch readSet isOk' made (p >>= f) := by
  constructor
  · apply h.hands.bind
    intro a _
    obtain ⟨b, hDone, -⟩ := hf a
    rw [hDone]
    trivial
  · apply h.last.bind
    intro a
    obtain ⟨b, hDone, hOk⟩ := hf a
    exact ⟨b, hDone, fun c r hReply => hOk.trans hReply⟩
  · apply h.told.bind
    intro made a hTold
    obtain ⟨b, hDone, hOk⟩ := hf a
    rw [hDone]
    exact fun hB => hTold (hOk.mp hB)

theorem commits_done {α : Type} (batch : Batch) (readSet : List TrackedRead)
    {isOk : α → Prop} {a : α} (h : ¬ isOk a) (made : Trace (Call n) Call.Reply) :
    Commits batch readSet isOk made (.done a) :=
  ⟨trivial, trivial, fun hOk => absurd hOk h⟩

theorem onlyReads_validateBatch (i : Fin n) (k : Nat) (ops : Batch) :
    OnlyReads (validateBatch i k ops) := by
  induction ops generalizing k with
  | nil => trivial
  | cons op ops ih =>
    apply OnlyReads.read_bind
    intro reply
    cases reply with
    | error code => trivial
    | ok _ => exact ih (k + 1)

theorem applied?_of_isRead {call : Call n} (h : call.isRead = true) : call.applied? = none := by
  obtain ⟨i, call⟩ := call
  cases call with
  | read r => rfl
  | write w => cases h
  | journal updates => cases h

/-- A program behind one that reads. -/
theorem Commits.behind {α β : Type} {batch : Batch} {readSet : List TrackedRead} {isOk : β → Prop}
    {made : Trace (Call n) Call.Reply} {p : Serving n α} (h : OnlyReads p) {f : α → Serving n β}
    (hf : ∀ a made, Commits batch readSet isOk made (f a)) :
    Commits batch readSet isOk made (p >>= f) := by
  have hNone : p.Meets (fun call => call.applied? = none) fun _ => True :=
    h.mono (fun _ hRead => applied?_of_isRead hRead) fun _ h => h
  constructor
  · apply (hNone.mono ?_ fun _ h => h).bind
    · exact fun a _ => (hf a []).hands
    · intro call hCall handed hHanded
      rw [hCall] at hHanded
      cases hHanded
  · apply Closes.behind (hNone.mono ?_ fun _ h => h)
    · exact fun a _ => (hf a []).last
    · intro call hCall hSome
      rw [hCall] at hSome
      cases hSome
  · apply (yields_of_forall (R := fun _ _ => True) (fun _ _ => trivial) p made).bind
    exact fun made a _ => (hf a made).told

theorem commits_write {i : Fin n} {w : Write} {batch : Batch} {readSet : List TrackedRead}
    {isOk : w.Reply → Prop} (hHands : (⟨i, .write w⟩ : Call n).applied? = some (batch, readSet))
    (hOk : ∀ reply, isOk reply ↔ (⟨i, .write w⟩ : Call n).succeeded reply = true)
    (made : Trace (Call n) Call.Reply) : Commits batch readSet isOk made (write i w) := by
  refine ⟨⟨fun handed h => Option.some.inj (h.symm.trans hHands), fun _ => trivial⟩, ?_, ?_⟩
  · exact fun reply => ⟨fun _ => ⟨reply, rfl, hOk reply⟩, trivial⟩
  · refine fun reply hReply => ⟨_, reply, made, rfl, ?_, (hOk reply).mp hReply⟩
    rw [hHands]
    rfl

theorem commits_applyTransaction (i : Fin n) (batch : Batch) (readSet : List TrackedRead)
    (made : Trace (Call n) Call.Reply) :
    Commits batch readSet (fun a => a = .ok ()) made (T.applyTransaction i batch readSet) := by
  unfold applyTransaction
  split
  · apply Commits.behind (onlyReads_validateBatch i 0 batch)
    intro reply made
    cases reply with
    | error e => exact commits_done _ _ nofun made
    | ok _ =>
      have hTurn (made : Trace (Call n) Call.Reply) :
          Commits batch readSet (fun a => a = .ok ()) made
          (write i (.applyTurn batch readSet) : Serving n _) := by
        apply commits_write rfl
        intro reply
        cases reply <;> simp [Call.succeeded]
      refine ⟨⟨nofun, fun taken => ?_⟩, fun taken => ⟨nofun, ?_⟩, fun taken => ?_⟩
      · cases taken with
        | false => trivial
        | true => exact (hTurn []).hands
      · cases taken with
        | false => trivial
        | true => exact (hTurn []).last
      · cases taken with
        | false => exact nofun
        | true => exact (hTurn _).told
  · refine commits_write (w := .applyTransaction batch readSet) rfl ?_ made
    intro reply
    cases reply <;> simp [Call.succeeded]

theorem downgrade_eq_ok (resp : Response) (negotiated : UInt32) :
    downgradeForVersion resp negotiated = .ok ↔ resp = .ok := by
  unfold downgradeForVersion
  split
  any_goals split
  all_goals simp [transactionFailed]

/-- **Commits.** A commit hands over what its session holds, and an apply decides its answer. -/
theorem handle_commits (options : ServeOptions) (throttled : Bool) (c : Conn n) :
    Commits (c.session.getD []) (c.snapshotReads.elim [] trackedReads)
      (fun served : Served n => served.response = .ok) []
        (T.handle options throttled c .commit) := by
  unfold handle
  dsimp only
  split
  · exact commits_done _ _ nofun _
  · split
    · exact commits_done _ _ nofun _
    · have hCommit : Commits (c.session.getD []) (c.snapshotReads.elim [] trackedReads)
          (fun r : Conn n × Response => r.2 = .ok) []
            (T.request { c with firstFrame := false } .commit) := by
        unfold request
        dsimp only
        split
        · exact commits_done _ _ nofun _
        · unfold commit
          dsimp only
          split
          · exact commits_done _ _ nofun _
          · next staged hStaged =>
            rw [hStaged]
            apply (T.commits_applyTransaction c.table staged _ []).bind
            intro reply
            cases reply with
            | error e => exact ⟨_, rfl, nofun, nofun⟩
            | ok _ => exact ⟨_, rfl, fun _ => rfl, fun _ => rfl⟩
      apply hCommit.bind
      exact fun r => ⟨_, rfl, downgrade_eq_ok r.2 _⟩

/-! ## Connections of a run -/

variable (options : ServeOptions)

/-- What is known of the tracked reads of the connection behind a thread. -/
def Snapped (acts : List (Act σ)) : Worker n → Prop
  | .idle c => Reading c.snapshotReads (snapshotSince acts) (fetchedSince acts)
  | .serving c req program =>
    (∃ log, fetchedSince acts = log ++ fetchedOf req (madeSince acts) ∧
      Reading c.snapshotReads (snapshotSince acts) log) ∧
    program.Yields (fun made served => ReadsFollow c req made served.conn served.response)
      (madeSince acts) ∧
    (req = .commit → Commits (c.session.getD []) (c.snapshotReads.elim [] trackedReads)
      (fun served : Served n => served.response = .ok) (madeSince acts) program)
  | .absent | .closed => True

/-- Behind an apply there is only the answer left to give. -/
def Closing (acts : List (Act σ)) (worker : Worker n) : Prop :=
  ∀ (call : Call n) (reply : call.Reply) w rest, acts = .called call reply w :: rest →
    call.applied?.isSome = true → servingOf rest = some .commit →
    ∃ c served, worker = .serving c .commit (.done served) ∧
      (served.response = .ok ↔ call.succeeded reply = true)

/-- What an act of a connection is, told from the acts before it. -/
structure Proper (older : List (Act σ)) (act : Act σ) : Prop where
  reply : ∀ call reply w, act = .called call reply w → ∃ taken, reply = (T.answer taken call w).1
  checks : ∀ (call : Call n) reply w, act = .called call reply w → servingOf older = some .commit →
    ∀ updates readSet, call.applied? = some (updates, readSet) →
      Checks (snapshotSince older) (fetchedSince older) readSet
  applied : act = .answered .commit .ok →
    ∃ (call : Call n) (reply : call.Reply) (w : Contents σ) (rest : _),
    older = .called call reply w :: rest ∧ servingOf rest = some .commit ∧
      call.applied?.isSome = true ∧ call.succeeded reply = true
  answer : ∀ (call : Call n) reply w rest, older = .called call reply w :: rest →
    call.applied?.isSome = true → servingOf rest = some .commit →
    ∃ resp, act = .answered .commit resp ∧ (resp = .ok ↔ call.succeeded reply = true)

variable {T options}

theorem snapped_moves {w w' : Contents σ} {peer peer' : Peer σ}
    (hMoves : T.Moves options w peer peer' w')
    (hTracked : T.Tracked options peer.acts peer.worker) (h : Snapped peer.acts peer.worker) :
    Snapped peer'.acts peer'.worker := by
  cases hMoves with
  | accept certificate =>
    cases hTracked
    exact ⟨rfl, nofun⟩
  | receive req throttled =>
    refine ⟨⟨_, (List.append_nil _).symm, h⟩,
      T.handle_reads options throttled hTracked.tidy req, ?_⟩
    rintro rfl
    exact T.handle_commits options throttled _
  | @call c req acts taken here next =>
    obtain ⟨⟨log, hLog, hReading⟩, hFollow, hCommits⟩ := h
    refine ⟨⟨log, ?_, hReading⟩, hFollow _, fun hCommit => (hCommits hCommit).next _⟩
    show fetchedSince acts ++ (servingOf acts).elim [] (fun req => fetchedBy req here _) = _
    rw [hTracked.2.1, hLog, List.append_assoc]
    rfl
  | @respond c req acts served hOpen =>
    obtain ⟨⟨log, hLog, hReading⟩, hFollow, -⟩ := h
    have hFetched (hNot : ∀ id, req ≠ .getById id) : fetchedOf req (madeSince acts) = [] :=
      fetchedOf_other hNot _
    have hAfter := hReading.after hFetched served.response
    show Reading served.conn.snapshotReads _ (logAfter (fetchedSince acts) req served.response)
    rw [hLog, (hFollow : served.conn.snapshotReads = _)]
    exact hAfter
  | close | hangUp => trivial

theorem closing_moves {w w' : Contents σ} {peer peer' : Peer σ}
    (hMoves : T.Moves options w peer peer' w')
    (hTracked : T.Tracked options peer.acts peer.worker) (h : Snapped peer.acts peer.worker) :
    Closing peer'.acts peer'.worker := by
  intro call reply w₀ rest hActs hApplied hCommit
  cases hMoves with
  | accept | receive | respond | close | hangUp => cases hActs
  | @call c req acts taken here next =>
    cases hActs
    obtain rfl := Option.some.inj (hTracked.2.1.symm.trans hCommit)
    obtain ⟨served, hDone, hReply⟩ := ((h.2.2 rfl).last _).1 hApplied
    exact ⟨c, served, congrArg _ hDone, hReply⟩

theorem exists_of_madeSince {acts : List (Act σ)} {call : Call n} {reply : call.Reply}
    {rest : Trace (Call n) Call.Reply} (h : madeSince acts = ⟨call, reply⟩ :: rest) :
    ∃ w older, acts = .called call reply w :: older := by
  cases acts with
  | nil => cases h
  | cons act acts =>
    cases act with
    | called c r w =>
      cases h
      exact ⟨w, acts, rfl⟩
    | _ => cases h

theorem proper_answered {acts : List (Act σ)} {c : Conn n} {req : Request} {served : Served n}
    (hTracked : T.Tracked options acts (.serving c req (.done served)))
    (h : Snapped acts (.serving c req (.done served)))
    (hClosing : Closing acts (.serving c req (.done served))) :
    T.Proper acts (.answered req served.response) := by
  refine ⟨nofun, nofun, ?_, ?_⟩
  · intro hAct
    obtain ⟨rfl, hOk⟩ := Act.answered.inj hAct
    obtain ⟨call, reply, made, hMade, hApplied, hSucceeded⟩ := (h.2.2 rfl).told hOk
    obtain ⟨w, rest, rfl⟩ := exists_of_madeSince hMade
    exact ⟨call, reply, w, rest, rfl, hTracked.2.1, hApplied, hSucceeded⟩
  · intro call reply w rest hOlder hApplied hCommit
    obtain ⟨c', served', hWorker, hReply⟩ := hClosing call reply w rest hOlder hApplied hCommit
    cases hWorker
    exact ⟨_, rfl, hReply⟩

/-- An act that is neither a call nor an answer. -/
theorem proper_quiet {acts : List (Act σ)} {worker : Worker n} (hClosing : Closing acts worker)
    (hWorker : ∀ c req program, worker ≠ .serving c req program) {act : Act σ}
    (hCall : act.isCall = false) (hAnswer : act ≠ .answered .commit .ok) : T.Proper acts act := by
  have hOther (call : Call n) (reply : call.Reply) (w : Contents σ) : act ≠
      .called call reply w := by
    rintro rfl
    cases hCall
  refine ⟨?_, ?_, fun hAct => absurd hAct hAnswer, ?_⟩
  · exact fun call reply w hAct => absurd hAct (hOther call reply w)
  · exact fun call reply w hAct => absurd hAct (hOther call reply w)
  · intro call reply w rest hOlder hApplied hCommit
    obtain ⟨c, served, rfl, -⟩ := hClosing call reply w rest hOlder hApplied hCommit
    exact absurd rfl (hWorker _ _ _)

theorem proper_moves {w w' : Contents σ} {peer peer' : Peer σ}
    (hMoves : T.Moves options w peer peer' w')
    (hTracked : T.Tracked options peer.acts peer.worker) (h : Snapped peer.acts peer.worker)
    (hClosing : Closing peer.acts peer.worker) (hProper : Throughout T.Proper peer.acts) :
    Throughout T.Proper peer'.acts := by
  cases hMoves with
  | accept | receive | hangUp =>
    refine ⟨proper_quiet hClosing ?_ rfl ?_, hProper⟩
    · intro c req program hWorker
      cases hWorker
    · intro hAct
      cases hAct
  | respond | close => exact ⟨proper_answered hTracked h hClosing, hProper⟩
  | @call c req acts taken here next =>
    refine ⟨⟨?_, ?_, nofun, ?_⟩, hProper⟩
    · intro call reply w₀ hAct
      cases hAct
      exact ⟨taken, rfl⟩
    · intro call reply w₀ hAct hCommit updates readSet hApplied
      cases hAct
      obtain rfl := Option.some.inj (hTracked.2.1.symm.trans hCommit)
      obtain ⟨⟨log, hLog, hReading⟩, -, hCommits⟩ := h
      cases (hCommits rfl).hands.1 _ hApplied
      rw [hLog, fetchedOf_other (fun id hGet => by cases hGet), List.append_nil]
      exact hReading.checks
    · intro call reply w₀ rest hOlder hApplied hCommit
      obtain ⟨c', served, hWorker, -⟩ := hClosing call reply w₀ rest hOlder hApplied hCommit
      cases hWorker

theorem proper_of_reaches {s : Server σ} (h : T.Reaches options s) (k : Nat) :
    Throughout T.Proper (s.peers k).acts := by
  refine (peer_invariant (P := fun peer => (T.Tracked options peer.acts peer.worker ∧
    Snapped peer.acts peer.worker) ∧ Closing peer.acts peer.worker ∧ Throughout T.Proper peer.acts)
    ⟨⟨rfl, trivial⟩, nofun, trivial⟩ ?_ h k).2.2
  rintro w peer peer' w' hMoves ⟨⟨hTracked, hSnapped⟩, hClosing, hProper⟩
  exact ⟨⟨tracked_moves hMoves hTracked, snapped_moves hMoves hTracked hSnapped⟩,
    closing_moves hMoves hTracked hSnapped, proper_moves hMoves hTracked hSnapped hClosing hProper⟩

end Tables

/-! ## Servers of domains -/

namespace Catalog

variable (C : Catalog n)

/-- Every tracked read still finds its value in the table. -/
def Current (i : Fin n) (w : Contents C.Content) (readSet : List TrackedRead) : Prop :=
  ∀ id field value, (id, field, value) ∈ readSet →
    (C.table i).domain.current (w i) id field = some value

variable {C}

theorem checkReadSet_eq_ok {R V : Type} (D : Domain R V) (reads : List TrackedRead) (s : Stack R) :
    D.checkReadSet reads s = .ok () ↔
      ∀ id field value, (id, field, value) ∈ reads → D.current s id field = some value := by
  unfold Domain.checkReadSet
  split
  · next hAll =>
    simp only [List.all_eq_true, decide_eq_true_eq] at hAll
    exact iff_of_true rfl fun id field value hMem => hAll _ hMem
  · next hNot =>
    refine iff_of_false nofun fun hAll => hNot ?_
    simp only [List.all_eq_true, decide_eq_true_eq]
    exact fun read hMem => hAll _ _ _ hMem

/-- **An apply.** When a tracked read has changed it fails and changes nothing. -/
theorem refused_of_changed {call : Call n} {updates : Batch} {readSet : List TrackedRead}
    (hApplied : call.applied? = some (updates, readSet)) {w : Contents C.Content}
    (hChanged : ¬ C.Current call.table w readSet) (taken : Bool) :
    call.succeeded (C.tables.answer taken call w).1 = false ∧
      (C.tables.answer taken call w).2 = w := by
  have hCheck (e) (hCheck : (C.table call.table).domain.checkReadSet readSet (w call.table) = e) :
      ∃ code, e = .error code := by
    cases e with
    | error code => exact ⟨code, rfl⟩
    | ok _ => exact absurd ((checkReadSet_eq_ok _ _ _).mp hCheck) hChanged
  obtain ⟨code, hError⟩ := hCheck _ rfl
  obtain ⟨i, call⟩ := call
  cases call with
  | read r => cases hApplied
  | journal ops => cases hApplied
  | write x =>
    cases x with
    | applyTransaction ops reads =>
      cases hApplied
      have hWrite : ∃ e, (C.table i).write (.applyTransaction updates readSet) (w i) =
          (.error e, w i) := by
        show ∃ e, (C.table i).domain.applyTransaction ⟨updates, readSet⟩ (w i) = (.error e, w i)
        unfold Domain.applyTransaction
        split
        · exact ⟨_, rfl⟩
        · rw [hError]
          exact ⟨_, rfl⟩
      obtain ⟨e, hWrite⟩ := hWrite
      have hAnswer : C.tables.answer taken ⟨i, .write (.applyTransaction updates readSet)⟩ w =
          (.error e, Function.update w i (w i)) := by
        show (((C.table i).write _ (w i)).1, Function.update w i ((C.table i).write _ (w i)).2) = _
        rw [hWrite]
      rw [hAnswer, Function.update_eq_self]
      exact ⟨rfl, rfl⟩
    | applyTurn ops reads =>
      cases hApplied
      have hWrite : (C.table i).write (.applyTurn updates readSet) (w i) = (.error code, w i) := by
        show (C.table i).domain.takeTurn ⟨updates, readSet⟩ (w i) = (.error code, w i)
        unfold Domain.takeTurn
        rw [hError]
      have hAnswer : C.tables.answer taken ⟨i, .write (.applyTurn updates readSet)⟩ w =
          (.error code, Function.update w i (w i)) := by
        show (((C.table i).write _ (w i)).1, Function.update w i ((C.table i).write _ (w i)).2) = _
        rw [hWrite]
      rw [hAnswer, Function.update_eq_self]
      exact ⟨rfl, rfl⟩
    | _ => cases hApplied

/-- **Snapshot-checked sessions.** In every run of a server of domains, for every connection:

* a read of a record returns what its table holds at that step;
* what a commit hands over to be checked are the first distinct keys that `GetById` fetched since
  the session began, at most `MAX_TRACKED_READS`, each with the value fetched last; and nothing
  without the snapshot flag;
* where a tracked read has changed, the apply changes nothing, and the next thing that the
  connection does is to answer its commit with an error;
* behind every commit answered `Ok` there is an apply at which every tracked read still found its
  value. -/
theorem read_set_checked (C : Catalog n) (options : ServeOptions) {s : Server C.Content}
    (h : C.tables.Reaches options s) (k : Nat) :
    (∀ newer i id (reply : Option Fields) w older,
      (s.peers k).acts = newer ++ .called ⟨i, .read (.get id)⟩ reply w :: older →
      reply = (C.table i).domain.get (w i) id) ∧
    (∀ newer (call : Call n) (reply : call.Reply) w older,
      (s.peers k).acts = newer ++ .called call reply w :: older → servingOf older = some .commit →
      ∀ updates readSet, call.applied? = some (updates, readSet) →
        Checks (snapshotSince older) (fetchedSince older) readSet ∧
        (¬ C.Current call.table w readSet →
          (∀ taken, (C.tables.answer taken call w).2 = w) ∧
          ∀ later act, newer = later ++ [act] → ∃ resp, act = .answered .commit resp ∧
            resp ≠ .ok)) ∧
    ∀ newer older, (s.peers k).acts = newer ++ .answered .commit .ok :: older →
      ∃ (call : Call n) (reply : call.Reply) (w : Contents C.Content) (rest : _) (updates : Batch)
        (readSet : List TrackedRead), older = .called call reply w :: rest ∧
        servingOf rest = some .commit ∧ call.applied? = some (updates, readSet) ∧
        C.Current call.table w readSet := by
  have hProper := Tables.proper_of_reaches h k
  refine ⟨?_, ?_, ?_⟩
  · intro newer i id reply w older hActs
    rw [hActs] at hProper
    obtain ⟨taken, hReply⟩ := hProper.at.reply _ _ _ rfl
    exact hReply
  · intro newer call reply w older hActs hCommit updates readSet hApplied
    rw [hActs] at hProper
    refine ⟨hProper.at.checks _ _ _ rfl hCommit _ _ hApplied, fun hChanged => ⟨?_, ?_⟩⟩
    · exact fun taken => (refused_of_changed hApplied hChanged taken).2
    · intro later act hNewer
      obtain ⟨taken, hReply⟩ := hProper.at.reply _ _ _ rfl
      have hFailed := (refused_of_changed hApplied hChanged taken).1
      rw [← hReply] at hFailed
      rw [hNewer, List.append_assoc] at hProper
      obtain ⟨resp, hAct, hOk⟩ := hProper.at.answer _ _ _ _ rfl (by rw [hApplied]; rfl) hCommit
      refine ⟨resp, hAct, fun hResp => ?_⟩
      rw [hOk.mp hResp] at hFailed
      cases hFailed
  · intro newer older hActs
    rw [hActs] at hProper
    obtain ⟨call, reply, w, rest, rfl, hCommit, hApplied, hSucceeded⟩ := hProper.at.applied rfl
    obtain ⟨⟨updates, readSet⟩, hApplied⟩ := Option.isSome_iff_exists.mp hApplied
    refine ⟨call, reply, w, rest, updates, readSet, rfl, hCommit, hApplied, ?_⟩
    by_contra hChanged
    rw [List.append_cons] at hProper
    obtain ⟨taken, hReply⟩ := hProper.at.reply _ _ _ rfl
    have hFailed := (refused_of_changed hApplied hChanged taken).1
    rw [← hReply, hSucceeded] at hFailed
    cases hFailed

end Catalog

/-! ## A read that is not tracked -/

/-- The fields that an answer shows. -/
def Response.shows : Response → ReadLog
  | .record found fields => fields.map fun (field, value) => ((found, field), value)
  | .rows found => found.flatMap fun row => row.2.map fun (field, value) => ((row.1, field), value)
  | _ => []

/-- The fields shown since the last `Begin`, whatever request they answer. -/
def shownSince : List (Act σ) → ReadLog
  | [] => []
  | .answered req resp :: acts => logAfter (shownSince acts) req resp ++ resp.shows
  | _ :: acts => shownSince acts

/-- A server of memories that lists the first two. -/
def listedServer : Catalog 1 where
  name _ := "memory"
  table _ := Memory.table false
    (fun r s =>
      match r with
      | .allIds => [Uuid.ofNat 1, Uuid.ofNat 2].filter fun id => (s.rows id).isSome
      | r => r.nothing)
    fun _ => ⟨0, 0, 0, 0⟩
  primary := ⟨0, Nat.one_pos⟩

def listedWorld : Contents listedServer.Content := fun _ => Memory.sampleStack

/-- A session reads a memory, another connection counts an access, a query of the session shows the
count, and the other connection takes it back before the commit. -/
def queriesBetween : List (Nat × ConnEvent) :=
  [(0, .accept none), (0, .receive (.hello 22) false), (0, .respond true),
    (0, .receive (.beginWith SESSION_SNAPSHOT_ISOLATION) false), (0, .respond true),
    (0, .receive (.getById (Uuid.ofNat 1)) false), (0, .call true), (0, .respond true),
    (1, .accept none),
    (1, .receive (.updateField (Uuid.ofNat 1) Memory.FIELD_ACCESS_COUNT (.i64 7)) false),
    (1, .call true), (1, .respond true),
    (0, .receive (.query .all [] none) false), (0, .call true), (0, .call true), (0, .call true),
    (0, .respond true),
    (1, .receive (.updateField (Uuid.ofNat 1) Memory.FIELD_ACCESS_COUNT (.i64 0)) false),
    (1, .call true), (1, .respond true),
    (0, .receive .commit false), (0, .call true), (0, .respond true)]

/-- A commit was answered `Ok`, and the session was last shown another count than was stored then.
-/
def showedAnother (acts : List (Act listedServer.Content)) : Bool :=
  match acts with
  | .answered .commit .ok :: .called c _ w :: rest =>
    c.applied?.isSome && snapshotSince rest &&
      Capped.lastOf (shownSince rest) (Uuid.ofNat 1, Memory.FIELD_ACCESS_COUNT) = some (.i64 7) &&
      (listedServer.table c.table).domain.current (w c.table) (Uuid.ofNat 1)
        Memory.FIELD_ACCESS_COUNT = some (.i64 0)
  | _ => false

/-- A commit is answered `Ok` although the value that the session last read of a tracked key is
gone. -/
theorem query_is_not_tracked :
    ¬ ∀ (options : ServeOptions) (s : Server listedServer.Content) (k : Nat),
    listedServer.tables.Reaches options s →
      ∀ (call : Call 1) (reply : call.Reply) (w : Contents listedServer.Content) rest,
        (s.peers k).acts = .answered .commit .ok :: .called call reply w :: rest →
        call.applied?.isSome = true → snapshotSince rest = true →
        ∀ key value, Capped.lastOf (shownSince rest) key = some value →
          (listedServer.table call.table).domain.current (w call.table) key.1 key.2 =
            some value := by
  intro hClaim
  have hRun : (Machine.run (listedServer.tables.step ⟨none, none, []⟩) (Tables.started listedWorld)
      queriesBetween).any (fun s => showedAnother (s.peers 0).acts) = true := by decide +kernel
  obtain ⟨s, hRun, hShowed⟩ := (Option.any_eq_true _ _).mp hRun
  have hNever := hClaim _ s 0 ⟨_, Machine.runs_of_run hRun⟩
  unfold showedAnother at hShowed
  split at hShowed
  · next call reply w rest hActs =>
    simp only [Bool.and_eq_true, decide_eq_true_eq] at hShowed
    obtain ⟨⟨⟨hApplied, hOn⟩, hShown⟩, hStored⟩ := hShowed
    have hSame := hNever call reply w rest hActs hApplied hOn _ _ hShown
    rw [hStored] at hSame
    cases hSame
  · cases hShowed

/-- A session reads a memory, and another connection counts an access before the commit. -/
def countedBetween : List (Nat × ConnEvent) :=
  [(0, .accept none), (0, .receive (.hello 22) false), (0, .respond true),
    (0, .receive (.beginWith SESSION_SNAPSHOT_ISOLATION) false), (0, .respond true),
    (0, .receive (.getById (Uuid.ofNat 1)) false), (0, .call true), (0, .respond true),
    (1, .accept none),
    (1, .receive (.updateField (Uuid.ofNat 1) Memory.FIELD_ACCESS_COUNT (.i64 7)) false),
    (1, .call true), (1, .respond true),
    (0, .receive .commit false), (0, .call true), (0, .respond true)]

/-- A commit handed over a read that had changed. -/
def commitsOnChanged (acts : List (Act listedServer.Content)) : Bool :=
  match acts with
  | .answered .commit _ :: .called c _ w :: rest =>
    servingOf rest = some .commit && c.applied?.any fun (_, readSet) =>
      !readSet.all fun (id, field, value) =>
        (listedServer.table c.table).domain.current (w c.table) id field = some value
  | _ => false

/-- The commit of the first session finds what it tracked; that of the second does not, is refused,
and changes nothing. -/
theorem read_set_checked_sample :
    (∃ s, Machine.run (listedServer.tables.step ⟨none, none, []⟩) (Tables.started listedWorld)
      queriesBetween = some s ∧
      ∀ newer older, (s.peers 0).acts = newer ++ .answered .commit .ok :: older →
        ∃ (call : Call 1) (reply : call.Reply) (w : Contents listedServer.Content) (rest : _)
          (updates : Batch) (readSet : List TrackedRead), older = .called call reply w :: rest ∧
          servingOf rest = some .commit ∧ call.applied? = some (updates, readSet) ∧
          listedServer.Current call.table w readSet) ∧
    ∃ s, Machine.run (listedServer.tables.step ⟨none, none, []⟩) (Tables.started listedWorld)
      countedBetween = some s ∧
      ∃ (call : Call 1) (reply : call.Reply) (w : Contents listedServer.Content) (rest : _)
        (resp : Response),
        (s.peers 0).acts = .answered .commit resp :: .called call reply w :: rest ∧ resp ≠ .ok ∧
        ∀ taken, (listedServer.tables.answer taken call w).2 = w := by
  have hQueried : (Machine.run (listedServer.tables.step ⟨none, none, []⟩)
      (Tables.started listedWorld) queriesBetween).isSome = true := by decide +kernel
  have hCounted : (Machine.run (listedServer.tables.step ⟨none, none, []⟩)
      (Tables.started listedWorld)
      countedBetween).any (fun s => commitsOnChanged (s.peers 0).acts) = true := by decide +kernel
  constructor
  · obtain ⟨s, hRun⟩ := Option.isSome_iff_exists.mp hQueried
    exact ⟨s, hRun, (Catalog.read_set_checked listedServer _ ⟨_, Machine.runs_of_run hRun⟩ 0).2.2⟩
  · obtain ⟨s, hRun, hChanged⟩ := (Option.any_eq_true _ _).mp hCounted
    unfold commitsOnChanged at hChanged
    split at hChanged
    · next resp call reply w rest hActs =>
      rw [Bool.and_eq_true, decide_eq_true_eq, Option.any_eq_true] at hChanged
      obtain ⟨hCommit, ⟨updates, readSet⟩, hApplied, hStale⟩ := hChanged
      have hNot : ¬ listedServer.Current call.table w readSet := by
        intro hCurrent
        rw [Bool.not_eq_true', List.all_eq_false] at hStale
        obtain ⟨⟨id, field, value⟩, hMem, hOther⟩ := hStale
        exact hOther (decide_eq_true (hCurrent id field value hMem))
      obtain ⟨hSame, hLast⟩ :=
        ((Catalog.read_set_checked listedServer _ ⟨_, Machine.runs_of_run hRun⟩ 0).2.1
        [.answered .commit resp] call reply w rest hActs hCommit updates readSet hApplied).2 hNot
      obtain ⟨resp', hAct, hRefused⟩ := hLast [] _ rfl
      cases hAct
      exact ⟨s, hRun, call, reply, w, rest, resp, hActs, hRefused, hSame⟩
    · cases hChanged

end MultimodalDb
