import MultimodalDb.Server.Catalog
import MultimodalDb.Server.Requests
import Mathlib.Tactic.FinCases

/-!
# Sessions

The writes staged on a connection are told by its own requests and their answers: a session begins
with none, every `Staged` adds one, and a rollback or a commit that passes the read-only gate ends
it.

* `request_hands`: what a request hands to a transaction, and from which table.
* `session_machine`: over every run, a connection's session holds what was staged since it began, a
  commit hands over exactly that, and nothing else of a session reaches a table.
-/

namespace MultimodalDb

open Program

variable {n : Nat} {σ : Fin n → Type}

/-- The batch that a call hands to the adapter's transactions. -/
def Call.handed? (c : Call n) : Option Batch :=
  match c.call with
  | .journal updates | .write (.applyTransaction updates _) | .write (.applyTurn updates _) =>
    some updates
  | _ => none

/-! ## What the acts of a connection tell -/

/-- The writes staged since the last `Begin`, if nothing ended that session. -/
def stagedSince : List (Act σ) → Option Batch
  | [] => none
  | .answered req resp :: acts => Tables.stagedAfter (stagedSince acts) req resp
  | .hungUp :: _ => none
  | _ :: acts => stagedSince acts

def Act.beginsSession : Act σ → Bool
  | .answered .begin .ok | .answered (.beginWith _) .ok => true
  | _ => false

/-- A rollback, a hang-up, or a commit that was not refused at the read-only gate. -/
def Act.endsSession : Act σ → Bool
  | .answered .rollback _ | .hungUp => true
  | .answered .commit (.err .unauthorized _) => false
  | .answered .commit _ => true
  | _ => false

/-- Nothing is staged from the end of a session until the next one begins. -/
theorem stagedSince_ended {act : Act σ} (hEnds : act.endsSession = true) {acts : List (Act σ)}
    (hSince : ∀ later ∈ acts, later.beginsSession = false) (older : List (Act σ)) :
    stagedSince (acts ++ act :: older) = none := by
  induction acts with
  | nil =>
    unfold Act.endsSession at hEnds
    split at hEnds
    · rfl
    · rfl
    · cases hEnds
    · next resp hGate =>
      cases resp with
      | err code message =>
        cases code with
        | unauthorized => exact absurd rfl (hGate message)
        | _ => rfl
      | _ => rfl
    · cases hEnds
  | cons later acts ih =>
    have hNone := ih fun other hMem => hSince other (List.mem_cons_of_mem _ hMem)
    cases later with
    | accepted | received | called => exact hNone
    | hungUp => rfl
    | answered req resp =>
      have hNoBegin := hSince _ List.mem_cons_self
      show Tables.stagedAfter (stagedSince (acts ++ act :: older)) req resp = none
      rw [hNone]
      unfold Tables.stagedAfter
      split
      · cases hNoBegin
      · cases hNoBegin
      all_goals rfl

/-- The request that is being served. -/
def servingOf : List (Act σ) → Option Request
  | .received req :: _ => some req
  | .called .. :: acts => servingOf acts
  | _ => none

namespace Tables

variable (T : Tables n σ)

/-- The table in use. -/
def tableSince : List (Act σ) → Fin n
  | [] => T.primary
  | .answered req resp :: acts => T.tableAfter (tableSince acts) req resp
  | _ :: acts => tableSince acts

/-- The table that was in use at the last `Begin`. -/
def beganOn : List (Act σ) → Fin n
  | [] => T.primary
  | .answered .begin .ok :: acts | .answered (.beginWith _) .ok :: acts => T.tableSince acts
  | _ :: acts => beganOn acts

/-! ## What a request hands over -/

/-- A program that hands nothing to a transaction. -/
abbrev HandsNothing {α : Type} (p : Serving n α) : Prop :=
  p.Meets (fun c => c.handed? = none) fun _ => True

theorem HandsNothing.bind {α β : Type} {p : Serving n α} {f : α → Serving n β} (h : HandsNothing p)
    (hf : ∀ a, HandsNothing (f a)) : HandsNothing (p >>= f) :=
  Meets.bind h fun a _ => hf a

theorem HandsNothing.read_bind {α : Type} {i : Fin n} {r : Read} {f : r.Reply → Serving n α}
    (h : ∀ reply, HandsNothing (f reply)) : HandsNothing (read i r >>= f) :=
  And.intro rfl h

theorem HandsNothing.write_bind {α : Type} {i : Fin n} {w : Write} {f : w.Reply → Serving n α}
    (hw : (⟨i, .write w⟩ : Call n).handed? = none) (h : ∀ reply, HandsNothing (f reply)) :
    HandsNothing (write i w >>= f) :=
  And.intro hw h

theorem OnlyReads.handsNothing {α : Type} {p : Serving n α} (h : OnlyReads p) : HandsNothing p := by
  apply Meets.mono h
  · intro c hRead
    obtain ⟨i, call⟩ := c
    cases call with
    | read r => rfl
    | write w => cases hRead
    | journal updates => cases hRead
  · exact fun _ h => h

theorem handsNothing_applyWriteOp (i : Fin n) (op : WriteOp) :
    HandsNothing (applyWriteOp i op) := by
  cases op with
  | insert | replace | replaceIf | delete | link =>
    refine And.intro rfl fun reply => ?_
    rcases reply with code | outcome
    · trivial
    · cases outcome <;> trivial

theorem handsNothing_writeEach (i : Fin n) (atomic : Bool) (k : Nat) (ops : List WriteOp) :
    HandsNothing (writeEach i atomic k ops) := by
  induction ops generalizing k with
  | nil => trivial
  | cons op ops ih =>
    apply HandsNothing.bind (handsNothing_applyWriteOp i op)
    intro result
    split
    · trivial
    · exact HandsNothing.bind (ih (k + 1)) fun _ => trivial

theorem handsNothing_writeBatch (i : Fin n) (ops : List WriteOp) (atomic : Bool) :
    HandsNothing (T.writeBatch i ops atomic) := by
  unfold writeBatch
  split
  · exact And.intro rfl fun _ => trivial
  · exact handsNothing_writeEach i atomic 0 ops

theorem handsNothing_dispatch (i : Fin n) {req : Request}
    (h : ∀ updates, req ≠ .transaction updates) :
    HandsNothing (T.dispatch i req) := by
  cases hWrite : isWrite req with
  | false => exact (T.onlyReads_dispatch i hWrite).handsNothing
  | true =>
    cases req with
    | updateField id field value =>
      refine And.intro rfl fun reply => ?_
      rcases reply with code | found
      · trivial
      · cases found <;> trivial
    | insert | link | replace | delete | compact =>
      refine And.intro rfl fun reply => ?_
      rcases reply with code | outcome
      · trivial
      · cases outcome <;> trivial
    | replaceIf id fields guard =>
      unfold dispatch
      dsimp only
      split
      · trivial
      · refine And.intro rfl fun reply => ?_
        rcases reply with code | outcome
        · trivial
        · cases outcome <;> trivial
    | writeBatch ops atomic =>
      apply HandsNothing.bind (T.handsNothing_writeBatch i ops atomic)
      intro reply
      cases reply <;> trivial
    | commit => trivial
    | transaction updates => exact absurd rfl (h updates)
    | _ => cases hWrite

theorem handsNothing_detachRelations (j : Fin n) (this : String) (id : RecordId)
    (relations : List RelationDescriptor) : HandsNothing (detachRelations j this id relations) := by
  induction relations with
  | nil => trivial
  | cons relation relations ih =>
    unfold detachRelations
    split
    · apply HandsNothing.write_bind rfl
      intro reply
      split
      · exact ih
      · exact ih
      · exact ih
      · trivial
    · exact ih

theorem handsNothing_detachTables (this : String) (id : RecordId) (js : List (Fin n)) :
    HandsNothing (T.detachTables this id js) := by
  induction js with
  | nil => trivial
  | cons j js ih =>
    unfold detachTables
    split
    · exact ih
    · apply HandsNothing.bind (T.onlyReads_describeRelations j).handsNothing
      intro relations
      apply HandsNothing.bind (handsNothing_detachRelations j this id relations)
      intro code
      cases code with
      | some code => trivial
      | none => exact ih

theorem handsNothing_deleteAcross (i : Fin n) (id : RecordId) :
    HandsNothing (T.deleteAcross i id) := by
  apply HandsNothing.bind (T.handsNothing_dispatch i (by nofun))
  intro resp
  split
  · exact T.handsNothing_detachTables _ id _
  · trivial

theorem handsNothing_linkAcross (i : Fin n) (left right : RecordId) (relation : String) :
    HandsNothing (T.linkAcross i left right relation) := by
  apply HandsNothing.bind (T.onlyReads_describeRelations i).handsNothing
  intro relations
  split
  · exact T.handsNothing_dispatch i (by nofun)
  · split
    · trivial
    · apply HandsNothing.read_bind
      intro reply
      cases reply with
      | none => trivial
      | some fields => exact T.handsNothing_dispatch i (by nofun)

/-- A transaction hands over its own batch, and to its own table. -/
theorem hands_applyTransaction (i : Fin n) (updates : Batch) (readSet : List TrackedRead) :
    (T.applyTransaction i updates readSet).Meets
      (fun c => ∀ batch, c.handed? = some batch → batch = updates ∧ c.table = i) fun _ => True := by
  have hValidate (k : Nat) (ops : Batch) : HandsNothing (validateBatch i k ops) := by
    induction ops generalizing k with
    | nil => trivial
    | cons op ops ih =>
      refine And.intro rfl fun reply => ?_
      cases reply with
      | error code => trivial
      | ok _ => exact ih (k + 1)
  have hChecked : (validateBatch i 0 updates).Meets
      (fun c => ∀ batch, c.handed? = some batch → batch = updates ∧ c.table = i) fun _ => True := by
    apply (hValidate 0 updates).mono
    · intro c hNone batch h
      rw [hNone] at h
      cases h
    · exact fun _ h => h
  unfold applyTransaction
  split
  · apply hChecked.bind
    intro reply _
    cases reply with
    | error e => trivial
    | ok _ =>
      refine And.intro (fun batch h => ⟨(Option.some.inj h).symm, rfl⟩) fun taken => ?_
      cases taken with
      | false => trivial
      | true => exact And.intro (fun batch h => ⟨(Option.some.inj h).symm, rfl⟩) fun _ => trivial
  · exact And.intro (fun batch h => ⟨(Option.some.inj h).symm, rfl⟩) fun _ => trivial

/-- What a request may hand over: a one-shot transaction its updates, outside a session; a commit
what is staged, on the session's table. -/
def Hands (c : Conn n) (req : Request) (call : Call n) : Prop :=
  ∀ batch, call.handed? = some batch → (req = .transaction batch ∧ c.session = none) ∨
    (req = .commit ∧ c.session = some batch ∧ call.table = c.table)

theorem HandsNothing.hands {α : Type} {p : Serving n α} (h : HandsNothing p) (c : Conn n)
    (req : Request) : p.Meets (Hands c req) fun _ => True := by
  apply Meets.mono h
  · intro call hNone batch hSome
    rw [hNone] at hSome
    cases hSome
  · exact fun _ h => h

theorem handsNothing_keep {c : Conn n} {p : Serving n Response} (h : HandsNothing p) :
    HandsNothing (do return (c, ← p)) :=
  HandsNothing.bind h fun _ => trivial

theorem handsNothing_unstaged {c : Conn n} (since : UInt32) {p : Serving n Response}
    (h : HandsNothing p) : HandsNothing (unstaged c since p) := by
  unfold unstaged
  split
  · trivial
  · split
    · trivial
    · exact h

/-- **What a request hands over.** -/
theorem request_hands (c : Conn n) (req : Request) :
    (T.request c req).Meets (Hands c req) fun _ => True := by
  cases hWrite : isWrite req with
  | false => exact (T.onlyReads_request c (Or.inl hWrite)).handsNothing.hands c req
  | true =>
    cases req with
    | commit =>
      unfold request
      dsimp only
      split
      · trivial
      · unfold commit
        split
        · trivial
        · next staged hStaged =>
          apply Meets.bind ((T.hands_applyTransaction c.table staged _).mono ?_ fun _ h => h)
          · intro reply _
            cases reply <;> trivial
          · intro call hHands batch hSome
            obtain ⟨rfl, hTable⟩ := hHands batch hSome
            exact Or.inr ⟨rfl, hStaged, hTable⟩
    | transaction updates =>
      unfold request unstaged
      dsimp only
      split
      · trivial
      · next hClosed =>
        split
        · trivial
        · refine Meets.bind (Q := fun _ => True) ?_ fun _ _ => trivial
          apply Meets.bind ((T.hands_applyTransaction c.table updates []).mono ?_ fun _ h => h)
          · intro reply _
            cases reply <;> trivial
          · intro call hHands batch hSome
            obtain ⟨rfl, -⟩ := hHands batch hSome
            exact Or.inl ⟨rfl, Option.not_isSome_iff_eq_none.mp hClosed⟩
    | updateField id field value =>
      apply HandsNothing.hands
      unfold request
      dsimp only
      split
      · exact (onlyReads_stage c _ _).handsNothing
      · exact handsNothing_keep (T.handsNothing_dispatch c.table (by nofun))
    | insert | replace | compact | replaceIf =>
      exact (handsNothing_keep (handsNothing_unstaged _
        (T.handsNothing_dispatch c.table (by nofun)))).hands c _
    | link left right relation =>
      exact (handsNothing_keep (handsNothing_unstaged _
        (T.handsNothing_linkAcross c.table left right relation))).hands c _
    | delete id =>
      exact (handsNothing_keep (handsNothing_unstaged _
        (T.handsNothing_deleteAcross c.table id))).hands c _
    | writeBatch ops atomic =>
      apply HandsNothing.hands
      apply handsNothing_keep
      apply handsNothing_unstaged
      split
      · trivial
      · exact T.handsNothing_dispatch c.table (by nofun)
    | _ => cases hWrite

/-- A call that a connection with an open session may make: a read, or a commit's. -/
def Staging (c : Conn n) (req : Request) (call : Call n) : Prop :=
  Hands c req call ∧ (call.isRead = true ∨ c.session = none ∨ req = .commit)

theorem handle_hands (options : ServeOptions) (throttled : Bool) (c : Conn n) (req : Request) :
    (T.handle options throttled c req).Meets (Staging c req) fun _ => True := by
  have hCalls : (T.request { c with firstFrame := false } req).Meets (Staging c req) fun _ =>
    True := by
    have hHands : (T.request { c with firstFrame := false } req).Meets (Hands c req) fun _ =>
      True :=
      T.request_hands { c with firstFrame := false } req
    by_cases hFree : c.session = none ∨ req = .commit
    · exact hHands.mono (fun _ h => ⟨h, Or.inr hFree⟩) fun _ h => h
    · rw [not_or] at hFree
      have hReads : OnlyReads (T.request { c with firstFrame := false } req) :=
        T.onlyReads_request _ (Or.inr ⟨Option.isSome_iff_ne_none.mpr hFree.1, hFree.2⟩)
      exact hHands.and hReads (fun _ h hRead => ⟨h, Or.inl hRead⟩) fun _ h _ => h
  unfold handle
  split
  · trivial
  · trivial
  · dsimp only
    split
    · trivial
    · split
      · trivial
      · exact hCalls.bind fun _ _ => trivial

/-! ## Connections of a run -/

variable (options : ServeOptions)

/-- What is known of the connection behind a thread. -/
structure Told (acts : List (Act σ)) (c : Conn n) : Prop where
  tidy : Tidy c
  session : c.session = stagedSince acts
  table : c.table = T.tableSince acts
  /-- A session is on the table it began on. -/
  began : (stagedSince acts).isSome = true → T.beganOn acts = T.tableSince acts

def Tracked (acts : List (Act σ)) : Worker n → Prop
  | .absent => acts = []
  | .idle c => T.Told acts c
  | .serving c req program =>
    T.Told acts c ∧ servingOf acts = some req ∧ program.Meets (Staging c req) (fun _ => True) ∧
      program.Meets (fun _ => True) (T.After options c req)
  | .closed => True

/-- Where a call stands among the acts of its connection. -/
structure Placed (older : List (Act σ)) (call : Call n) : Prop where
  hands : ∀ batch, call.handed? = some batch →
    (servingOf older = some (.transaction batch) ∧ stagedSince older = none) ∨
      (servingOf older = some .commit ∧ stagedSince older = some batch ∧
        call.table = T.beganOn older)
  reads : (stagedSince older).isSome = true → servingOf older ≠ some .commit → call.isRead = true

variable {T options}

theorem Told.placed {acts : List (Act σ)} {c : Conn n} {req : Request} {call : Call n}
    (h : T.Told acts c) (hServing : servingOf acts = some req) (hStaging : Staging c req call) :
    T.Placed acts call := by
  constructor
  · intro batch hHanded
    rcases hStaging.1 batch hHanded with ⟨rfl, hNone⟩ | ⟨rfl, hSome, hTable⟩
    · exact Or.inl ⟨hServing, h.session.symm.trans hNone⟩
    · have hStaged : stagedSince acts = some batch := h.session.symm.trans hSome
      refine Or.inr ⟨hServing, hStaged, ?_⟩
      rw [h.began (by rw [hStaged]; rfl), hTable, h.table]
  · intro hOpen hOther
    rcases hStaging.2 with hRead | hNone | rfl
    · exact hRead
    · rw [← h.session, hNone] at hOpen
      cases hOpen
    · exact absurd hServing hOther

/-- The table of a session is the one that its `Begin` found in use. -/
theorem began_answered {acts : List (Act σ)} {c : Conn n} {req : Request} {served : Served n}
    (h : T.Told acts c) (hAfter : T.After options c req served)
    (hOpen : (stagedSince (.answered req served.response :: acts)).isSome = true) :
    T.beganOn (.answered req served.response :: acts) =
      T.tableSince (.answered req served.response :: acts) := by
  obtain ⟨conn, resp, closed⟩ := served
  by_cases hBegan : (stagedSince acts).isSome = true
  · have hStays : T.tableAfter (T.tableSince acts) req resp = T.tableSince acts := by
      rw [← h.table]
      exact hAfter.table.symm.trans (hAfter.stays (by rw [h.session]; exact hBegan))
    show _ = T.tableAfter (T.tableSince acts) req resp
    rw [hStays]
    unfold beganOn
    split
    · next heq => cases heq
    · next heq =>
      cases heq
      rfl
    · next heq =>
      cases heq
      rfl
    · next heq =>
      cases heq
      exact h.began hBegan
  · -- Nothing was staged before, so the request was a `Begin`.
    rw [Option.not_isSome_iff_eq_none] at hBegan
    have hBegin : (stagedAfter none req resp).isSome = true := by
      rw [← hBegan]
      exact hOpen
    unfold stagedAfter at hBegin
    split at hBegin
    · rfl
    · rfl
    all_goals cases hBegin

theorem Told.answered {acts : List (Act σ)} {c : Conn n} {req : Request} {served : Served n}
    (h : T.Told acts c) (hAfter : T.After options c req served) :
    T.Told (.answered req served.response :: acts) served.conn := by
  refine ⟨hAfter.tidy, ?_, ?_, began_answered h hAfter⟩
  · exact hAfter.session.trans (congrArg (stagedAfter · req served.response) h.session)
  · exact hAfter.table.trans (congrArg (T.tableAfter · req served.response) h.table)

theorem told_admitted (T : Tables n σ) (options : ServeOptions) (certificate : Option Bytes) :
    T.Told [.accepted certificate] (T.admitted options certificate) :=
  ⟨⟨nofun, nofun, nofun, nofun, nofun, nofun⟩, rfl, rfl, fun _ => rfl⟩

theorem Told.quiet {acts acts' : List (Act σ)} {c : Conn n} (h : T.Told acts c)
    (hStaged : stagedSince acts' = stagedSince acts)
    (hTable : T.tableSince acts' = T.tableSince acts)
    (hBegan : T.beganOn acts' = T.beganOn acts) : T.Told acts' c := by
  refine ⟨h.tidy, h.session.trans hStaged.symm, h.table.trans hTable.symm, fun hOpen => ?_⟩
  rw [hBegan, hTable]
  exact h.began (by rw [← hStaged]; exact hOpen)

/-- **One step.** -/
theorem tracked_moves {w w' : Contents σ} {peer peer' : Peer σ}
    (hMoves : T.Moves options w peer peer' w')
    (h : T.Tracked options peer.acts peer.worker) : T.Tracked options peer'.acts peer'.worker := by
  cases hMoves with
  | accept certificate =>
    cases h
    exact told_admitted T options certificate
  | receive req throttled =>
    exact ⟨h.quiet rfl rfl rfl, rfl, T.handle_hands options throttled _ req,
      T.handle_after options throttled h.tidy req⟩
  | call taken here next =>
    obtain ⟨hTold, hServing, hStaging, hAfter⟩ := h
    exact ⟨hTold.quiet rfl rfl rfl, hServing, hStaging.2 _, hAfter.2 _⟩
  | respond served hOpen => exact h.1.answered h.2.2.2
  | close | hangUp => trivial

/-- Every call so far stands where it may. -/
def AllPlaced (T : Tables n σ) (acts : List (Act σ)) : Prop :=
  ∀ newer (c : Call n) (reply : c.Reply) (w : Contents σ) older,
    acts = newer ++ .called c reply w :: older → T.Placed older c

theorem AllPlaced.cons {acts : List (Act σ)} (h : T.AllPlaced acts) {act : Act σ}
    (hCalled : ∀ c reply w, act = .called c reply w → T.Placed acts c) :
    T.AllPlaced (act :: acts) := by
  intro newer c reply w older hActs
  cases newer with
  | nil =>
    obtain ⟨rfl, rfl⟩ := List.cons.inj hActs
    exact hCalled c reply w rfl
  | cons first newer => exact h newer c reply w older (List.cons.inj hActs).2

theorem AllPlaced.quiet {acts : List (Act σ)} (h : T.AllPlaced acts) {act : Act σ}
    (hCall : act.isCall = false) : T.AllPlaced (act :: acts) := by
  apply h.cons
  intro c reply w hAct
  rw [hAct] at hCall
  cases hCall

theorem placed_moves {w w' : Contents σ} {peer peer' : Peer σ}
    (hMoves : T.Moves options w peer peer' w')
    (h : T.Tracked options peer.acts peer.worker) (hPlaced : T.AllPlaced peer.acts) :
    T.AllPlaced peer'.acts := by
  cases hMoves with
  | accept | receive | respond | close | hangUp => exact hPlaced.quiet rfl
  | call taken here next =>
    apply hPlaced.cons
    intro c reply w hAct
    cases hAct
    exact h.1.placed h.2.1 h.2.2.1.1

theorem tracked_of_reaches {s : Server σ} (h : T.Reaches options s) (k : Nat) :
    T.Tracked options (s.peers k).acts (s.peers k).worker ∧ T.AllPlaced (s.peers k).acts := by
  refine peer_invariant (P := fun peer => T.Tracked options peer.acts peer.worker ∧
    T.AllPlaced peer.acts) ⟨rfl, ?_⟩ ?_ h k
  · intro newer c reply w older hActs
    cases newer <;> cases hActs
  · exact fun w peer peer' w' hMoves h => ⟨tracked_moves hMoves h.1, placed_moves hMoves h.1 h.2⟩

/-- A connection with an open session changes no table, unless it serves the commit. -/
theorem world_of_staging {w w' : Contents σ} {peer peer' : Peer σ}
    (hMoves : T.Moves options w peer peer' w') (h : T.Tracked options peer.acts peer.worker)
    (hOpen : (stagedSince peer.acts).isSome = true) (hOther : servingOf peer.acts ≠ some .commit) :
    w' = w := by
  cases hMoves with
  | accept | receive | respond | close | hangUp => rfl
  | call taken here next =>
    exact T.answer_of_isRead taken ((h.1.placed h.2.1 h.2.2.1.1).reads hOpen hOther) w

theorem Tracked.told {acts : List (Act σ)} {worker : Worker n} (h : T.Tracked options acts worker)
    {c : Conn n} (hConn : worker.conn? = some c) : T.Told acts c := by
  cases worker with
  | absent | closed => cases hConn
  | idle c' =>
    cases hConn
    exact h
  | serving c' req program =>
    cases hConn
    exact h.1

/-- **The session machine.** In every run of a server, for every connection:

* its session holds the writes staged since it began, in order and never more than the cap, and
  outside a session there is neither a mode nor a read set;
* whatever is handed to an adapter's transactions is the batch of a one-shot transaction, or a
  commit hands the table that was in use at the session's `Begin` exactly what was staged since;
* after a rollback, a hang-up or a commit that passed the read-only gate, nothing staged is handed
  over before another session begins;
* while a session is open, no step of the connection but its commit's changes a table, and none of
  them changes another connection. -/
theorem session_machine (T : Tables n σ) (options : ServeOptions) {s : Server σ}
    (h : T.Reaches options s) (k : Nat) :
    (∀ c, (s.peers k).worker.conn? = some c → c.session = stagedSince (s.peers k).acts ∧
      (∀ staged, c.session = some staged → staged.length ≤ MAX_STAGED_OPS) ∧
      (c.session = none →
        c.readYourWrites = none ∧ c.validateOnStage = false ∧ c.snapshotReads = none)) ∧
    (∀ newer (call : Call n) (reply : call.Reply) (w : Contents σ) older,
      (s.peers k).acts = newer ++ .called call reply w :: older →
      ∀ batch, call.handed? = some batch →
        (servingOf older = some (.transaction batch) ∧ stagedSince older = none) ∨
        (servingOf older = some .commit ∧ stagedSince older = some batch ∧
          call.table = T.beganOn older)) ∧
    (∀ newer (call : Call n) (reply : call.Reply) (w : Contents σ) since act older,
      (s.peers k).acts = newer ++ .called call reply w :: (since ++ act :: older) →
      act.endsSession = true → (∀ later ∈ since, later.beginsSession = false) →
      ∀ batch, call.handed? = some batch →
        servingOf (since ++ act :: older) = some (.transaction batch)) ∧
    ((stagedSince (s.peers k).acts).isSome = true → servingOf (s.peers k).acts ≠ some .commit →
      ∀ e s', T.step options s (k, e) = some s' →
        s'.world = s.world ∧ ∀ j, j ≠ k → s'.peers j = s.peers j) := by
  obtain ⟨hTracked, hPlaced⟩ := tracked_of_reaches h k
  refine ⟨?_, ?_, ?_, ?_⟩
  · intro c hConn
    have hTold := hTracked.told hConn
    refine ⟨hTold.session, hTold.tidy.capped, fun hNone => ⟨?_, ?_, ?_⟩⟩
    · by_contra hSome
      have hOpen := hTold.tidy.readYourWrites (Option.isSome_iff_ne_none.mpr hSome)
      rw [hNone] at hOpen
      cases hOpen
    · by_contra hOn
      have hOpen := hTold.tidy.validateOnStage (Bool.not_eq_false _ ▸ hOn)
      rw [hNone] at hOpen
      cases hOpen
    · by_contra hSome
      have hOpen := hTold.tidy.snapshotReads (Option.isSome_iff_ne_none.mpr hSome)
      rw [hNone] at hOpen
      cases hOpen
  · intro newer call reply w older hActs batch hHanded
    exact (hPlaced newer call reply w older hActs).hands batch hHanded
  · intro newer call reply w since act older hActs hEnds hSince batch hHanded
    rcases (hPlaced newer call reply w _ hActs).hands batch hHanded with h | h
    · exact h.1
    · rw [stagedSince_ended hEnds hSince] at h
      cases h.2.1
  · intro hOpen hOther e s' hStep
    obtain ⟨peer, hMoves, hPeers⟩ := moves_of_step hStep
    refine ⟨world_of_staging hMoves hTracked hOpen hOther, fun j hj => ?_⟩
    rw [hPeers]
    exact Function.update_of_ne hj _ _

end Tables

/-! ## A commit that is refused at the gate -/

/-- A write is staged, the connection's role is given up for a commit, and taken back for another.
-/
def commitsTwice : List (Nat × ConnEvent) :=
  [(0, .accept none), (0, .receive (.hello 22) false), (0, .respond true),
    (0, .receive (.authenticate "writer") false), (0, .respond true),
    (0, .receive .begin false), (0, .respond true),
    (0, .receive (.updateField (Uuid.ofNat 1) Memory.FIELD_ACCESS_COUNT (.i64 5)) false),
    (0, .respond true), (0, .receive (.authenticate "reader") false), (0, .respond true),
    (0, .receive .commit false), (0, .respond true),
    (0, .receive (.authenticate "writer") false), (0, .respond true),
    (0, .receive .commit false), (0, .call true)]

/-- The last call handed over a batch, and a commit was answered before with no session begun since.
-/
def handsAfterCommit (acts : List (Act σ)) : Bool :=
  match acts with
  | .called c _ _ :: .received .commit :: .answered (.authenticate _) .ok :: .received _ ::
      .answered .commit _ :: _ => c.handed?.isSome
  | _ => false

/-- A commit was answered, and the next one hands over what was staged before it. -/
theorem staged_outlives_commit : ¬ ∀ (options : ServeOptions)
    (s : Server (memoryServer false).Content) (k : Nat),
      (memoryServer false).tables.Reaches options s →
      ∀ newer (call : Call 2) (reply : call.Reply) (w : Contents
        (memoryServer false).Content) since resp
        older, (s.peers k).acts =
          newer ++ .called call reply w :: (since ++ .answered .commit resp :: older) →
      (∀ later ∈ since, later.beginsSession = false) →
      ∀ batch, call.handed? = some batch →
        servingOf (since ++ .answered .commit resp :: older) = some (.transaction batch) := by
  intro hClaim
  have hRun : (Machine.run ((memoryServer false).tables.step ⟨some "reader", some "writer", []⟩)
      (Tables.started (memoryWorld false)) commitsTwice).any
        (fun s => handsAfterCommit (s.peers 0).acts) = true := by decide +kernel
  obtain ⟨s, hRun, hHands⟩ := (Option.any_eq_true _ _).mp hRun
  have hNever := hClaim _ s 0 ⟨_, Machine.runs_of_run hRun⟩
  unfold handsAfterCommit at hHands
  split at hHands
  · next call reply w token req resp older hActs =>
    obtain ⟨batch, hBatch⟩ := Option.isSome_iff_exists.mp hHands
    have hServing := hNever [] call reply w
      [.received .commit, .answered (.authenticate token) .ok, .received req] resp older hActs
      (by intro later hMem; fin_cases hMem <;> rfl) batch hBatch
    cases hServing
  · cases hHands

/-- A session of one write, committed. -/
theorem session_machine_sample : ∃ s, Machine.run
    ((memoryServer false).tables.step ⟨some "reader", some "writer", []⟩)
      (Tables.started (memoryWorld false)) commitsTwice = some s ∧
    ∀ c, (s.peers 0).worker.conn? = some c → c.session = stagedSince (s.peers 0).acts := by
  have hRun : (Machine.run ((memoryServer false).tables.step ⟨some "reader", some "writer", []⟩)
      (Tables.started (memoryWorld false)) commitsTwice).isSome = true := by decide +kernel
  obtain ⟨s, hRun⟩ := Option.isSome_iff_exists.mp hRun
  have hMachine :=
    Tables.session_machine (memoryServer false).tables _ ⟨_, Machine.runs_of_run hRun⟩ 0
  exact ⟨s, hRun, fun c hConn => (hMachine.1 c hConn).1⟩

end MultimodalDb
