import MultimodalDb.Lib.Machine
import MultimodalDb.Server.Journal

/-!
# Group commit

The threads that commit batches through one journal. A thread appends its entry under the group's
lock and takes a sequence number, waits until a sync that covers the entry has returned, waits for
its turn, applies its batch to the store, and may then truncate the journal. The first thread that
finds no sync in flight leads one for everybody appended so far; the others sleep. Turns are passed
on in sequence order, by a guard that runs also when a batch is refused or its apply panics.

Everything between taking the lock and giving it up is one step, and so is everything under the
store's own lock; what the threads do in between may be interleaved in any way. A sleeping or parked
thread may wake without a reason. `history` keeps what happened, the newest first. It is not part of
the program: no step looks at it.
-/

namespace MultimodalDb

namespace CommitGroup

abbrev Thread := Nat

/-- What a batch may do in its turn. -/
structure Turn where
  checkpointDue : Bool
  deriving DecidableEq

inductive CommitError (ε : Type) where
  | journal (e : JournalError)
  | apply (e : ε)
  deriving DecidableEq

/-- How a call ended. A batch that is not valid is refused before it gets to the group. -/
inductive Answer (ε : Type) where
  | returned (result : Except (CommitError ε) Unit)
  | refused (e : ε)
  | panicked

/-- The error of a batch whose sync failed. -/
def syncFailed : JournalError := .io .other

structure GroupState where
  journal : BatchJournal
  /-- The sequence of the last entry written. -/
  appended : Nat
  /-- Every sequence up to this one was covered by a sync that returned. -/
  durable : Nat
  /-- Every sequence up to this one is refused. -/
  failedUpto : Nat
  syncing : Bool
  nextApply : Nat
  turnWaiters : Nat → Option Thread

/-- The group of a journal just opened. -/
def opened (journal : BatchJournal) : GroupState := ⟨journal, 0, 0, 0, false, 1, fun _ => none⟩

/-- Where a thread is. `ι` is what a call is given. -/
inductive Phase (ι ε : Type) where
  | outside
  | validating (c : ι) (op : Nat)
  | entering (c : ι)
  | asleep (c : ι) (seq : Nat)
  | awake (c : ι) (seq : Nat)
  | leading (c : ι) (seq : Nat)
  | covering (c : ι) (seq upto : Nat)
  | syncing (c : ι) (seq upto : Nat)
  | parked (c : ι) (seq : Nat) (durable : Bool)
  | unparked (c : ι) (seq : Nat) (durable : Bool)
  | applying (c : ι) (seq : Nat) (turn : Turn)
  | flushed (c : ι) (seq : Nat)
  | leaving (c : ι) (seq : Nat) (answer : Answer ε)

inductive Check (ε : Type) where
  | next
  | done
  | refused (e : ε)

/-- A store with a journal: what its calls append, check before, and do in their turn, and the
writes that other connections make to it directly. -/
structure Service (σ ι ω ε : Type) where
  batch : ι → Batch
  /-- What the read of the given index, of those before the append, decides. -/
  validate : ι → Nat → σ → Check ε
  /-- The apply closure: whether it flushed the store. -/
  apply : ι → Turn → List Outcome → σ → Except (Stop ε) Bool × σ
  write : ω → σ → σ

inductive Action (ι : Type) where
  | call (c : ι)
  | check
  | enter (plan : List Outcome)
  | wake
  | look
  | readUpto
  | startSync
  | finishSync (ok : Bool)
  | unpark
  | gate
  | apply (plan : List Outcome)
  | truncate (plan : List Outcome)
  | release

inductive Event (ι ω : Type) where
  | act (i : Thread) (a : Action ι)
  | write (x : ω)

/-- What happened. -/
inductive Mark (σ ι ω ε : Type) where
  | appended (i : Thread) (c : ι) (seq : Nat)
  | torn (i : Thread) (c : ι)
  | syncBegan (i : Thread)
  | synced (i : Thread) (upto : Nat) (ok : Bool)
  | applied (i : Thread) (c : ι) (seq : Nat) (before after : σ)
  | truncated (i : Thread)
  | answered (i : Thread) (c : ι) (seq : Option Nat) (answer : Answer ε)
  | wrote (x : ω) (before after : σ)

structure World (σ ι ω ε : Type) where
  group : GroupState
  disk : Disk
  store : σ
  phase : Thread → Phase ι ε
  crashed : Bool
  history : List (Mark σ ι ω ε)

/-- A group just opened, and nobody in it. -/
def World.start {σ ι ω ε : Type} (journal : BatchJournal) (disk : Disk) (store : σ) :
    World σ ι ω ε :=
  ⟨opened journal, disk, store, fun _ => .outside, false, []⟩

variable {σ ι ω ε : Type}

/-! ## What a thread does under the lock -/

/-- The turn gate, entered with the verdict of the durability loop. -/
def gate (g : GroupState) (i : Thread) (c : ι) (seq : Nat) (durable : Bool) :
    GroupState × Phase ι ε :=
  if g.nextApply ≠ seq then
    ({ g with turnWaiters := Function.update g.turnWaiters seq (some i) }, .parked c seq durable)
  else if durable then
    (g, .applying c seq ⟨g.journal.needsCheckpoint && g.appended = seq⟩)
  else
    (g, .leaving c seq (.returned (.error (.journal syncFailed))))

/-- One turn of the durability loop. A failure is looked for first. -/
def look (g : GroupState) (i : Thread) (c : ι) (seq : Nat) : GroupState × Phase ι ε :=
  if seq ≤ g.failedUpto then
    gate g i c seq false
  else if seq ≤ g.durable then
    gate g i c seq true
  else if g.syncing then
    (g, .asleep c seq)
  else
    ({ g with syncing := true }, .leading c seq)

/-- A leader's sync returned. -/
def GroupState.finishSync (g : GroupState) (upto : Nat) (ok : Bool) : GroupState :=
  if ok then
    { g with durable := max g.durable upto, syncing := false }
  else
    { g with failedUpto := max g.failedUpto upto, syncing := false }

/-- The turn guard is dropped: the next batch's turn comes, and nobody waits for it any more. -/
def GroupState.release (g : GroupState) : GroupState :=
  { g with
    nextApply := g.nextApply + 1
    turnWaiters := Function.update g.turnWaiters (g.nextApply + 1) none }

def Phase.wake : Phase ι ε → Phase ι ε
  | .asleep c seq => .awake c seq
  | phase => phase

def Phase.unpark : Phase ι ε → Phase ι ε
  | .parked c seq durable => .unparked c seq durable
  | phase => phase

/-- Unpark the thread that waits, if one does. -/
def unparkWaiter (waiter : Option Thread) (phase : Thread → Phase ι ε) : Thread → Phase ι ε :=
  match waiter with
  | some j => Function.update phase j (phase j).unpark
  | none => phase

/-- How a batch goes on behind its apply closure, unless the process crashed in it. -/
def afterApply (c : ι) (seq : Nat) : Except (Stop ε) Bool → Option (Phase ι ε)
  | .ok true => some (.flushed c seq)
  | .ok false => some (.leaving c seq (.returned (.ok ())))
  | .error (.error e) => some (.leaving c seq (.returned (.error (.apply e))))
  | .error .panic => some (.leaving c seq .panicked)
  | .error .crash => none

/-! ## Steps -/

namespace World

/-- The group and the phase of a thread as a step under the lock leaves them. -/
def settle (w : World σ ι ω ε) (i : Thread) (r : GroupState × Phase ι ε) : World σ ι ω ε :=
  { w with group := r.1, phase := Function.update w.phase i r.2 }

def goto (w : World σ ι ω ε) (i : Thread) (phase : Phase ι ε) : World σ ι ω ε :=
  { w with phase := Function.update w.phase i phase }

def mark (w : World σ ι ω ε) (m : Mark σ ι ω ε) : World σ ι ω ε :=
  { w with history := m :: w.history }

/-- The lock is taken, the entry appended, and the durability loop entered. -/
def enter (S : Service σ ι ω ε) (w : World σ ι ω ε) (i : Thread) (c : ι) (plan : List Outcome) :
    World σ ι ω ε :=
  match BatchJournal.appendUnsynced (S.batch c) ⟨w.group.journal, w.disk, plan⟩ with
  | .ok _ p =>
    let seq := w.group.appended + 1
    let group := { w.group with journal := p.self, appended := seq }
    ({ w with disk := p.disk }.mark (.appended i c seq)).settle i (look group i c seq)
  | .error (.error e) p =>
    (({ w with disk := p.disk }.mark (.torn i c)).mark
        (.answered i c none (.returned (.error (.journal e))))).settle i
      ({ w.group with journal := p.self }, .outside)
  | .error _ p => { w with disk := p.disk, crashed := true }.mark (.torn i c)

/-- The sync returned; the lock is taken, everybody asleep is notified, and the loop goes on. -/
def finishSync (w : World σ ι ω ε) (i : Thread) (c : ι) (seq upto : Nat) (ok : Bool) :
    World σ ι ω ε :=
  ({ w with phase := fun j => (w.phase j).wake }.mark (.synced i upto ok)).settle i
    (look (w.group.finishSync upto ok) i c seq)

def applyBatch (S : Service σ ι ω ε) (w : World σ ι ω ε) (i : Thread) (c : ι) (seq : Nat)
    (turn : Turn) (plan : List Outcome) : World σ ι ω ε :=
  let (result, store) := S.apply c turn plan w.store
  let w' := { w with store := store }.mark (.applied i c seq w.store store)
  match afterApply c seq result with
  | some phase => w'.goto i phase
  | none => { w' with crashed := true }

/-- Truncate if nothing was appended during the apply; an error of it is ignored. -/
def truncate (w : World σ ι ω ε) (i : Thread) (c : ι) (seq : Nat) (plan : List Outcome) :
    World σ ι ω ε :=
  if w.group.appended = seq then
    match BatchJournal.truncate ⟨w.group.journal, w.disk, plan⟩ with
    | .error .crash p => { w with disk := p.disk, crashed := true }.mark (.truncated i)
    | .ok _ p | .error _ p =>
      ({ w with disk := p.disk }.mark (.truncated i)).settle i
        ({ w.group with journal := p.self }, .leaving c seq (.returned (.ok ())))
  else
    w.goto i (.leaving c seq (.returned (.ok ())))

def release (w : World σ ι ω ε) (i : Thread) (c : ι) (seq : Nat) (answer : Answer ε) :
    World σ ι ω ε :=
  ({ w with phase := unparkWaiter (w.group.turnWaiters (w.group.nextApply + 1)) w.phase }.mark
    (.answered i c (some seq) answer)).settle i (w.group.release, .outside)

/-- What a thread does next, from where it is. -/
def act (S : Service σ ι ω ε) (w : World σ ι ω ε) (i : Thread) :
    Phase ι ε → Action ι → Option (World σ ι ω ε)
  | .outside, .call c => some (w.goto i (.validating c 0))
  | .validating c op, .check =>
    match S.validate c op w.store with
    | .next => some (w.goto i (.validating c (op + 1)))
    | .done => some (w.goto i (.entering c))
    | .refused e => some ((w.mark (.answered i c none (.refused e))).goto i .outside)
  | .entering c, .enter plan => some (w.enter S i c plan)
  | .asleep c seq, .wake => some (w.goto i (.awake c seq))
  | .awake c seq, .look => some (w.settle i (CommitGroup.look w.group i c seq))
  | .leading c seq, .readUpto => some (w.goto i (.covering c seq w.group.appended))
  | .covering c seq upto, .startSync => some ((w.mark (.syncBegan i)).goto i (.syncing c seq upto))
  | .syncing c seq upto, .finishSync ok => some (w.finishSync i c seq upto ok)
  | .parked c seq durable, .unpark => some (w.goto i (.unparked c seq durable))
  | .unparked c seq durable, .gate => some (w.settle i (CommitGroup.gate w.group i c seq durable))
  | .applying c seq turn, .apply plan => some (w.applyBatch S i c seq turn plan)
  | .flushed c seq, .truncate plan => some (w.truncate i c seq plan)
  | .leaving c seq answer, .release => some (w.release i c seq answer)
  | _, _ => none

end World

def step (S : Service σ ι ω ε) (w : World σ ι ω ε) (e : Event ι ω) : Option (World σ ι ω ε) :=
  if w.crashed then
    none
  else
    match e with
    | .act i a => w.act S i (w.phase i) a
    | .write x =>
      some ({ w with store := S.write x w.store }.mark (.wrote x w.store (S.write x w.store)))

end CommitGroup

end MultimodalDb
