import MultimodalDb.Python.Exchange
import MultimodalDb.Server.Joins
import MultimodalDb.Server.Serving
import Mathlib.Logic.Relation

/-!
# Conversations

A Python client and one connection of a server, with a stream of bytes each way between them. The
streams cut what is sent into pieces as they please; the other connections of the server go on
meanwhile.

Every reply that the client gets is the server's answer to the request that it sent, no request or
answer is lost, repeated or overtaken, and neither side ever refuses a frame of the other. A client
that waits is never stuck (`conversation`).
-/

namespace MultimodalDb.Python

open Receiving
open Framing (FrameError writeMessage readMessage)

variable {n : Nat} {σ : Fin n → Type}

/-- What the client is about. -/
inductive Caller where
  | idle
  | waiting (req : Value) (reading : Receiving (Except ExchangeError Value))
  | gone

def Caller.waits : Caller → Bool
  | waiting .. => true
  | _ => false

/-- Results of exchanges, the newest first. -/
abbrev Results := List (Value × Except ExchangeError Value)

structure Conversation (σ : Fin n → Type) where
  server : Server σ
  client : Caller
  /-- What the client sent and the server has yet to read, and the other way. -/
  up : Bytes
  down : Bytes
  /-- The connection's `read_message`. -/
  reading : Receiving (Except FrameError Request)
  results : Results

/-- Who takes a step. -/
inductive Mover where
  | client
  | server
  | others
  deriving DecidableEq

namespace Conversation

/-- The client of connection `k` has not sent anything yet. -/
def start (w : Contents σ) : Conversation σ :=
  ⟨Tables.started w, .idle, [], [], readMessage Request, []⟩

variable (T : Tables n σ) (options : ServeOptions) (k : Nat)

inductive Step : Mover → Conversation σ → Conversation σ → Prop where
  | elsewhere {s j e server} (hOther : j ≠ k) (h : T.step options s.server (j, e) = some server) :
    Step .others s { s with server }
  /-- An exchange that raises before anything is sent. -/
  | refuse {s req e} (hClient : s.client = .idle) (h : sent req = .error e) :
    Step .client s { s with results := (req, .error e) :: s.results }
  | send {s req bytes} (hClient : s.client = .idle) (hTyped : Typed Protocol.request req)
    (h : sent req = .ok bytes) :
    Step .client s { s with client := .waiting req awaitReply, up := s.up ++ bytes }
  | recv {s req m next} (piece rest : Bytes) (hClient : s.client = .waiting req (.call m next))
    (hDown : piece ++ rest = s.down) (hSome : piece ≠ []) (hLength : piece.length ≤ m) :
    Step .client s { s with client := .waiting req (next piece), down := rest }
  | recvEnd {s req m next} (hClient : s.client = .waiting req (.call m next)) (hDown : s.down = [])
    (hClosed : (s.server.peers k).worker = .closed) :
      Step .client s { s with client := .waiting req (next []) }
  | finish {s req r} (hClient : s.client = .waiting req (.done r)) :
    Step .client s { s with client := .idle, results := (req, r) :: s.results }
  | leave {s} (hClient : s.client = .idle) : Step .client s { s with client := .gone }
  | accept {s server} (certificate : Option Bytes)
    (h : T.step options s.server (k, .accept certificate) = some server) :
    Step .server s { s with server, reading := readMessage Request }
  | read {s c m next} (piece rest : Bytes) (hIdle : (s.server.peers k).worker = .idle c)
    (hReading : s.reading = .call m next) (hUp : piece ++ rest = s.up) (hSome : piece ≠ [])
    (hLength : piece.length ≤ m) :
    Step .server s { s with reading := next piece, up := rest }
  | readEnd {s c m next} (hIdle : (s.server.peers k).worker = .idle c) (hReading : s.reading =
    .call m next)
    (hUp : s.up = []) (hGone : s.client = .gone) : Step .server s { s with reading := next [] }
  | receive {s server} (req : Request) (throttled : Bool) (hReading : s.reading = .done (.ok req))
    (h : T.step options s.server (k, .receive req throttled) = some server) :
      Step .server s { s with server }
  /-- The connection ends at a frame that cannot be read. -/
  | hangUp {s e server} (hReading : s.reading = .done (.error e))
    (h : T.step options s.server (k, .hangUp) = some server) : Step .server s { s with server }
  | call {s server} (taken : Bool) (h : T.step options s.server (k, .call taken) = some server) :
    Step .server s { s with server }
  | respond {s c req served bytes server}
    (hServed : (s.server.peers k).worker = .serving c req (.done served))
    (hWritten : writeMessage served.response = .ok bytes)
    (h : T.step options s.server (k, .respond true) = some server) :
    Step .server s { s with server, down := s.down ++ bytes, reading := readMessage Request }
  /-- A response that has no frame. Nothing of it is written. -/
  | undelivered {s c req served e server}
    (hServed : (s.server.peers k).worker = .serving c req (.done served))
    (hWritten : writeMessage served.response = .error e)
    (h : T.step options s.server (k, .respond false) = some server) :
      Step .server s { s with server }

/-- The states that the server and its client reach. -/
def Reaches (s : Conversation σ) : Prop :=
  ∃ w, Relation.ReflTransGen (fun s s' => ∃ mover, Step T options k mover s s') (start w) s

/-! ## What each side has seen -/

/-- The requests that a connection received, the newest first. -/
def received : List (Act σ) → List Request
  | [] => []
  | .received req :: acts => req :: received acts
  | _ :: acts => received acts

/-- The requests that it answered with their answers, the newest first. -/
def answered : List (Act σ) → List (Request × Response)
  | [] => []
  | .answered req resp :: acts => (req, resp) :: answered acts
  | _ :: acts => answered acts

/-- The requests that the client has replies to, the newest first. -/
def replied : Results → List (Value × Value)
  | [] => []
  | (req, .ok resp) :: results => (req, resp) :: replied results
  | (_, .error _) :: results => replied results

/-- A request and its answer, as the client has them. -/
def asValues (exchange : Request × Response) : Value × Value :=
  (.ofRequest exchange.1, .ofResponse exchange.2)

/-- How far an exchange has come: the client, the connection, its reader, the two streams, what the
connection answered and what it received, and what the client has replies to. -/
inductive Phase : Caller → Worker n → Receiving (Except FrameError Request) → Bytes → Bytes →
    List (Request × Response) → List Request → List (Value × Value) → Prop where
  | absent {client reading} (hClient : client.waits = false) :
      Phase client .absent reading [] [] [] [] []
  | knocking {req reading up} (hUp : Reads (readMessage Request) up (.ok req)) :
    Phase (.waiting (.ofRequest req) awaitReply) .absent reading up [] [] [] []
  | quiet {client c exchanges} (hClient : client.waits = false) :
    Phase client (.idle c) (readMessage Request) [] [] exchanges (exchanges.map (·.1))
      (exchanges.map asValues)
  | leaving {c exchanges} :
    Phase .gone (.idle c) (.done (.error .io)) [] [] exchanges (exchanges.map (·.1))
      (exchanges.map asValues)
  | asking {req c reading up exchanges} (hReads : Reads reading up (.ok req)) :
    Phase (.waiting (.ofRequest req) awaitReply) (.idle c) reading up [] exchanges
      (exchanges.map (·.1)) (exchanges.map asValues)
  | serving {req c program reading exchanges} :
    Phase (.waiting (.ofRequest req) awaitReply) (.serving c req program) reading [] []
      exchanges (req :: exchanges.map (·.1)) (exchanges.map asValues)
  | answering {req resp rest worker reading down exchanges}
    (hWorker : worker = .closed ∨ ∃ c, worker = .idle c ∧ reading = readMessage Request)
    (hReads : Reads rest down (.ok (.ofResponse resp))) :
    Phase (.waiting (.ofRequest req) rest) worker reading [] down ((req, resp) :: exchanges)
      (req :: exchanges.map (·.1)) (exchanges.map asValues)
  | closed {client reading up exchanges replies} (hClient : client.waits = false)
    (hLate : ∃ late, exchanges.map asValues = late ++ replies ∧ late.length ≤ 1) :
    Phase client .closed reading up [] exchanges (exchanges.map (·.1)) replies
  | cut {req rest reading up exchanges replies} (hEnd : atEnd rest = .error .connectionClosed)
    (hLate : ∃ late, exchanges.map asValues = late ++ replies ∧ late.length ≤ 1) :
    Phase (.waiting req rest) .closed reading up [] exchanges (exchanges.map (·.1)) replies

namespace Phase

variable {client : Caller} {worker : Worker n} {reading : Receiving (Except FrameError Request)}
  {up down : Bytes}
  {R : List Request} {A : List (Request × Response)} {S : List (Value × Value)} {v : Value}
  {p : Receiving (Except ExchangeError Value)} {piece rest bytes : Bytes} {m : Nat} {c : Conn n}
    {req : Request}

/-! ### Steps of the client -/

theorem send (h : Phase .idle worker reading up down A R S)
    (hReads : Reads (readMessage Request) bytes (.ok req)) :
    Phase (.waiting (.ofRequest req) awaitReply) worker reading (up ++ bytes) down A R S := by
  cases h with
  | absent => exact .knocking hReads
  | quiet => exact .asking hReads
  | closed _ hLate => exact .cut atEnd_awaitReply hLate

theorem recv {next : Bytes → Receiving (Except ExchangeError Value)}
    (h : Phase (.waiting v p) worker reading up down A R S) (hCall : p = .call m next)
    (hDown : piece ++ rest = down) (hSome : piece ≠ []) (hLength : piece.length ≤ m) :
    Phase (.waiting v (next piece)) worker reading up rest A R S := by
  have hNone (hEmpty : piece ++ rest = []) : False := hSome (List.append_eq_nil_iff.mp hEmpty).1
  cases h with
  | answering hWorker hReads =>
    subst hCall hDown
    exact .answering hWorker (hReads.piece hSome hLength)
  | knocking | asking | serving | cut => exact (hNone hDown).elim
  | absent hClient | quiet hClient | closed hClient => cases hClient

theorem recvEnd {next : Bytes → Receiving (Except ExchangeError Value)}
    (h : Phase (.waiting v p) (.closed : Worker n) reading up down A R S) (hCall : p = .call m next)
    (hDown : down = []) :
    Phase (.waiting v (next [])) (.closed : Worker n) reading up down A R S := by
  subst hCall
  cases h with
  | answering _ hReads => exact absurd hDown hReads.ne_nil
  | cut hEnd hLate => exact .cut hEnd hLate
  | closed hClient => cases hClient

theorem finish {r : Except ExchangeError Value} {results : Results}
    (h : Phase (.waiting v p) worker reading up down A R (replied results)) (hDone : p = .done r) :
    Phase .idle worker reading up down A R (replied ((v, r) :: results)) ∧
      ∀ e, r = .error e → e = .connectionClosed ∧ worker = .closed := by
  generalize hReplies : replied results = S at h
  cases h with
  | knocking | asking | serving => exact absurd hDone (exactly_ne_done (by decide) _)
  | answering hWorker hReads =>
    subst hDone
    obtain ⟨rfl, rfl⟩ := hReads.of_done
    refine ⟨?_, fun _ h => by cases h⟩
    rw [replied, hReplies]
    rcases hWorker with rfl | ⟨c, rfl, rfl⟩
    · exact .closed rfl ⟨[], rfl, Nat.zero_le 1⟩
    · exact .quiet rfl
  | cut hEnd hLate =>
    subst hDone
    cases hEnd
    refine ⟨?_, fun e h => ?_⟩
    · rw [replied, hReplies]
      exact .closed rfl hLate
    · cases h
      exact ⟨rfl, rfl⟩
  | absent hClient | quiet hClient | closed hClient => cases hClient

/-- An exchange that ends has the next answer, or was cut. -/
theorem finished {r : Except ExchangeError Value}
    (h : Phase (.waiting v p) worker reading up down A R S) (hDone : p = .done r) :
    (∃ resp, r = .ok resp ∧ A.map asValues = (v, resp) :: S) ∨ r = .error .connectionClosed := by
  cases h with
  | knocking | asking | serving => exact absurd hDone (exactly_ne_done (by decide) _)
  | answering hWorker hReads =>
    subst hDone
    obtain ⟨rfl, rfl⟩ := hReads.of_done
    exact .inl ⟨_, rfl, rfl⟩
  | cut hEnd hLate =>
    subst hDone
    cases hEnd
    exact .inr rfl
  | absent hClient | quiet hClient | closed hClient => cases hClient

theorem leave (h : Phase .idle worker reading up down A R S) :
    Phase .gone worker reading up down A R S := by
  cases h with
  | absent => exact .absent rfl
  | quiet => exact .quiet rfl
  | closed _ hLate => exact .closed rfl hLate

/-! ### Steps of the connection -/

theorem accept (h : Phase client (.absent : Worker n) reading up down A R S) :
    Phase client (.idle c) (readMessage Request) up down A R S := by
  cases h with
  | absent hClient => exact .quiet hClient
  | knocking hUp => exact .asking hUp
  | answering hWorker =>
    rcases hWorker with hClosed | ⟨c, hIdle, -⟩
    · cases hClosed
    · cases hIdle

theorem read {next : Bytes → Receiving (Except FrameError Request)}
    (h : Phase client (.idle c) reading up down A R S)
    (hCall : reading = .call m next) (hUp : piece ++ rest = up) (hSome : piece ≠ [])
    (hLength : piece.length ≤ m) :
    Phase client (.idle c) (next piece) rest down A R S := by
  have hNone (hEmpty : piece ++ rest = []) : False := hSome (List.append_eq_nil_iff.mp hEmpty).1
  cases h with
  | asking hReads =>
    subst hCall hUp
    exact .asking (hReads.piece hSome hLength)
  | quiet | leaving | answering => exact (hNone hUp).elim

theorem readEnd {next : Bytes → Receiving (Except FrameError Request)}
    (h : Phase .gone (.idle c) reading up down A R S)
    (hCall : reading = .call m next) : Phase .gone (.idle c) (next []) up down A R S := by
  cases h with
  | quiet =>
    rw [exactly_end (by decide) hCall]
    exact .leaving
  | leaving => cases hCall

theorem receive {program : Serving n (Served n)} (h : Phase client (.idle c) reading up down A R S)
    (hDone : reading = .done (.ok req)) :
    Phase client (.serving c req program) reading up down A (req :: R) S := by
  cases h with
  | quiet => exact absurd hDone (exactly_ne_done (by decide) _)
  | leaving => cases hDone
  | asking hReads =>
    subst hDone
    obtain ⟨rfl, hSame⟩ := hReads.of_done
    cases hSame
    exact .serving
  | answering hWorker =>
    rcases hWorker with hClosed | ⟨c, -, rfl⟩
    · cases hClosed
    · exact absurd hDone (exactly_ne_done (by decide) _)

/-- Only a client that is gone makes the server hang up. -/
theorem hangUp {e : FrameError} (h : Phase client (.idle c) reading up down A R S)
    (hDone : reading = .done (.error e)) :
    client = .gone ∧ Phase client (.closed : Worker n) reading up down A R S := by
  cases h with
  | quiet => exact absurd hDone (exactly_ne_done (by decide) _)
  | leaving => exact ⟨rfl, .closed rfl ⟨[], rfl, Nat.zero_le 1⟩⟩
  | asking hReads =>
    subst hDone
    cases hReads.of_done.2
  | answering hWorker =>
    rcases hWorker with hClosed | ⟨c, -, rfl⟩
    · cases hClosed
    · exact absurd hDone (exactly_ne_done (by decide) _)

theorem call {program program' : Serving n (Served n)}
    (h : Phase client (.serving c req program) reading up down A R S) :
    Phase client (.serving c req program') reading up down A R S := by
  cases h with
  | serving => exact .serving
  | answering hWorker =>
    rcases hWorker with hClosed | ⟨c, hIdle, -⟩
    · cases hClosed
    · cases hIdle

theorem respond {program : Serving n (Served n)} {resp : Response}
    (h : Phase client (.serving c req program) reading up down A R S)
    (hReads : Reads awaitReply bytes (.ok (.ofResponse resp)))
    (hWorker : worker = .closed ∨ ∃ c, worker = .idle c) :
    Phase client worker (readMessage Request) up (down ++ bytes) ((req, resp) :: A) R S := by
  cases h with
  | serving =>
    refine .answering (hWorker.imp_right ?_) hReads
    rintro ⟨c, hIdle⟩
    exact ⟨c, hIdle, rfl⟩
  | answering hOther =>
    rcases hOther with hClosed | ⟨c, hIdle, -⟩
    · cases hClosed
    · cases hIdle

theorem undelivered {program : Serving n (Served n)} {resp : Response}
    (h : Phase client (.serving c req program) reading up down A R S) :
    Phase client (.closed : Worker n) reading up down ((req, resp) :: A) R S := by
  cases h with
  | serving => exact .cut atEnd_awaitReply ⟨[asValues (req, resp)], rfl, Nat.le_refl 1⟩
  | answering hOther =>
    rcases hOther with hClosed | ⟨c, hIdle, -⟩
    · cases hClosed
    · cases hIdle

/-- While a request is served the client waits for its answer, and has those before it. -/
theorem of_serving {program : Serving n (Served n)}
    (h : Phase client (.serving c req program) reading up down A R S) :
    (∃ p, client = .waiting (.ofRequest req) p) ∧ A.map asValues = S := by
  cases h with
  | serving => exact ⟨⟨_, rfl⟩, rfl⟩
  | answering hOther =>
    rcases hOther with hClosed | ⟨c, hIdle, -⟩
    · cases hClosed
    · cases hIdle

end Phase

/-! ## Steps of a connection -/

section Moves

variable {T options} {s server : Server σ} {e : ConnEvent}

/-- A step of the connection, and what it leaves of the server. -/
theorem exists_move (h : T.step options s (k, e) = some server) :
    ∃ world, T.move options s.world (s.peers k) e = some (server.peers k, world) := by
  obtain ⟨⟨peer, world⟩, hMove, rfl⟩ := Option.map_eq_some_iff.mp h
  refine ⟨world, hMove.trans ?_⟩
  dsimp only
  rw [Function.update_self]

/-- The other connections are where they were. -/
theorem peers_of_other {j : Nat} (hOther : j ≠ k) (h : T.step options s (j, e) = some server) :
    server.peers k = s.peers k := by
  obtain ⟨⟨peer, world⟩, -, rfl⟩ := Option.map_eq_some_iff.mp h
  exact Function.update_of_ne (Ne.symm hOther) ..

theorem exists_step (h : (T.move options s.world (s.peers k) e).isSome = true) :
    ∃ server, T.step options s (k, e) = some server := by
  obtain ⟨p, hMove⟩ := Option.isSome_iff_exists.mp h
  exact ⟨_, Option.map_eq_some_iff.mpr ⟨p, hMove, rfl⟩⟩

variable {w w' : Contents σ} {peer peer' : Peer σ}

theorem move_accept {certificate : Option Bytes}
    (h : T.move options w peer (.accept certificate) = some (peer', w')) :
    peer.worker = .absent ∧ ∃ c, peer' = ⟨.idle c, .accepted certificate :: peer.acts⟩ := by
  obtain ⟨worker, acts⟩ := peer
  cases worker with
  | absent =>
    cases h
    exact ⟨rfl, _, rfl⟩
  | idle | serving | closed => cases h

theorem move_receive {req : Request} {throttled : Bool}
    (h : T.move options w peer (.receive req throttled) = some (peer', w')) :
    ∃ c program, peer.worker = .idle c ∧
      peer' = ⟨.serving c req program, .received req :: peer.acts⟩ := by
  obtain ⟨worker, acts⟩ := peer
  cases worker with
  | idle c =>
    cases h
    exact ⟨c, _, rfl, rfl⟩
  | absent | serving | closed => cases h

theorem move_call {taken : Bool} (h : T.move options w peer (.call taken) = some (peer', w')) :
    ∃ c req program program' here reply, peer.worker = .serving c req program ∧
      peer' = ⟨.serving c req program', .called here reply w :: peer.acts⟩ := by
  obtain ⟨worker, acts⟩ := peer
  cases worker with
  | serving c req program =>
    cases program with
    | done served => cases h
    | call here next =>
      cases h
      exact ⟨c, req, _, _, here, _, rfl, rfl⟩
  | absent | idle | closed => cases h

theorem move_respond {delivered : Bool} {c : Conn n} {req : Request} {served : Served n}
    (hServed : peer.worker = .serving c req (.done served))
    (h : T.move options w peer (.respond delivered) = some (peer', w')) :
    peer' = ⟨if served.closed || !delivered then .closed else .idle served.conn,
      .answered req served.response :: peer.acts⟩ := by
  obtain ⟨worker, acts⟩ := peer
  obtain rfl := hServed
  cases h
  rfl

theorem move_hangUp (h : T.move options w peer .hangUp = some (peer', w')) :
    ∃ c, peer.worker = .idle c ∧ peer' = ⟨.closed, .hungUp :: peer.acts⟩ := by
  obtain ⟨worker, acts⟩ := peer
  cases worker with
  | idle c =>
    cases h
    exact ⟨c, rfl, rfl⟩
  | absent | serving | closed => cases h

end Moves

/-! ## The invariant -/

/-- The client waits for the answer to a request, or its exchange failed with the connection. -/
def Awaited (s : Conversation σ) (req : Value) : Prop :=
  (∃ p, s.client = .waiting req p) ∨ (req, .error .connectionClosed) ∈ s.results

/-- What holds in every state. -/
structure Sound (s : Conversation σ) : Prop where
  phase : Phase s.client (s.server.peers k).worker s.reading s.up s.down
    (answered (s.server.peers k).acts) (received (s.server.peers k).acts) (replied s.results)
  hungUp : .hungUp ∈ (s.server.peers k).acts → s.client = .gone
  errors : ∀ req e, (req, .error e) ∈ s.results →
    sent req = .error e ∨ e = .connectionClosed ∧ (s.server.peers k).worker = .closed
  late : ∀ exchange, (answered (s.server.peers k).acts).map asValues =
    exchange :: replied s.results → s.Awaited exchange.1

theorem sound_start (w : Contents σ) : Sound k (start w) where
  phase := .absent rfl
  hungUp hMem := absurd hMem List.not_mem_nil
  errors _ _ hMem := absurd hMem List.not_mem_nil
  late _ hLate := absurd hLate (List.cons_ne_nil _ _).symm

variable {T options k} {s s' : Conversation σ}

/-- What is awaited of a client that is idle has failed. -/
theorem Awaited.failed {req : Value} (h : s.Awaited req) (hClient : s.client = .idle) :
    (req, .error .connectionClosed) ∈ s.results := by
  refine h.resolve_left ?_
  rintro ⟨p, hWaits⟩
  rw [hClient] at hWaits
  cases hWaits

/-- The client still waits for the same answer. -/
theorem Awaited.waits {req other : Value} {p p' : Receiving (Except ExchangeError Value)}
    (h : s.Awaited other) (hClient : s.client = .waiting req p)
    (hClient' : s'.client = .waiting req p')
    (hResults : s'.results = s.results) : s'.Awaited other := by
  refine h.imp ?_ fun hMem => hResults ▸ hMem
  rintro ⟨q, hWaits⟩
  rw [hClient] at hWaits
  cases hWaits
  exact ⟨p', hClient'⟩

/-- A step of the client. -/
theorem Sound.client (h : Sound k s) (hStep : Step T options k .client s s') : Sound k s' := by
  obtain ⟨hPhase, hHung, hErrors, hLate⟩ := h
  cases hStep with
  | refuse hClient hRefused =>
    refine ⟨hPhase, hHung, fun other e' hMem => ?_, fun exchange hOne => ?_⟩
    · rcases List.mem_cons.mp hMem with hHere | hOld
      · cases hHere
        exact .inl hRefused
      · exact hErrors other e' hOld
    · exact .inr (List.mem_cons_of_mem _ ((hLate exchange hOne).failed hClient))
  | send hClient hTyped hSent =>
    have hFailed exchange hOne := (hLate exchange hOne).failed hClient
    obtain ⟨a, rfl, hReads⟩ := reads_sent hTyped hSent
    rw [hClient] at hPhase hHung
    exact ⟨hPhase.send hReads, fun hMem => absurd (hHung hMem) Caller.noConfusion, hErrors,
      fun exchange hOne => .inr (hFailed exchange hOne)⟩
  | recv piece rest hClient hDown hSome hLength =>
    refine ⟨?_, fun hMem => ?_, hErrors, fun exchange hOne => ?_⟩
    · rw [hClient] at hPhase
      exact hPhase.recv rfl hDown hSome hLength
    · rw [hClient] at hHung
      exact absurd (hHung hMem) Caller.noConfusion
    · exact (hLate exchange hOne).waits hClient rfl rfl
  | recvEnd hClient hDown hClosed =>
    refine ⟨?_, fun hMem => ?_, hErrors,
      fun exchange hOne => (hLate exchange hOne).waits hClient rfl rfl⟩
    · rw [hClient, hClosed] at hPhase
      dsimp only
      rw [hClosed]
      exact hPhase.recvEnd rfl hDown
    · rw [hClient] at hHung
      exact absurd (hHung hMem) Caller.noConfusion
  | @finish _ req r hClient =>
    rw [hClient] at hPhase hHung
    obtain ⟨hNext, hFailed⟩ := hPhase.finish rfl
    refine ⟨hNext, fun hMem => absurd (hHung hMem) Caller.noConfusion, fun other e' hMem => ?_,
      fun exchange hOne => .inr ?_⟩
    · rcases List.mem_cons.mp hMem with hHere | hOld
      · cases hHere
        exact .inr (hFailed e' rfl)
      · exact hErrors other e' hOld
    · rcases hPhase.finished rfl with ⟨resp, rfl, hAll⟩ | rfl
      · -- the answer to the last request has been received, so none is late
        have hLengths := congrArg List.length (hAll.symm.trans hOne)
        simp [replied] at hLengths
      · rcases hLate exchange hOne with ⟨p, hWaits⟩ | hOld
        · rw [hClient] at hWaits
          cases hWaits
          exact List.mem_cons_self
        · exact List.mem_cons_of_mem _ hOld
  | leave hClient =>
    have hFailed exchange hOne := (hLate exchange hOne).failed hClient
    rw [hClient] at hPhase
    exact ⟨hPhase.leave, fun _ => rfl, hErrors, fun exchange hOne => .inr (hFailed exchange hOne)⟩

/-- The connection did something. -/
theorem Sound.acted (h : Sound k s) (hClient : s'.client = s.client)
    (hResults : s'.results = s.results) {act : Act σ}
    (hActs : (s'.server.peers k).acts = act :: (s.server.peers k).acts) (hAct : act ≠ .hungUp)
    (hOpen : (s.server.peers k).worker ≠ .closed)
    (hPhase : Phase s'.client (s'.server.peers k).worker s'.reading s'.up s'.down
      (answered (s'.server.peers k).acts) (received (s'.server.peers k).acts) (replied s'.results))
    (hLate : ∀ exchange, (answered (s'.server.peers k).acts).map asValues =
      exchange :: replied s.results → s.Awaited exchange.1) : Sound k s' := by
  refine ⟨hPhase, fun hMem => ?_, fun req e hMem => ?_, fun exchange hOne => ?_⟩
  · rw [hActs] at hMem
    rw [hClient]
    exact h.hungUp ((List.mem_cons.mp hMem).resolve_left (Ne.symm hAct))
  · rw [hResults] at hMem
    exact .inl ((h.errors req e hMem).resolve_right fun hClosed => hOpen hClosed.2)
  · unfold Awaited
    rw [hResults] at hOne ⊢
    rw [hClient]
    exact hLate exchange hOne

/-- The answer that a connection gives is the one that the client waits for. -/
theorem Sound.awaited {c : Conn n} {req : Request} {program : Serving n (Served n)}
    {resp : Response}
    (h : Sound k s) (hServed : (s.server.peers k).worker = .serving c req program)
    {exchange : Value × Value}
    (hOne : ((req, resp) :: answered (s.server.peers k).acts).map asValues =
      exchange :: replied s.results) :
    s.Awaited exchange.1 := by
  have hPhase := h.phase
  rw [hServed] at hPhase
  obtain ⟨hWaits, -⟩ := hPhase.of_serving
  obtain ⟨rfl, -⟩ := List.cons.inj hOne
  exact .inl hWaits

/-- A step of the connection. -/
theorem Sound.server (h : Sound k s) (hStep : Step T options k .server s s') : Sound k s' := by
  have hPhase := h.phase
  cases hStep with
  | accept certificate hStep =>
    obtain ⟨world, hMove⟩ := exists_move k hStep
    obtain ⟨hAbsent, c, hPeer⟩ := move_accept hMove
    rw [hAbsent] at hPhase
    refine h.acted rfl rfl (by dsimp only; rw [hPeer]) (by simp) (by simp [hAbsent]) ?_ ?_
    · dsimp only
      rw [hPeer]
      exact hPhase.accept
    · dsimp only
      rw [hPeer]
      exact h.late
  | read piece rest hIdle hReading hUp hSome hLength =>
    rw [hIdle] at hPhase
    refine ⟨?_, h.hungUp, h.errors, h.late⟩
    dsimp only
    rw [hIdle]
    exact hPhase.read hReading hUp hSome hLength
  | readEnd hIdle hReading hUp hGone =>
    rw [hIdle, hGone] at hPhase
    refine ⟨?_, h.hungUp, h.errors, h.late⟩
    dsimp only
    rw [hIdle, hGone]
    exact hPhase.readEnd hReading
  | receive req throttled hReading hStep =>
    obtain ⟨world, hMove⟩ := exists_move k hStep
    obtain ⟨c, program, hIdle, hPeer⟩ := move_receive hMove
    rw [hIdle] at hPhase
    refine h.acted rfl rfl (by dsimp only; rw [hPeer]) (by simp) (by simp [hIdle]) ?_ ?_
    · dsimp only
      rw [hPeer]
      exact hPhase.receive hReading
    · dsimp only
      rw [hPeer]
      exact h.late
  | hangUp hReading hStep =>
    obtain ⟨world, hMove⟩ := exists_move k hStep
    obtain ⟨c, hIdle, hPeer⟩ := move_hangUp hMove
    rw [hIdle] at hPhase
    obtain ⟨hGone, hClosed⟩ := hPhase.hangUp hReading
    refine ⟨?_, fun _ => hGone, fun req e hMem => ?_, fun exchange hOne => ?_⟩
    · dsimp only
      rw [hPeer]
      exact hClosed
    · exact (h.errors req e hMem).imp_right fun hOther => absurd hOther.2 (by simp [hIdle])
    · dsimp only at hOne
      rw [hPeer] at hOne
      exact h.late exchange hOne
  | call taken hStep =>
    obtain ⟨world, hMove⟩ := exists_move k hStep
    obtain ⟨c, req, program, program', here, reply, hServing, hPeer⟩ := move_call hMove
    rw [hServing] at hPhase
    refine h.acted rfl rfl (by dsimp only; rw [hPeer]) (by simp) (by simp [hServing]) ?_ ?_
    · dsimp only
      rw [hPeer]
      exact hPhase.call
    · dsimp only
      rw [hPeer]
      exact h.late
  | respond hServed hWritten hStep =>
    obtain ⟨world, hMove⟩ := exists_move k hStep
    have hPeer := move_respond hServed hMove
    rw [hServed] at hPhase
    refine h.acted rfl rfl (by dsimp only; rw [hPeer]) (by simp) (by simp [hServed]) ?_ ?_
    · dsimp only
      rw [hPeer]
      refine hPhase.respond (reads_answer hWritten) ?_
      dsimp only
      split
      · exact .inl rfl
      · exact .inr ⟨_, rfl⟩
    · dsimp only
      rw [hPeer]
      exact fun _ => h.awaited hServed
  | undelivered hServed hWritten hStep =>
    obtain ⟨world, hMove⟩ := exists_move k hStep
    have hPeer := move_respond hServed hMove
    rw [Bool.not_false, Bool.or_true, if_pos rfl] at hPeer
    rw [hServed] at hPhase
    refine h.acted rfl rfl (by dsimp only; rw [hPeer]) (by simp) (by simp [hServed]) ?_ ?_
    · dsimp only
      rw [hPeer]
      exact hPhase.undelivered
    · dsimp only
      rw [hPeer]
      exact fun _ => h.awaited hServed

theorem Sound.step (h : Sound k s) {mover : Mover} (hStep : Step T options k mover s s') :
    Sound k s' := by
  cases mover with
  | client => exact h.client hStep
  | server => exact h.server hStep
  | others =>
    cases hStep with
    | elsewhere hOther hStep =>
      obtain ⟨hPhase, hHung, hErrors, hLate⟩ := h
      have hPeer := peers_of_other k hOther hStep
      refine ⟨?_, ?_, ?_, ?_⟩
      · dsimp only
        rwa [hPeer]
      · dsimp only
        rwa [hPeer]
      · dsimp only
        rwa [hPeer]
      · dsimp only
        rwa [hPeer]

theorem sound_of_reaches (h : Reaches T options k s) : Sound k s := by
  obtain ⟨w, hRun⟩ := h
  induction hRun with
  | refl => exact sound_start k w
  | tail _ hStep ih =>
    obtain ⟨mover, hStep⟩ := hStep
    exact ih.step hStep

/-! ## A client that waits -/

/-- What a client that waits is waiting for. -/
theorem Phase.of_waiting {worker : Worker n} {reading : Receiving (Except FrameError Request)}
    {up down : Bytes}
    {A : List (Request × Response)} {R : List Request} {S : List (Value × Value)} {v : Value}
    {p : Receiving (Except ExchangeError Value)}
    (h : Phase (.waiting v p) worker reading up down A R S) :
    worker = .absent ∨ (∃ c req, worker = .idle c ∧ Reads reading up (.ok req)) ∨
      (∃ c req program, worker = .serving c req program) ∨ (∃ r, Reads p down r) ∨
        worker = .closed ∧ down = [] := by
  cases h with
  | knocking => exact .inl rfl
  | asking hReads => exact .inr (.inl ⟨_, _, rfl, hReads⟩)
  | serving => exact .inr (.inr (.inl ⟨_, _, _, rfl⟩))
  | answering _ hReads => exact .inr (.inr (.inr (.inl ⟨_, hReads⟩)))
  | cut => exact .inr (.inr (.inr (.inr ⟨rfl, rfl⟩)))
  | absent hClient | quiet hClient | closed hClient => cases hClient

/-- **Never stuck.** While the client waits, it or its connection has a step to take. -/
theorem Sound.progress (h : Sound k s) (hWaits : s.client.waits = true) :
    ∃ mover s', mover ≠ .others ∧ Step T options k mover s s' := by
  have hPhase := h.phase
  cases hClient : s.client with
  | idle | gone =>
    rw [hClient] at hWaits
    cases hWaits
  | waiting v p =>
    rw [hClient] at hPhase
    cases p with
    | done r => exact ⟨.client, _, by decide, .finish hClient⟩
    | call m next =>
      rcases hPhase.of_waiting with hAbsent | ⟨c, req, hIdle, hReads⟩ |
        ⟨c, req, program, hServing⟩ | ⟨r, hReads⟩ | ⟨hClosed, hDown⟩
      · obtain ⟨server, hStep⟩ : ∃ server, T.step options s.server (k, .accept none) =
            some server :=
          exists_step k (by simp [Tables.move, hAbsent])
        exact ⟨.server, _, by decide, .accept none hStep⟩
      · cases hReading : s.reading with
        | done r =>
          rw [hReading] at hReads
          obtain ⟨-, rfl⟩ := hReads.of_done
          obtain ⟨server, hStep⟩ : ∃ server, T.step options s.server (k, .receive req false) =
              some server :=
            exists_step k (by simp [Tables.move, hIdle])
          exact ⟨.server, _, by decide, .receive req false hReading hStep⟩
        | call m next =>
          rw [hReading] at hReads
          obtain ⟨b, rest, hUp⟩ := List.exists_cons_of_ne_nil hReads.ne_nil
          have hPiece : [b] ++ rest = s.up := hUp.symm
          exact ⟨.server, _,
            by decide, .read [b] rest hIdle hReading hPiece (List.cons_ne_nil b []) hReads.2.1⟩
      · cases program with
        | call here after =>
          obtain ⟨server, hStep⟩ : ∃ server, T.step options s.server (k, .call true) =
              some server :=
            exists_step k (by simp [Tables.move, hServing])
          exact ⟨.server, _, by decide, .call true hStep⟩
        | done served =>
          cases hWritten : writeMessage served.response with
          | ok bytes =>
            obtain ⟨server, hStep⟩ : ∃ server, T.step options s.server (k, .respond true) =
                some server :=
              exists_step k (by simp [Tables.move, hServing])
            exact ⟨.server, _, by decide, .respond hServing hWritten hStep⟩
          | error e =>
            obtain ⟨server, hStep⟩ : ∃ server, T.step options s.server (k, .respond false) =
                some server :=
              exists_step k (by simp [Tables.move, hServing])
            exact ⟨.server, _, by decide, .undelivered hServing hWritten hStep⟩
      · obtain ⟨b, rest, hDown⟩ := List.exists_cons_of_ne_nil hReads.ne_nil
        have hPiece : [b] ++ rest = s.down := hDown.symm
        exact ⟨.client, _,
          by decide, .recv [b] rest hClient hPiece (List.cons_ne_nil b []) hReads.2.1⟩
      · exact ⟨.client, _, by decide, .recvEnd hClient hDown hClosed⟩

/-! ## The conversation -/

variable (T options k) in
/-- What the client gets is what the server says. -/
structure Faithful (s : Conversation σ) : Prop where
  /-- The client's replies are the answers to its requests, in order. One more may be on its way, or
  lost with the connection. -/
  replies : ∃ late, (answered (s.server.peers k).acts).map asValues = late ++ replied s.results ∧
    late.length ≤ 1 ∧ ∀ exchange ∈ late, s.Awaited exchange.1
  /-- The server received no other requests. One that it has not answered is the one that the client
  waits for. -/
  requests : received (s.server.peers k).acts = (answered (s.server.peers k).acts).map (·.1) ∨
    ∃ req p, received (s.server.peers k).acts =
      req :: (answered (s.server.peers k).acts).map (·.1) ∧ s.client = .waiting (.ofRequest req) p
  /-- An exchange fails before anything is sent, or when the server has closed the connection. -/
  errors : ∀ req e, (req, .error e) ∈ s.results →
    sent req = .error e ∨ e = .connectionClosed ∧ (s.server.peers k).worker = .closed
  /-- The server hangs up on nobody who is there. -/
  hungUp : .hungUp ∈ (s.server.peers k).acts → s.client = .gone
  progress : s.client.waits = true → ∃ mover s', mover ≠ .others ∧ Step T options k mover s s'

theorem Phase.replies {client : Caller} {worker : Worker n}
    {reading : Receiving (Except FrameError Request)}
    {up down : Bytes} {A : List (Request × Response)} {R : List Request} {S : List (Value × Value)}
    (h : Phase client worker reading up down A R S) :
    ∃ late, A.map asValues = late ++ S ∧ late.length ≤ 1 := by
  cases h with
  | answering => exact ⟨[_], rfl, Nat.le_refl 1⟩
  | closed _ hLate | cut _ hLate => exact hLate
  | absent | knocking | quiet | leaving | asking | serving => exact ⟨[], rfl, Nat.zero_le 1⟩

theorem Phase.requests {client : Caller} {worker : Worker n}
    {reading : Receiving (Except FrameError Request)}
    {up down : Bytes} {A : List (Request × Response)} {R : List Request} {S : List (Value × Value)}
    (h : Phase client worker reading up down A R S) :
    R = A.map (·.1) ∨ ∃ req p, R = req :: A.map (·.1) ∧ client = .waiting (.ofRequest req) p := by
  cases h with
  | serving => exact .inr ⟨_, _, rfl, rfl⟩
  | absent | knocking | quiet | leaving | asking | answering | closed | cut => exact .inl rfl

theorem Step.server {mover : Mover} (h : Step T options k mover s s') :
    s'.server = s.server ∨ ∃ e, T.step options s.server e = some s'.server := by
  cases h with
  | refuse | send | recv | recvEnd | finish | leave | read | readEnd => exact .inl rfl
  | elsewhere _ hStep | accept _ hStep | receive _ _ _ hStep | hangUp _ hStep | call _ hStep
  | respond _ _ hStep
  | undelivered _ _ hStep => exact .inr ⟨_, hStep⟩

/-- **A conversation.** The server does what it may do with any clients, and what the client gets is
what it says, however the streams cut the frames and whatever the other connections do; and while
the client waits, it or its connection has a step to take. -/
theorem conversation (h : Reaches T options k s) :
    T.Reaches options s.server ∧ Faithful T options k s := by
  refine ⟨?_, ?_⟩
  · obtain ⟨w, hRun⟩ := h
    refine ⟨w, ?_⟩
    induction hRun with
    | refl => exact .refl
    | tail _ hStep ih =>
      obtain ⟨mover, hStep⟩ := hStep
      rcases hStep.server with hSame | ⟨e, hNext⟩
      · rwa [hSame]
      · exact ih.tail trivial hNext
  · have hSound := sound_of_reaches h
    refine ⟨?_, hSound.phase.requests, hSound.errors, hSound.hungUp, hSound.progress⟩
    obtain ⟨late, hAll, hOne⟩ := hSound.phase.replies
    refine ⟨late, hAll, hOne, fun exchange hMem => ?_⟩
    obtain ⟨only, rfl⟩ := List.length_eq_one_iff.mp (hOne.antisymm (List.length_pos_of_mem hMem))
    obtain rfl := List.mem_singleton.mp hMem
    exact hSound.late exchange hAll

theorem Reaches.step (h : Reaches T options k s) {mover : Mover}
    (hStep : Step T options k mover s s') :
    Reaches T options k s' := by
  obtain ⟨w, hRun⟩ := h
  exact ⟨w, hRun.tail ⟨mover, hStep⟩⟩

/-! ### A greeting -/

def unguarded : ServeOptions := ⟨none, none, []⟩

def hello : Value := .ofRequest (.hello 22)

theorem typed_hello : Typed Protocol.request hello :=
  (speaks_request.typed _).mpr ⟨.hello 22, [10, 0, 0, 0, 22, 0, 0, 0], rfl, by decide +kernel⟩

theorem sent_hello : sent hello = .ok ([8, 0, 0, 0] ++ [10, 0, 0, 0, 22, 0, 0, 0]) := by
  decide +kernel

theorem written_hello :
    writeMessage (.hello 22 : Response) = .ok ([8, 0, 0, 0] ++ [10, 0, 0, 0, 22, 0, 0, 0]) := by
      decide +kernel

/-- A client says hello, and both sides read the frame of the other in two pieces. -/
theorem conversation_hello : ∃ s, Faithful Tables.linkedRecords unguarded 0 s ∧
    s.results = [(hello, .ok (.ofResponse (.hello 22)))] := by
  have hStart : Reaches Tables.linkedRecords unguarded 0 (start fun _ => ()) := ⟨_, .refl⟩
  have hAccepted := hStart.step (.accept none rfl)
  have hSent := hAccepted.step (.send rfl typed_hello sent_hello)
  have hHeader :=
    hSent.step (.read [8, 0, 0, 0] [10, 0, 0, 0, 22, 0, 0, 0] rfl rfl rfl (by decide) (by decide))
  have hRead :=
    hHeader.step (.read [10, 0, 0, 0, 22, 0, 0, 0] [] rfl rfl rfl (by decide) (by decide))
  have hReceived := hRead.step (.receive (.hello 22) false rfl rfl)
  have hAnswered := hReceived.step (.respond rfl written_hello rfl)
  have hBack :=
    hAnswered.step (.recv [8, 0, 0, 0] [10, 0, 0, 0, 22, 0, 0, 0] rfl rfl (by decide) (by decide))
  have hReply := hBack.step (.recv [10, 0, 0, 0, 22, 0, 0, 0] [] rfl rfl (by decide) (by decide))
  have hDone := hReply.step (.finish rfl)
  exact ⟨_, (conversation hDone).2, rfl⟩

end Conversation

end MultimodalDb.Python
