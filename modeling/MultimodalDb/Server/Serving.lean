import MultimodalDb.Lib.Machine
import MultimodalDb.Server.Connection
import Mathlib.Logic.Function.Basic

/-!
# A server and its connections

Every connection has a thread of its own. A thread waits for a request, serves it call by call, and
answers; between two calls of one thread the others make theirs. `step` is the next step of one
connection in a server, and `acts` keeps what each connection did, the newest first.

* `moves_of_move`: what one step of a connection can be.
* `peer_invariant`: what every step of a connection preserves, whatever the tables hold, holds of
  every connection of every run.
-/

namespace MultimodalDb

variable {n : Nat} {σ : Fin n → Type}

/-- What the tables hold. -/
abbrev Contents (σ : Fin n → Type) := (i : Fin n) → σ i

inductive Act (σ : Fin n → Type) where
  | accepted (certificate : Option Bytes)
  | received (req : Request)
  | called (c : Call n) (reply : c.Reply) (before : Contents σ)
  | answered (req : Request) (resp : Response)
  | hungUp

def Act.isCall : Act σ → Bool
  | .called .. => true
  | _ => false

inductive Worker (n : Nat) where
  | absent
  | idle (conn : Conn n)
  | serving (conn : Conn n) (req : Request) (program : Serving n (Served n))
  | closed

/-- The connection behind a thread, as its last answer left it. -/
def Worker.conn? : Worker n → Option (Conn n)
  | .idle c | .serving c _ _ => some c
  | .absent | .closed => none

structure Peer (σ : Fin n → Type) where
  worker : Worker n
  acts : List (Act σ)

structure Server (σ : Fin n → Type) where
  world : Contents σ
  peers : Nat → Peer σ

/-- What a connection does next. The journal's answer, whether the peer's budget of failed logins is
spent and whether an answer is delivered are not up to the server. -/
inductive ConnEvent where
  | accept (certificate : Option Bytes)
  | receive (req : Request) (throttled : Bool)
  | call (taken : Bool)
  | respond (delivered : Bool)
  | hangUp

namespace Tables

variable (T : Tables n σ) (options : ServeOptions)

/-- A call at the tables. -/
def answer (taken : Bool) (c : Call n) (w : Contents σ) : c.Reply × Contents σ :=
  match c with
  | ⟨i, .read r⟩ => ((T.store i).read r (w i), w)
  | ⟨i, .write x⟩ =>
    let (reply, s) := (T.store i).write x (w i)
    (reply, Function.update w i s)
  | ⟨_, .journal _⟩ => (taken, w)

def move (w : Contents σ) (peer : Peer σ) (e : ConnEvent) : Option (Peer σ × Contents σ) :=
  match e, peer.worker with
  | .accept certificate, .absent =>
    some (⟨.idle (T.admitted options certificate), .accepted certificate :: peer.acts⟩, w)
  | .receive req throttled, .idle c =>
    some (⟨.serving c req (T.handle options throttled c req), .received req :: peer.acts⟩, w)
  | .call taken, .serving c req (.call here next) =>
    let (reply, w') := T.answer taken here w
    some (⟨.serving c req (next reply), .called here reply w :: peer.acts⟩, w')
  | .respond delivered, .serving _ req (.done served) =>
    some (⟨if served.closed || !delivered then .closed else .idle served.conn,
      .answered req served.response :: peer.acts⟩, w)
  | .hangUp, .idle _ => some (⟨.closed, .hungUp :: peer.acts⟩, w)
  | _, _ => none

def step (s : Server σ) (e : Nat × ConnEvent) : Option (Server σ) :=
  (T.move options s.world (s.peers e.1) e.2).map fun (peer, world) =>
    ⟨world, Function.update s.peers e.1 peer⟩

/-- A server that was just started. -/
def started (w : Contents σ) : Server σ := ⟨w, fun _ => ⟨.absent, []⟩⟩

/-- The states that a server reaches. -/
abbrev Reaches (s : Server σ) : Prop := ∃ w, Machine.Reachable (T.step options) (started w) s

/-! ## One step -/

inductive Moves (w : Contents σ) : Peer σ → Peer σ → Contents σ → Prop where
  | accept {acts} (certificate : Option Bytes) :
    Moves w ⟨.absent, acts⟩ ⟨.idle (T.admitted options certificate), .accepted certificate :: acts⟩
      w
  | receive {c acts} (req : Request) (throttled : Bool) :
    Moves w ⟨.idle c, acts⟩ ⟨.serving c req (T.handle options throttled c req),
      .received req :: acts⟩ w
  | call {c req acts} (taken : Bool) (here : Call n) (next : here.Reply → Serving n (Served n)) :
    Moves w ⟨.serving c req (.call here next), acts⟩
      ⟨.serving c req (next (T.answer taken here w).1),
      .called here (T.answer taken here w).1 w :: acts⟩ (T.answer taken here w).2
  | respond {c req acts} (served : Served n) (hOpen : served.closed = false) :
    Moves w ⟨.serving c req (.done served), acts⟩
      ⟨.idle served.conn, .answered req served.response :: acts⟩ w
  | close {c req acts} (served : Served n) :
    Moves w ⟨.serving c req (.done served), acts⟩ ⟨.closed, .answered req served.response :: acts⟩ w
  | hangUp {c acts} : Moves w ⟨.idle c, acts⟩ ⟨.closed, .hungUp :: acts⟩ w

variable {T options}

/-- **A step of a connection.** -/
theorem moves_of_move {w w' : Contents σ} {peer peer' : Peer σ} {e : ConnEvent}
    (h : T.move options w peer e = some (peer', w')) : T.Moves options w peer peer' w' := by
  obtain ⟨worker, acts⟩ := peer
  unfold move at h
  dsimp only at h
  split at h
  · cases h
    exact .accept _
  · cases h
    exact .receive _ _
  · cases h
    exact .call _ _ _
  · next served =>
    cases h
    split
    · exact .close served
    · next hOpen =>
      rw [Bool.or_eq_true, not_or, Bool.not_eq_true] at hOpen
      exact .respond served hOpen.1
  · cases h
    exact .hangUp
  · cases h

theorem moves_of_step {s s' : Server σ} {e : Nat × ConnEvent} (h : T.step options s e = some s') :
    ∃ peer, T.Moves options s.world (s.peers e.1) peer s'.world ∧
      s'.peers = Function.update s.peers e.1 peer := by
  obtain ⟨⟨peer, world⟩, hMove, rfl⟩ := Option.map_eq_some_iff.mp h
  exact ⟨peer, moves_of_move hMove, rfl⟩

/-! ## Runs -/

/-- **Invariants of connections.** -/
theorem peer_invariant {P : Peer σ → Prop} (hStart : P ⟨.absent, []⟩)
    (hMove : ∀ w peer peer' w', T.Moves options w peer peer' w' → P peer → P peer') {s : Server σ}
    (h : T.Reaches options s) (k : Nat) : P (s.peers k) := by
  obtain ⟨w, hRun⟩ := h
  refine hRun.invariant (P := fun s => ∀ k, P (s.peers k)) (fun _ => hStart) ?_ k
  intro t e u _ hHere _ hStep j
  obtain ⟨peer, hMoves, hPeers⟩ := moves_of_step hStep
  rw [hPeers]
  by_cases hj : j = e.1
  · subst hj
    rw [Function.update_self]
    exact hMove _ _ _ _ hMoves (hHere e.1)
  · rw [Function.update_of_ne hj]
    exact hHere j

end Tables

end MultimodalDb
