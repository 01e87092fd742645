import MultimodalDb.Concurrency.Stores

/-!
# Shared stores cannot be told from one that does a call at once

However the calls of the threads interleave at a `GlobalRwLockStore` or an `ActorStore`, a client
sees what it might see of a kennel that does every call at once. No call panics and none finds the
worker gone. When no call is open, the store holds what the calls come to that were made, one after
the other in an order that each thread's own calls have.
-/

namespace MultimodalDb

/-- What a kennel does to a call. -/
def Kennel.act : (c : ConcurrentCall) → Kennel → c.Reply × Kennel
  | .get id, k => (some (.ok (k.find id)), k)
  | .scanAges, k => (some (.ok (k.dogs.map (·.age))), k)
  | .updateAge id age, k => (some ((k.answer id).mapError .store), k.setAge id age)

/-- The dogs of some records. Nobody asks a shared store for neighbors. -/
def Kennel.ofRecords (records : List DogRecord) (hIds : (records.map (·.id)).Nodup) : Kennel :=
  ⟨records, [], hIds, fun _ hMem => absurd hMem List.not_mem_nil⟩

namespace CanonicalCachedStore

variable {s : CanonicalCachedStore} {k : Kennel} {id : Uuid} {age : UInt32}

/-- The store holds the kennel, whatever neighbors it has. -/
def Holds (s : CanonicalCachedStore) (k : Kennel) : Prop := Rep { s with adjacencyIndex := ∅ } k

theorem holds_new {records : List DogRecord} (hIds : (records.map (·.id)).Nodup)
    (edges : List (Uuid × Uuid)) :
    Holds (new records edges) (.ofRecords records hIds) :=
  rep_new (.ofRecords records hIds)

theorem run_cloneCells (s : CanonicalCachedStore) (i n : Nat) :
    Program.run answer (cloneCells i n) s = ((s.ageCache.drop i).take n, s) := by
  induction n generalizing i with
  | zero => rfl
  | succ n ih =>
    show Program.run answer (access (.cell i) >>= fun cell => cloneCells (i + 1) n >>= fun cells =>
      pure (cell.toList ++ cells)) s = _
    have hCell : Program.run answer (access (.cell i)) s = (s.ageCache[i]?, s) := rfl
    have hDrop : (s.ageCache.drop i).take (n + 1) =
        (s.ageCache[i]?).toList ++ (s.ageCache.drop (i + 1)).take n := by
      by_cases hIn : i < s.ageCache.length
      · rw [List.drop_eq_getElem_cons hIn, List.take_succ_cons, List.getElem?_eq_getElem hIn]
        rfl
      · have hOut := Nat.le_of_not_lt hIn
        rw [List.drop_eq_nil_of_le hOut, List.drop_eq_nil_of_le (Nat.le_succ_of_le hOut),
          List.getElem?_eq_none hOut,
          List.take_nil, List.take_nil, Option.toList_none, List.append_nil]
    rw [Program.run_bind, hCell, Program.run_bind, ih, hDrop]
    rfl

theorem run_scanAges (s : CanonicalCachedStore) :
    Program.run answer (method .scanAges) s = (some (.ok s.ageCache), s) := by
  show Program.run answer (access .cells >>= fun n => cloneCells 0 n >>= fun cells =>
    pure (some (Except.ok cells))) s = _
  have hCells : Program.run answer (access .cells) s = (s.ageCache.length, s) := rfl
  rw [Program.run_bind, hCells, Program.run_bind, run_cloneCells, List.drop_zero, List.take_length]
  rfl

/-- An update that comes to an end, access after access. -/
theorem run_updateAge {result : Except StoreError Unit} {s' : CanonicalCachedStore}
    (h : updateAge id age s = some (result, s')) :
    Program.run answer (method (.updateAge id age)) s = (some (result.mapError .store), s') := by
  unfold updateAge at h
  have hRecord : Program.run answer (access (.record id)) s = (s.records.lookup id, s) := rfl
  show Program.run answer (access (.record id) >>= _) s = _
  rw [Program.run_bind, hRecord]
  cases hLookup : s.records.lookup id with
  | none =>
    rw [hLookup] at h
    cases h
    rfl
  | some record =>
    rw [hLookup] at h
    obtain ⟨position, hPosition, hRest⟩ := Option.bind_eq_some_iff.mp h
    split at hRest
    · next hBound =>
      cases hRest
      have hSet : answer (.setAge id age) s =
          ((), { s with records := s.records.insert id { record with age := age } }) := by
        rw [answer, hLookup]
        rfl
      have hPlace (records : AList fun _ : Uuid => DogRecord) :
          answer (.position id) { s with records := records } =
          (some position, { s with records := records }) := by rw [answer, hPosition]
      have hCell (records : AList fun _ : Uuid => DogRecord) :
          answer (.setCell position age) { s with records := records } =
            (true, { s with records := records, ageCache := s.ageCache.set position age }) := by
        rw [answer, decide_eq_true hBound]
      dsimp only [access]
      rw [Program.ask_bind, Program.run_call, hSet]
      dsimp only
      rw [Program.ask_bind, Program.run_call, hPlace]
      dsimp only
      rw [Program.ask_bind, Program.run_call, hCell]
      rfl
    · cases hRest

/-- The neighbors are nothing to an update. -/
theorem updateAge_edges (s : CanonicalCachedStore) (id : Uuid) (age : UInt32) :
    updateAge id age { s with adjacencyIndex := ∅ } =
      (updateAge id age s).map fun p => (p.1, { p.2 with adjacencyIndex := ∅ }) := by
  unfold updateAge
  dsimp only
  cases s.records.lookup id with
  | none => rfl
  | some record =>
    dsimp only
    cases s.positionIndex.lookup id with
    | none => rfl
    | some position =>
      dsimp only [Option.bind_eq_bind, Option.bind_some]
      split
      · rfl
      · rfl

/-- **A call of the store** is one of the kennel that it holds. -/
theorem Holds.method (h : Holds s k) (c : ConcurrentCall) :
    (Program.run answer (method c) s).1 = (Kennel.act c k).1 ∧
      Holds (Program.run answer (CanonicalCachedStore.method c) s).2 (Kennel.act c k).2 := by
  cases c with
  | get id => exact ⟨congrArg (fun record => some (Except.ok record)) (h.maps.records id), h⟩
  | scanAges =>
    rw [run_scanAges]
    exact ⟨congrArg (fun ages => some (Except.ok ages)) h.ages, h⟩
  | updateAge id age =>
    obtain ⟨s', hUpdate, hNext⟩ := implements.update h id age
    have hUpdate : updateAge id age { s with adjacencyIndex := ∅ } = some (k.answer id, s') :=
      hUpdate
    rw [updateAge_edges] at hUpdate
    obtain ⟨p, hSome, hPair⟩ := Option.map_eq_some_iff.mp hUpdate
    obtain ⟨result, s''⟩ := p
    obtain ⟨rfl, rfl⟩ := Prod.mk.inj hPair
    rw [run_updateAge hSome]
    exact ⟨rfl, hNext⟩

end CanonicalCachedStore

/-! ## What a client sees -/

variable {records : List DogRecord}

/-- Calls that were made one after the other come to what a store holds: every thread's calls are
among them in the order in which it made them, with the replies that it got. -/
structure Replays (start : Kennel) (h : List (Seen ConcurrentCall ConcurrentCall.Reply))
    (s : CanonicalCachedStore) : Prop where
  order : ∃ ops k, Atomic.Legal Kennel.act start ops k ∧
    (∀ t, Atomic.opsOf t ops = Atomic.returned t h) ∧
    (∀ id, s.records.lookup id = k.find id) ∧ s.ageCache = k.dogs.map (·.age)

theorem replays_of_moves {start k : Kennel}
    {ts : Nat → Atomic.Thread ConcurrentCall ConcurrentCall.Reply}
    {h : List (Seen ConcurrentCall ConcurrentCall.Reply)} {s : CanonicalCachedStore}
    (hMoves : (Atomic.object Kennel.act start).Moves
      (Atomic.object Kennel.act start).start h (k, ts))
    (hHolds : s.Holds k) (hIdle : ∀ t, ts t = .idle) : Replays start h s := by
  obtain ⟨ops, hLegal, hThreads⟩ := Atomic.atomic_order hMoves
  refine ⟨ops, k, hLegal, fun t => ?_, hHolds.maps.records, hHolds.ages⟩
  have hThread : [] ++ Atomic.opsOf t ops = Atomic.returned t h ++ (ts t).pending := hThreads t
  rw [hIdle] at hThread
  exact hThread.trans (List.append_nil _)

def sampleDogs : List DogRecord := [⟨Uuid.ofNat 1, "lab", 3⟩, ⟨Uuid.ofNat 2, "pug", 7⟩]

theorem nodup_sampleDogs : (sampleDogs.map (·.id)).Nodup := by decide +kernel

/-- An update and a scan that are open at once. -/
def overlapping : List (Seen ConcurrentCall ConcurrentCall.Reply) :=
  [.call 1 (.updateAge (Uuid.ofNat 1) 9), .call 2 .scanAges,
    .ret 1 (.updateAge (Uuid.ofNat 1) 9) (some (.ok ())), .ret 2 .scanAges (some (.ok [9, 7]))]

namespace GlobalRwLockStore

def single : Locked.Single locked := ⟨fun c => c, fun _ r => r, fun _ => rfl⟩

theorem act_holds (c : ConcurrentCall) (parts : Unit → CanonicalCachedStore) (k : Kennel)
    (hHolds : (parts ()).Holds k) :
    (single.act c parts).1 = (Kennel.act c k).1 ∧
      ((single.act c parts).2 ()).Holds (Kennel.act c k).2 := by
  obtain ⟨hReply, hNext⟩ := hHolds.method c
  refine ⟨hReply, ?_⟩
  show (Function.update parts ()
    (Program.run CanonicalCachedStore.answer (CanonicalCachedStore.method c) (parts ())).2
    ()).Holds _
  rwa [Function.update_self]

theorem follows_kennel (hIds : (records.map (·.id)).Nodup) (edges : List (Uuid × Uuid)) :
    System.Follows (Atomic.object single.act fun _ => CanonicalCachedStore.new records edges)
      (Atomic.object Kennel.act (.ofRecords records hIds)) fun x y =>
        (x.1 ()).Holds y.1 ∧ x.2 = y.2 :=
  Atomic.follows_of_acts (by exact CanonicalCachedStore.holds_new hIds edges) act_holds

/-- **Linearizable.** A client of the store sees what it might see of a kennel; and whenever no call
is open, the store holds what the calls come to, made one after the other. -/
theorem linearizable (hIds : (records.map (·.id)).Nodup) (edges : List (Uuid × Uuid)) :
    (new records edges).Histories ⊆ (Atomic.object Kennel.act (.ofRecords records hIds)).Histories ∧
      ∀ h s, (new records edges).Moves (new records edges).start h s → (∀ t, s.threads t = .idle) →
        Replays (.ofRecords records hIds) h (s.parts ()) := by
  have hFollows :=
    ((Locked.follows_sections _).trans (single.follows_object _)).trans (follows_kennel hIds edges)
  refine ⟨hFollows.histories_subset, fun h s hMoves hIdle => ?_⟩
  obtain ⟨y, hThere, x, ⟨z, hMirrors, hSame, hTracks⟩, hHolds, hThreads⟩ :=
    hFollows.moves hFollows.start hMoves
  obtain ⟨hParts, hRest⟩ := hMirrors.at_rest hIdle
  rw [← hSame, ← hParts] at hHolds
  refine replays_of_moves hThere hHolds fun t => ?_
  rw [← hThreads]
  exact Locked.Single.Tracks.of_idle single (hRest t ▸ hTracks t)

theorem linearizable_sample :
    overlapping ∈ (Atomic.object Kennel.act (.ofRecords sampleDogs nodup_sampleDogs)).Histories ∧
      ∃ s, (new sampleDogs []).Moves (new sampleDogs []).start overlapping s ∧
        Replays (.ofRecords sampleDogs nodup_sampleDogs) overlapping (s.parts ()) := by
  obtain ⟨hSubset, hReplays⟩ := linearizable nodup_sampleDogs []
  have hMoves : (new sampleDogs []).Moves (new sampleDogs []).start overlapping _ :=
    Locked.moves_overlapping (by decide) _ _ _
  exact ⟨hSubset ⟨_, hMoves⟩, _, hMoves, hReplays _ _ hMoves fun _ => rfl⟩

end GlobalRwLockStore

namespace ActorStore

theorem act_holds (c : ConcurrentCall) (s : CanonicalCachedStore) (k : Kennel)
    (hHolds : s.Holds k) :
    (actor.act c s).1 = (Kennel.act c k).1 ∧ (actor.act c s).2.Holds (Kennel.act c k).2 := by
  obtain ⟨hReply, hNext⟩ := hHolds.method c
  have hAct : actor.act c s = (replied c (Kennel.act c k).1,
      (Program.run CanonicalCachedStore.answer (CanonicalCachedStore.method c) s).2) := by
    show Program.run CanonicalCachedStore.answer (replied c <$> CanonicalCachedStore.method c) s = _
    rw [Program.run_map, hReply]
  rw [hAct]
  refine ⟨?_, hNext⟩
  cases c with
  | get id => rfl
  | scanAges => rfl
  | updateAge id age => rfl

/-- **Linearizable.** A client of the store sees what it might see of a kennel; and whenever no call
is open, the worker holds what the calls come to, made one after the other. -/
theorem linearizable_actor (hIds : (records.map (·.id)).Nodup) (edges : List (Uuid × Uuid)) :
    (new records edges).Histories ⊆ (Atomic.object Kennel.act (.ofRecords records hIds)).Histories ∧
      ∀ h s, (new records edges).Moves (new records edges).start h s → (∀ t, s.threads t = .idle) →
        Replays (.ofRecords records hIds) h s.contents := by
  have hFollows := (Actor.follows_object (O := actor)
    (CanonicalCachedStore.new records edges)).trans
    (Atomic.follows_of_acts (CanonicalCachedStore.holds_new hIds edges) act_holds)
  refine ⟨hFollows.histories_subset, fun h s hMoves hIdle => ?_⟩
  obtain ⟨y, hThere, x, hMirrors, hHolds, hThreads⟩ := hFollows.moves hFollows.start hMoves
  obtain ⟨hContents, hRest⟩ := hMirrors.at_rest hIdle
  rw [← hContents] at hHolds
  refine replays_of_moves hThere hHolds fun t => ?_
  rw [← hThreads]
  exact hRest t

theorem linearizable_actor_sample :
    overlapping ∈ (Atomic.object Kennel.act (.ofRecords sampleDogs nodup_sampleDogs)).Histories ∧
      ∃ s, (new sampleDogs []).Moves (new sampleDogs []).start overlapping s ∧
        Replays (.ofRecords sampleDogs nodup_sampleDogs) overlapping s.contents := by
  obtain ⟨hSubset, hReplays⟩ := linearizable_actor nodup_sampleDogs []
  have hMoves : (new sampleDogs []).Moves (new sampleDogs []).start overlapping _ :=
    Actor.moves_overlapping (by decide) _ _ _
  exact ⟨hSubset ⟨_, hMoves⟩, _, hMoves, hReplays _ _ hMoves fun _ => rfl⟩

end ActorStore

end MultimodalDb
