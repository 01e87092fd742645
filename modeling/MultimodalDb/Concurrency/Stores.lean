import MultimodalDb.Lib.Actors
import MultimodalDb.Lib.Locks
import MultimodalDb.Store.LayoutsAgree

/-!
# Stores that threads share

Three stores behind one trait, whose methods the threads of a program call as they please.
`GlobalRwLockStore` keeps a `CanonicalCachedStore` behind one lock, and `ActorStore` gives one to a
worker thread. `ShardedStore` keeps the records in maps, each behind a lock of its own.

A method is what it does to the memory of the store, one access after the other. Another thread may
come in between unless a lock keeps it out.
-/

namespace MultimodalDb

inductive ConcurrencyError where
  | store (e : StoreError)
  | actorDisconnected
  deriving DecidableEq

/-- A call of the trait `ConcurrentStore`. -/
inductive ConcurrentCall where
  | get (id : Uuid)
  | scanAges
  | updateAge (id : Uuid) (age : UInt32)
  deriving DecidableEq

/-- What a call returns. One that panics returns nothing. -/
abbrev Answered (α : Type) : Type := Option (Except ConcurrencyError α)

@[reducible] def ConcurrentCall.Reply : ConcurrentCall → Type
  | get _ => Answered (Option DogRecord)
  | scanAges => Answered (List UInt32)
  | updateAge .. => Answered Unit

/-- Whether a call takes `&self` of the store behind the lock. -/
def ConcurrentCall.reads : ConcurrentCall → Bool
  | get _ | scanAges => true
  | updateAge .. => false

/-! ## One store -/

namespace CanonicalCachedStore

/-- An access to the maps and the column. -/
inductive Access where
  | record (id : Uuid)
  | setAge (id : Uuid) (age : UInt32)
  | position (id : Uuid)
  | cells
  | cell (i : Nat)
  | setCell (i : Nat) (age : UInt32)

@[reducible] def Access.Got : Access → Type
  | record _ => Option DogRecord
  | setAge .. => Unit
  | position _ => Option Nat
  | cells => Nat
  | cell _ => Option UInt32
  | setCell .. => Bool

def answer (a : Access) (s : CanonicalCachedStore) : a.Got × CanonicalCachedStore :=
  match a with
  | .record id => (s.records.lookup id, s)
  | .setAge id age =>
    ((), (s.records.lookup id).elim s fun record =>
      { s with records := s.records.insert id { record with age := age } })
  | .position id => (s.positionIndex.lookup id, s)
  | .cells => (s.ageCache.length, s)
  | .cell i => (s.ageCache[i]?, s)
  | .setCell i age => (decide (i < s.ageCache.length), { s with ageCache := s.ageCache.set i age })

abbrev Accesses (α : Type) := Program Access Access.Got α

def access (a : Access) : Accesses a.Got := Program.ask a

/-- The cells from the `i`-th on, of which there are `n`. -/
def cloneCells : Nat → Nat → Accesses (List UInt32)
  | _, 0 => pure []
  | i, n + 1 => do
    let cell ← access (.cell i)
    return cell.toList ++ (← cloneCells (i + 1) n)

def method : (c : ConcurrentCall) → Accesses c.Reply
  | .get id => do
    let record ← access (.record id)
    return some (.ok record)
  | .scanAges => do
    let n ← access .cells
    return some (.ok (← cloneCells 0 n))
  | .updateAge id age => do
    match ← access (.record id) with
    | none => return some (.error (.store (.notFound id)))
    | some _ =>
      access (.setAge id age)
      match ← access (.position id) with
      | none => return none
      | some position =>
        if ← access (.setCell position age) then
          return some (.ok ())
        else
          return none

theorem meets_cloneCells (n i : Nat) :
    (cloneCells i n).Meets (fun a => ∀ s, (answer a s).2 = s) fun _ => True := by
  induction n generalizing i with
  | zero => trivial
  | succ n ih =>
    exact Program.Meets.bind (.ask fun _ => rfl) fun _ _ => (ih (i + 1)).map fun _ _ => trivial

theorem method_reads {c : ConcurrentCall} (h : c.reads = true) :
    (method c).Meets (fun a => ∀ s, (answer a s).2 = s) fun _ => True := by
  cases c with
  | get id => exact Program.Meets.bind (.ask fun _ => rfl) fun _ _ => trivial
  | scanAges =>
    exact Program.Meets.bind (.ask fun _ => rfl) fun n _ =>
      (meets_cloneCells n 0).map fun _ _ => trivial
  | updateAge id age => cases h

end CanonicalCachedStore

namespace GlobalRwLockStore

/-- One lock around the whole store: every call is one section. -/
def locked :
    Locked Unit ConcurrentCall CanonicalCachedStore.Access ConcurrentCall ConcurrentCall.Reply
    CanonicalCachedStore.Access.Got ConcurrentCall.Reply CanonicalCachedStore where
  answer := CanonicalCachedStore.answer
  lock _ := ()
  shares := ConcurrentCall.reads
  body := CanonicalCachedStore.method
  script c := .call c .done
  body_reads := CanonicalCachedStore.method_reads

def new (records : List DogRecord) (edges : List (Uuid × Uuid)) :
    System (Seen ConcurrentCall ConcurrentCall.Reply) :=
  locked.object fun _ => CanonicalCachedStore.new records edges

end GlobalRwLockStore

namespace ActorStore

/-- The worker's call would end with the worker, and the caller would find it gone. -/
def replied : (c : ConcurrentCall) → c.Reply → c.Reply
  | .get _, r => r.or (some (.error .actorDisconnected))
  | .scanAges, r => r.or (some (.error .actorDisconnected))
  | .updateAge .., r => r.or (some (.error .actorDisconnected))

def actor : Actor CanonicalCachedStore.Access ConcurrentCall CanonicalCachedStore.Access.Got
    ConcurrentCall.Reply CanonicalCachedStore where
  answer := CanonicalCachedStore.answer
  body c := replied c <$> CanonicalCachedStore.method c

def new (records : List DogRecord) (edges : List (Uuid × Uuid)) :
    System (Seen ConcurrentCall ConcurrentCall.Reply) :=
  actor.object (CanonicalCachedStore.new records edges)

end ActorStore

/-! ## Shards -/

namespace ShardedStore

def SHARD_COUNT : Nat := 64

/-- `Uuid::as_u128`. -/
def asU128 (id : Uuid) : Nat := id.bytes.foldl (fun n b => n * 256 + b.toNat) 0

def shardIndex (id : Uuid) : Fin SHARD_COUNT := ⟨asU128 id % SHARD_COUNT, Nat.mod_lt _ (by decide)⟩

abbrev Shard := AList (fun _ : Uuid => DogRecord)

/-- An access to the map of a shard. -/
inductive Access where
  | keys
  | record (id : Uuid)
  | setAge (id : Uuid) (age : UInt32)

@[reducible] def Access.Got : Access → Type
  | keys => List Uuid
  | record _ => Option DogRecord
  | setAge .. => Unit

def answer (a : Access) (s : Shard) : a.Got × Shard :=
  match a with
  | .keys => (s.keys, s)
  | .record id => (s.lookup id, s)
  | .setAge id age =>
    ((), (s.lookup id).elim s fun record => s.insert id { record with age := age })

abbrev Accesses (α : Type) := Program Access Access.Got α

def access (a : Access) : Accesses a.Got := Program.ask a

/-- What a thread does while it holds the lock of a shard. -/
inductive Held where
  | get (id : Uuid)
  | ages (shard : Fin SHARD_COUNT)
  | updateAge (id : Uuid) (age : UInt32)

@[reducible] def Held.Ret : Held → Type
  | get _ => Option DogRecord
  | ages _ => List UInt32
  | updateAge .. => Except ConcurrencyError Unit

def Held.shard : Held → Fin SHARD_COUNT
  | get id => shardIndex id
  | ages shard => shard
  | updateAge id _ => shardIndex id

def Held.reads : Held → Bool
  | get _ | ages _ => true
  | updateAge .. => false

/-- The ages of some records, read one after the other. -/
def agesOf : List Uuid → Accesses (List UInt32)
  | [] => pure []
  | id :: ids => do
    let record ← access (.record id)
    return (record.map (·.age)).toList ++ (← agesOf ids)

def body : (k : Held) → Accesses k.Ret
  | .get id => access (.record id)
  | .ages _ => do
    let ids ← access .keys
    agesOf ids
  | .updateAge id age => do
    match ← access (.record id) with
    | none => return .error (.store (.notFound id))
    | some _ =>
      access (.setAge id age)
      return .ok ()

/-- The ages of some shards, behind those there are. -/
def scanShards : List (Fin SHARD_COUNT) → List UInt32 → Program Held Held.Ret (List UInt32)
  | [], ages => .done ages
  | shard :: shards, ages => .call (.ages shard) fun here => scanShards shards (ages ++ here)

def script : (c : ConcurrentCall) → Program Held Held.Ret c.Reply
  | .get id => .call (.get id) fun record => .done (some (.ok record))
  | .scanAges => (fun ages => some (.ok ages)) <$> scanShards (List.finRange SHARD_COUNT) []
  | .updateAge id age => .call (.updateAge id age) fun result => .done (some result)

theorem meets_agesOf (ids : List Uuid) :
    (agesOf ids).Meets (fun a => ∀ s, (answer a s).2 = s) fun _ => True := by
  induction ids with
  | nil => trivial
  | cons id ids ih =>
    exact Program.Meets.bind (.ask fun _ => rfl) fun _ _ => ih.map fun _ _ => trivial

theorem body_reads {k : Held} (h : k.reads = true) :
    (body k).Meets (fun a => ∀ s, (answer a s).2 = s) fun _ => True := by
  cases k with
  | get id => exact ⟨fun _ => rfl, fun _ => trivial⟩
  | ages shard => exact Program.Meets.bind (.ask fun _ => rfl) fun ids _ => meets_agesOf ids
  | updateAge id age => cases h

/-- A call on one record is one section, and a scan is one for each shard. -/
def locked : Locked (Fin SHARD_COUNT) Held Access ConcurrentCall Held.Ret Access.Got
    ConcurrentCall.Reply Shard where
  answer := answer
  lock := Held.shard
  shares := Held.reads
  body := body
  script := script
  body_reads := body_reads

/-- The records, each in its shard. Of two with one id the later counts. -/
def shards (records : List DogRecord) : Fin SHARD_COUNT → Shard :=
  records.foldl (fun shards r =>
    Function.update shards (shardIndex r.id) ((shards (shardIndex r.id)).insert r.id r)) fun _ => ∅

def new (records : List DogRecord) : System (Seen ConcurrentCall ConcurrentCall.Reply) :=
  locked.object (shards records)

end ShardedStore

end MultimodalDb
