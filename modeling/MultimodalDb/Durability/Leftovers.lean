import MultimodalDb.Durability.LsmHistory
import MultimodalDb.Lib.TwinRuns

/-!
# What a new store finds

`create` empties the log and leaves every other file where it is, and the next opening reads what an
earlier store wrote there before the records it is given. A new store behaves like one in an empty
directory just when the opening would find nothing (`new_store_starts_over`): no base, no snapshot,
and sorted files that are readable with nothing in them.

Two stores with a state in memory take the same steps when the two files that they look at are the
same (`Keeping`). Two with sorted files need not have the same files; they are compared by the ages
that they show.
-/

namespace MultimodalDb

open Method Disk Wal

/-! ## Later histories -/

/-- What a caller can do with a store that was created. -/
inductive StoreCall where
  | updateAge (id : Uuid) (age : UInt32)
  | checkpoint
  | reopen (records : List DogRecord) (edges : List (Uuid × Uuid))
  | get (id : Uuid)

def StoreCall.event : StoreCall → StoreEvent
  | .updateAge id age => .updateAge id age []
  | .checkpoint => .checkpoint []
  | .reopen records edges => .reopen records edges
  | .get id => .get id

namespace LogVariant

variable {S : Type}

/-- What is told of a call: the answer to a `get`. -/
def told : StoreCall → StoreReply → Option StoreReply
  | .get _, reply => some reply
  | _, _ => none

/-- What the gets of a history are answered. -/
def gets (L : LogVariant S) (dir : Path) : Process S → List StoreCall → List StoreReply
  | _, [] => []
  | st, call :: calls =>
    (told call (L.step dir st call.event).1).toList ++ gets L dir (L.step dir st call.event).2 calls

/-- A store that is created on this disk. -/
def newStore (L : LogVariant S) (records : List DogRecord) (edges : List (Uuid × Uuid)) (dir : Path)
    (d : Disk) :
    Process S :=
  (built (L.create records edges dir) d).2

/-- A store created here answers every get of every later history as one in an empty directory does.
-/
def StartsOver (L : LogVariant S) (dir : Path) (d : Disk) : Prop :=
  ∀ records edges calls, L.gets dir (L.newStore records edges dir d) calls =
    L.gets dir (L.newStore records edges dir fun _ => none) calls

variable {L : LogVariant S} {dir : Path} {d : Disk}

/-- Two processes that are told the same at every step. -/
theorem gets_congr {R : Process S → Process S → Prop}
    (h : ∀ p q call, R p q → told call (L.step dir p call.event).1 =
      told call (L.step dir q call.event).1 ∧
      R (L.step dir p call.event).2 (L.step dir q call.event).2)
    {p q : Process S} (hStart : R p q) (calls : List StoreCall) :
    L.gets dir p calls = L.gets dir q calls := by
  induction calls generalizing p q with
  | nil => rfl
  | cons call calls ih =>
    obtain ⟨hTold, hNext⟩ := h p q call hStart
    rw [gets, gets, hTold, ih hNext]

end LogVariant

/-! ## The same files -/

section SameFiles

variable {S T ε α : Type} {F : Set Path}

/-- Two ends that are told the same, in processes with the same store. -/
theorem LogVariant.answer_twin {I : S → Prop} {m : Method S ε α} (h : Alike F F I (fun _ => True) m)
    (value : α → StoreReply) (error : ε → StoreReply) {s : S} {d d' : Disk} (hI : I s)
    (hAgree : Agree F d d') :
    (answer m value error [] (some s, d)).1 = (answer m value error [] (some s, d')).1 ∧
      (answer m value error [] (some s, d)).2.1 = (answer m value error [] (some s, d')).2.1 ∧
      (∀ t, (answer m value error [] (some s, d)).2.1 = some t → I t) ∧
      Agree F (answer m value error [] (some s, d)).2.2
        (answer m value error [] (some s, d')).2.2 := by
  have hTwin := h s d d' hI hAgree []
  unfold answer
  dsimp only
  generalize m ⟨s, d, []⟩ = r at hTwin ⊢
  generalize m ⟨s, d', []⟩ = r' at hTwin ⊢
  cases hTwin with
  | ok hEnd => exact ⟨rfl, rfl, fun _ hEq => Option.some.inj hEq ▸ hEnd.2.1, hEnd.2.2.agree⟩
  | @error x t e e' rest hEnd =>
    cases x with
    | error x => exact ⟨rfl, rfl, fun _ hEq => Option.some.inj hEq ▸ hEnd.1, hEnd.2.agree⟩
    | panic => exact ⟨rfl, rfl, nofun, hEnd.2.agree⟩
    | crash => exact ⟨rfl, rfl, nofun, hEnd.2.agree⟩

theorem LogVariant.built_twin {I : S → Prop} {m : Method Unit DurabilityError S}
    (h : Alike F F (fun _ => True) I m) {d d' : Disk} (hAgree : Agree F d d') :
    (built m d).2.1 = (built m d').2.1 ∧ (∀ s, (built m d).2.1 = some s → I s) ∧
      Agree F (built m d).2.2 (built m d').2.2 := by
  have hTwin := h () d d' trivial hAgree []
  unfold built
  generalize m ⟨(), d, []⟩ = r at hTwin ⊢
  generalize m ⟨(), d', []⟩ = r' at hTwin ⊢
  cases hTwin with
  | ok hEnd => exact ⟨rfl, fun _ hEq => Option.some.inj hEq ▸ hEnd.1, hEnd.2.2.agree⟩
  | @error x t e e' rest hEnd =>
    cases x with
    | error x => exact ⟨rfl, nofun, hEnd.2.agree⟩
    | panic => exact ⟨rfl, nofun, hEnd.2.agree⟩
    | crash => exact ⟨rfl, nofun, hEnd.2.agree⟩

/-- A variant whose stores look at the log and at one more file only. -/
structure Keeping (L : LogVariant S) (I : S → Prop) (dir file : Path) : Prop where
  create : ∀ records edges, ∃ s, I s ∧ ∀ d,
    LogVariant.built (L.create records edges dir) d =
      (.done, some s, Function.update d (walPath dir) (some []))
  openStore : ∀ records edges,
    Alike {walPath dir, file} {walPath dir, file} (fun _ => True) I (L.openStore records edges dir)
  checkpoint : Alike {walPath dir, file} {walPath dir, file} I (fun _ => True) L.checkpoint
  updateAge : ∀ id age, Alike {walPath dir, file} {walPath dir, file} I (fun _ => True)
    (L.updateAge id age)
  get : ∀ id, Alike {walPath dir, file} {walPath dir, file} I (fun _ => True) (L.get id)

namespace Keeping

variable {L : LogVariant S} {I : S → Prop} {dir file : Path}

/-- One process on two disks. -/
structure Same (I : S → Prop) (dir file : Path) (p q : LogVariant.Process S) : Prop where
  store : p.1 = q.1
  live : ∀ s, p.1 = some s → I s
  agree : Agree {walPath dir, file} p.2 q.2

theorem same_answer {ε α : Type} {m : Method S ε α}
    (h : Alike {walPath dir, file} {walPath dir, file} I (fun _ => True) m)
    (value : α → StoreReply) (error : ε → StoreReply) {p q : LogVariant.Process S}
    (hSame : Same I dir file p q) :
    (LogVariant.answer m value error [] p).1 = (LogVariant.answer m value error [] q).1 ∧
      Same I dir file (LogVariant.answer m value error [] p).2
        (LogVariant.answer m value error [] q).2 := by
  obtain ⟨o, d⟩ := p
  obtain ⟨o', d'⟩ := q
  obtain rfl : o = o' := hSame.store
  cases o with
  | none => exact ⟨rfl, rfl, nofun, hSame.agree⟩
  | some s =>
    obtain ⟨hReply, hStore, hLive, hAgree⟩ :=
      LogVariant.answer_twin h value error (hSame.live s rfl) hSame.agree
    exact ⟨hReply, hStore, hLive, hAgree⟩

theorem same_step (h : Keeping L I dir file) (p q : LogVariant.Process S) (call : StoreCall)
    (hSame : Same I dir file p q) :
    LogVariant.told call (L.step dir p call.event).1 =
      LogVariant.told call (L.step dir q call.event).1 ∧
      Same I dir file (L.step dir p call.event).2 (L.step dir q call.event).2 := by
  cases call with
  | updateAge id age => exact ⟨rfl, (same_answer (h.updateAge id age) _ _ hSame).2⟩
  | checkpoint => exact ⟨rfl, (same_answer h.checkpoint _ _ hSame).2⟩
  | reopen records edges =>
    obtain ⟨hStore, hLive, hAgree⟩ := LogVariant.built_twin (h.openStore records edges) hSame.agree
    exact ⟨rfl, hStore, hLive, hAgree⟩
  | get id =>
    obtain ⟨hReply, hNext⟩ := same_answer (h.get id) .record .failed hSame
    exact ⟨congrArg some hReply, hNext⟩

/-- Where the other file is not there, a new store starts over. -/
theorem startsOver (h : Keeping L I dir file) {d : Disk} (hNone : d file = none) :
    L.StartsOver dir d := by
  intro records edges calls
  obtain ⟨s, hI, hCreate⟩ := h.create records edges
  refine LogVariant.gets_congr (h.same_step) ?_ calls
  rw [LogVariant.newStore, LogVariant.newStore, hCreate, hCreate]
  refine ⟨rfl, fun _ hEq => Option.some.inj hEq ▸ hI, fun path hPath => ?_⟩
  dsimp only
  by_cases hLog : path = walPath dir
  · rw [hLog, Function.update_self, Function.update_self]
  · rw [Function.update_of_ne hLog, Function.update_of_ne hLog, hPath.resolve_left hLog, hNone]

end Keeping

end SameFiles

/-! ## The variants with a state in memory -/

section Alike

variable {S : Type} {F : Set Path} {I : S → Prop} {path : Path}

theorem Wal.alike_appendWalEntry (h : path ∈ F) (entry : WalEntry) :
    Alike F F I (fun _ => True) (appendWalEntry path entry : Method S DurabilityError Unit) := by
  unfold appendWalEntry
  split
  · exact alike_fail _
  · exact (alike_appendAll h h _).bind fun _ _ => alike_appendAll h h _

theorem Wal.alike_readWalEntries (h : path ∈ F) :
    Alike F F I (fun _ => True)
      (readWalEntries path : Method S DurabilityError (List WalEntry)) := by
  refine (alike_fileExists h).bind fun present _ => ?_
  split
  · exact (alike_readFile h).bind fun _ _ => alike_ofExcept fun _ _ => trivial
  · exact alike_pure trivial

namespace CanonicalCachedState

theorem alike_readFrom (h : path ∈ F) :
    Alike F F I (fun _ => True)
      (readFrom path : Method S DurabilityError CanonicalCachedState) := by
  refine (alike_readFile h).bind fun bytes _ => ?_
  split
  · exact alike_fail _
  · exact alike_pure trivial

theorem alike_writeTo (h : path ∈ F) (s : CanonicalCachedState) :
    Alike F F I (fun _ => True) (s.writeTo path : Method S DurabilityError Unit) := by
  unfold writeTo
  split
  · exact alike_fail _
  · exact alike_writeFile h h _

theorem alike_updateAge (id : Uuid) (age : UInt32) :
    Alike F F (fun _ => True) (fun _ => True) (CanonicalCachedState.updateAge id age) := by
  refine alike_self.bind fun s _ => ?_
  split
  · exact alike_fail _
  · refine (alike_modifySelf fun _ _ => trivial).bind fun _ _ => ?_
    split
    · exact alike_fail _
    · split
      · exact alike_modifySelf fun _ _ => trivial
      · exact alike_panic

theorem alike_replayEntry (s : CanonicalCachedState) (entry : WalEntry) :
    Alike F F I (fun _ => True)
      (s.replayEntry entry : Method S DurabilityError CanonicalCachedState) :=
  ((alike_updateAge entry.id entry.age).mapError.runOn trivial).bind fun _ _ => alike_pure trivial

end CanonicalCachedState

end Alike

namespace WalStore

/-- The store is of this directory. -/
def InDir (dir : Path) (s : WalStore) : Prop :=
  s.basePath = basePathIn dir ∧ s.walPath = MultimodalDb.walPath dir

theorem alike_replay {S : Type} {F : Set Path} {I : S → Prop} (acc : CanonicalCachedState × UInt64)
    (entries : List WalEntry) :
    Alike F F I (fun _ => True)
      (replay acc entries : Method S DurabilityError (CanonicalCachedState × UInt64)) := by
  induction entries generalizing acc with
  | nil => exact alike_pure trivial
  | cons entry entries ih => exact (acc.1.alike_replayEntry entry).bind fun _ _ => ih _

theorem alike_restore {S : Type} {F : Set Path} {I : S → Prop} (records : List DogRecord)
    (edges : List (Uuid × Uuid)) {base : Path} (h : base ∈ F) :
    Alike F F I (fun _ => True)
      (restore records edges base : Method S DurabilityError CanonicalCachedState) := by
  refine (alike_fileExists h).bind fun present _ => ?_
  split
  · exact CanonicalCachedState.alike_readFrom h
  · exact alike_pure trivial

theorem keeping (fsync : Bool) (dir : Path) :
    Keeping (variant fsync) (InDir dir) dir (basePathIn dir) where
  create records edges := by
    refine ⟨⟨.new records edges, basePathIn dir, MultimodalDb.walPath dir, 0⟩, ⟨rfl, rfl⟩,
      fun d => ?_⟩
    rcases LogVariant.built_cases (wp_create (t := ()) (d := d)
      (A := LogVariant.refusing fun _ _ _ => False) (C := fun _ _ _ => True) (Q := fun s _ d' =>
        s = ⟨.new records edges, basePathIn dir, MultimodalDb.walPath dir, 0⟩ ∧
          d' = Function.update d (MultimodalDb.walPath dir) (some []))
      ⟨rfl, rfl⟩ fun _ => trivial) with ⟨s, d', hBuilt, rfl, rfl⟩ | ⟨_, _, _, hFalse⟩
    · exact hBuilt
    · exact hFalse.elim
  openStore records edges := by
    refine alike_createDirAll.bind fun _ _ =>
      (alike_restore records edges (by simp)).bind fun state _ => ?_
    refine (alike_readWalEntries (by simp)).bind fun entries _ =>
      (alike_replay _ entries).bind fun replayed _ => ?_
    exact (alike_openOrCreate (by simp) (by simp)).bind fun _ _ => alike_pure ⟨rfl, rfl⟩
  checkpoint := by
    refine alike_self.bind fun s hs => ?_
    refine (s.state.alike_writeTo (by rw [hs.1]; simp)).bind fun _ _ => ?_
    exact alike_createFile (by rw [hs.2]; simp) (by rw [hs.2]; simp)
  updateAge id age := by
    have hMade : Alike {MultimodalDb.walPath dir, basePathIn dir}
        {MultimodalDb.walPath dir, basePathIn dir} (InDir dir) (fun _ => True) (do
          Method.modifySelf fun s : WalStore => { s with nextSeq := s.nextSeq + 1 }
          Method.onPart (·.state) (fun state s => { s with state := state })
              (CanonicalCachedState.updateAge id age)) := by
      refine Alike.bind (alike_modifySelf fun _ hs => ⟨hs.1, hs.2⟩) fun _ _ => ?_
      exact (CanonicalCachedState.alike_updateAge id age).onPart (fun _ _ => trivial)
        fun _ _ hs _ => ⟨hs.1, hs.2⟩
    refine alike_self.bind fun s hs => ?_
    refine (alike_appendWalEntry (by rw [hs.2]; simp) _).mapError.bind fun _ _ => ?_
    split
    · exact alike_sync.mapError.bind fun _ _ => hMade
    · exact hMade
  get id := alike_self.bind fun _ _ => alike_pure trivial

end WalStore

namespace HybridStore

/-- The store is of this directory. -/
def InDir (dir : Path) (s : HybridStore) : Prop :=
  s.snapshotPath = snapshotPathIn dir ∧ s.walFile = walPath dir

theorem alike_replay {S : Type} {F : Set Path} {I : S → Prop} (cutoff : Option UInt64)
    (acc : CanonicalCachedState × UInt64) (entries : List WalEntry) :
    Alike F F I (fun _ => True)
      (replay cutoff acc entries : Method S DurabilityError (CanonicalCachedState × UInt64)) := by
  induction entries generalizing acc with
  | nil => exact alike_pure trivial
  | cons entry entries ih =>
    rw [replay]
    split
    · exact (acc.1.alike_replayEntry entry).bind fun _ _ => ih _
    · exact ih _

theorem alike_restore {S : Type} {F : Set Path} {I : S → Prop} (records : List DogRecord)
    (edges : List (Uuid × Uuid)) {path : Path} (h : path ∈ F) :
    Alike F F I (fun _ => True)
      (restore records edges path : Method S DurabilityError HybridSnapshot) := by
  refine (alike_fileExists h).bind fun present _ => ?_
  split
  · refine (alike_readFile h).bind fun bytes _ => ?_
    split
    · exact alike_fail _
    · exact alike_pure trivial
  · exact alike_pure trivial

theorem keeping (dir : Path) : Keeping variant (InDir dir) dir (snapshotPathIn dir) where
  create records edges := by
    refine ⟨⟨.new records edges, snapshotPathIn dir, walPath dir, 0⟩, ⟨rfl, rfl⟩, fun d => ?_⟩
    rcases LogVariant.built_cases (wp_create (t := ()) (d := d)
      (A := LogVariant.refusing fun _ _ _ => False) (C := fun _ _ _ => True) (Q := fun s _ d' =>
        s = ⟨.new records edges, snapshotPathIn dir, walPath dir, 0⟩ ∧
          d' = Function.update d (walPath dir) (some []))
      ⟨rfl, rfl⟩ fun _ => trivial) with ⟨s, d', hBuilt, rfl, rfl⟩ | ⟨_, _, _, hFalse⟩
    · exact hBuilt
    · exact hFalse.elim
  openStore records edges := by
    refine alike_createDirAll.bind fun _ _ =>
      (alike_restore records edges (by simp)).bind fun snapshot _ => ?_
    refine (alike_readWalEntries (by simp)).bind fun entries _ =>
      (alike_replay _ _ entries).bind fun replayed _ => ?_
    exact (alike_openOrCreate (by simp) (by simp)).bind fun _ _ => alike_pure ⟨rfl, rfl⟩
  checkpoint := by
    refine alike_self.bind fun s hs => ?_
    split
    · exact alike_fail _
    · exact alike_writeFile (by rw [hs.1]; simp) (by rw [hs.1]; simp) _
  updateAge id age := by
    refine alike_self.bind fun s hs => ?_
    refine (alike_appendWalEntry (by rw [hs.2]; simp) _).mapError.bind fun _ _ => ?_
    refine Alike.bind (alike_modifySelf fun _ hs => ⟨hs.1, hs.2⟩) fun _ _ => ?_
    exact (CanonicalCachedState.alike_updateAge id age).onPart (fun _ _ => trivial) fun _ _ hs _ =>
      ⟨hs.1, hs.2⟩
  get id := alike_self.bind fun _ _ => alike_pure trivial

end HybridStore

/-! ## What the next opening reads -/

section NextOpening

variable {S : Type} {L : LogVariant S} {dir : Path} {d : Disk} {id : Uuid}

/-- The disk after a store is created. -/
def createdOn (dir : Path) (d : Disk) : Disk := Function.update d (walPath dir) (some [])

/-- What opening a new store at once reads for a dog. -/
def firstRead (L : LogVariant S) (dir : Path) (d : Disk) (records : List DogRecord)
    (edges : List (Uuid × Uuid)) (id : Uuid) : StoreReply :=
  (L.step dir (LogVariant.built (L.openStore records edges dir) (createdOn dir d)).2 (.get id)).1

/-- In an empty directory it reads the dog as it was given. -/
theorem Recovers.firstRead {records : List DogRecord} {edges : List (Uuid × Uuid)} {Live : S → Prop}
    {Shows : S → List WalEntry → Prop} (h : Recovers L records edges dir Live Shows) (id : Uuid) :
    MultimodalDb.firstRead L dir (fun _ => none) records edges id =
      .record ((DogRecord.byId records).lookup id) := by
  have hOnly : OnlyLog dir [] [] (createdOn dir fun _ => none) := by
    refine ⟨?_, fun p hp => Function.update_of_ne hp ..⟩
    rw [createdOn, Function.update_self]
    exact Holds.empty
  rcases LogVariant.built_cases (h.openStore hOnly nofun) with ⟨s, d, hBuilt, -, hShows, rfl⟩ |
    ⟨_, _, _, hFalse⟩
  · rw [MultimodalDb.firstRead, hBuilt]
    have hGet := h.get (createdOn dir fun _ => none) id hShows
    simp only [LogVariant.step, LogVariant.answer, hGet]
    cases (DogRecord.byId records).lookup id <;> rfl
  · exact hFalse.elim

/-- A new store that starts over reads at once what it was given. -/
theorem LogVariant.StartsOver.firstRead (h : L.StartsOver dir d) {Live : S → Prop}
    {Shows : S → List WalEntry → Prop}
    {records : List DogRecord} {edges : List (Uuid × Uuid)}
    (hRecovers : Recovers L records edges dir Live Shows)
    (hCreate : ∀ d, ∃ s, built (L.create records edges dir) d = (.done, some s, createdOn dir d))
    (id : Uuid) :
    MultimodalDb.firstRead L dir d records edges id =
      .record ((DogRecord.byId records).lookup id) := by
  rw [← hRecovers.firstRead id]
  have hGets := h records edges [.reopen records edges, .get id]
  obtain ⟨s, hHere⟩ := hCreate d
  obtain ⟨s', hEmpty⟩ := hCreate fun _ => none
  rw [newStore, newStore, hHere, hEmpty] at hGets
  exact (List.cons.inj hGets).1

/-- Where what it opens does not depend on the records, there is no dog that it reads as it was
given. -/
theorem not_startsOver_of_const (L : LogVariant S) (dir : Path) (d : Disk)
    (hRecovers : ∀ records, ∃ Live Shows, Recovers L records [] dir Live Shows)
    (hCreate : ∀ records d, ∃ s, LogVariant.built (L.create records [] dir) d =
      (.done, some s, createdOn dir d))
    (hConst : ∀ records, L.openStore records [] dir ⟨(), createdOn dir d, []⟩ =
      L.openStore [] [] dir ⟨(), createdOn dir d, []⟩) : ¬ L.StartsOver dir d := by
  intro hStarts
  let dog : DogRecord := ⟨Uuid.ofNat 0, "", 0⟩
  have hRead : ∀ records, firstRead L dir d records [] dog.id =
      .record ((DogRecord.byId records).lookup dog.id) := by
    intro records
    obtain ⟨Live, Shows, hHere⟩ := hRecovers records
    exact hStarts.firstRead hHere (hCreate records) dog.id
  have hSame : firstRead L dir d [dog] [] dog.id = firstRead L dir d [] [] dog.id := by
    rw [firstRead, firstRead, LogVariant.built, LogVariant.built, hConst]
  rw [hRead, hRead] at hSame
  have hDog : (DogRecord.byId [dog]).lookup dog.id = some dog := AList.lookup_insert ∅
  rw [hDog] at hSame
  cases hSame

theorem WalStore.startsOver_iff (fsync : Bool) (dir : Path) (d : Disk) :
    (variant fsync).StartsOver dir d ↔ d (basePathIn dir) = none := by
  refine ⟨fun hStarts => ?_, (keeping fsync dir).startsOver⟩
  by_contra hBase
  refine not_startsOver_of_const (variant fsync) dir d (fun records =>
    ⟨_, _, recovers records [] dir fsync⟩) (fun records d => ?_) (fun records => ?_) hStarts
  · obtain ⟨s, -, hCreate⟩ := (keeping fsync dir).create records []
    exact ⟨s, hCreate d⟩
  · have hPresent : (createdOn dir d (basePathIn dir)).isSome = true := by
      rw [createdOn, Function.update_of_ne (basePathIn_ne_walPath dir)]
      exact Option.isSome_iff_ne_none.mpr hBase
    have hRestore : ∀ records,
        restore (S := Unit) records [] (basePathIn dir) ⟨(), createdOn dir d, []⟩ =
        CanonicalCachedState.readFrom (basePathIn dir) ⟨(), createdOn dir d, []⟩ :=
          fun records => by
      have hExists : Method.fileExists (S := Unit) (ε := DurabilityError) (basePathIn dir)
          ⟨(), createdOn dir d, []⟩ =
          .ok true ⟨(), createdOn dir d, []⟩ := by rw [Method.fileExists, hPresent]
      rw [restore, Method.bind_ok hExists, if_pos rfl]
    have hDir : Method.createDirAll (S := Unit) DurabilityError.io dir ⟨(), createdOn dir d, []⟩ =
        .ok () ⟨(), createdOn dir d, []⟩ := rfl
    change openStore records [] dir _ = openStore [] [] dir _
    rw [openStore, openStore, Method.bind_ok hDir, Method.bind_ok hDir]
    exact Method.bind_congr ((hRestore records).trans (hRestore []).symm)

theorem HybridStore.startsOver_iff (dir : Path) (d : Disk) :
    variant.StartsOver dir d ↔ d (snapshotPathIn dir) = none := by
  refine ⟨fun hStarts => ?_, (keeping dir).startsOver⟩
  by_contra hSnapshot
  refine not_startsOver_of_const variant dir d (fun records => ⟨_, _, recovers records [] dir⟩)
    (fun records d => ?_) (fun records => ?_) hStarts
  · obtain ⟨s, -, hCreate⟩ := (keeping dir).create records []
    exact ⟨s, hCreate d⟩
  · have hPresent : (createdOn dir d (snapshotPathIn dir)).isSome = true := by
      rw [createdOn, Function.update_of_ne (snapshotPathIn_ne_walPath dir)]
      exact Option.isSome_iff_ne_none.mpr hSnapshot
    have hRestore : restore (S := Unit) records [] (snapshotPathIn dir) ⟨(), createdOn dir d, []⟩ =
        restore [] [] (snapshotPathIn dir) ⟨(), createdOn dir d, []⟩ := by
      have hExists : Method.fileExists (S := Unit) (ε := DurabilityError) (snapshotPathIn dir)
          ⟨(), createdOn dir d, []⟩ =
          .ok true ⟨(), createdOn dir d, []⟩ := by rw [Method.fileExists, hPresent]
      rw [restore, restore, Method.bind_ok hExists, Method.bind_ok hExists, if_pos rfl, if_pos rfl]
    have hDir : Method.createDirAll (S := Unit) DurabilityError.io dir ⟨(), createdOn dir d, []⟩ =
        .ok () ⟨(), createdOn dir d, []⟩ := rfl
    change openStore records [] dir _ = openStore [] [] dir _
    rw [openStore, openStore, Method.bind_ok hDir, Method.bind_ok hDir]
    exact Method.bind_congr hRestore

end NextOpening

/-! ## Sorted files -/

namespace LsmStore

/-- The files that are counted are readable, with nothing in them. -/
def Barren (dir : Path) (d : Disk) : Prop :=
  ∃ count, Counts d dir count ∧ Readable d dir count ∧ ∀ id, flushedAge d dir id count = none

section Barren

variable {dir : Path} {d : Disk}

/-- Two processes whose stores show the same ages for the same records. -/
def SameAges (dir : Path) (p q : LogVariant.Process LsmStore) : Prop :=
  ∃ s s' ages, p.1 = some s ∧ q.1 = some s' ∧ s.records = s'.records ∧ Shown dir p ages ∧
    Shown dir q ages

/-- What a store that shows ages reads. -/
theorem Shown.get {s : LsmStore} {ages : Uuid → Option UInt32} (h : Shown dir (some s, d) ages)
    (id : Uuid) :
    variant.step dir (some s, d) (.get id) =
      (.record ((s.records.lookup id).map fun r => { r with age := (ages id).getD r.age }),
        some s, d) := by
  obtain ⟨count, -, hMemory⟩ := h
  have hShows := hMemory s rfl
  have hAge := hShows.shows id
  obtain rfl := hShows.place
  change LogVariant.answer (LsmStore.get id) .record .failed [] (some s, d) = _
  rw [LogVariant.answer, get_nil hShows.readable, hAge]

theorem SameAges.step (p q : LogVariant.Process LsmStore) (call : StoreCall)
    (h : SameAges dir p q) :
    LogVariant.told call (variant.step dir p call.event).1 =
      LogVariant.told call (variant.step dir q call.event).1 ∧
      SameAges dir (variant.step dir p call.event).2 (variant.step dir q call.event).2 := by
  obtain ⟨o, d⟩ := p
  obtain ⟨o', d'⟩ := q
  obtain ⟨s, s', ages, rfl, rfl, hRecords, hShown, hShown'⟩ := h
  cases call with
  | updateAge id age =>
    refine ⟨rfl, ?_⟩
    rcases hShown.updateAge id age with ⟨hMem, -, t, e, hAfter, hKept, hNow⟩ | ⟨hNot, -, hAfter⟩ <;>
      rcases hShown'.updateAge id age with ⟨hMem', -, t', e', hAfter', hKept', hNow'⟩ |
        ⟨hNot', -, hAfter'⟩
    · rw [StoreCall.event, hAfter, hAfter']
      exact ⟨t, t', _, rfl, rfl, by rw [hKept, hKept', hRecords], hNow, hNow'⟩
    · rw [hRecords] at hMem
      exact absurd hMem hNot'
    · rw [hRecords] at hNot
      exact absurd hMem' hNot
    · rw [StoreCall.event, hAfter, hAfter']
      exact ⟨s, s', ages, rfl, rfl, hRecords, hShown, hShown'⟩
  | checkpoint =>
    refine ⟨rfl, ?_⟩
    obtain ⟨hNow, hKept⟩ := hShown.flush none
    obtain ⟨hNow', hKept'⟩ := hShown'.flush none
    obtain ⟨t, hLive⟩ := Option.isSome_iff_exists.mp (isSome_flush s d)
    obtain ⟨t', hLive'⟩ := Option.isSome_iff_exists.mp (isSome_flush s' d')
    exact ⟨t, t', ages, hLive, hLive',
      by rw [hKept t hLive, hKept' t' hLive', hRecords], hNow, hNow'⟩
  | reopen records edges =>
    refine ⟨rfl, ?_⟩
    obtain ⟨t, hAfter, hRecords, hNow⟩ := hShown.reopen records edges
    obtain ⟨t', hAfter', hRecords', hNow'⟩ := hShown'.reopen records edges
    rw [StoreCall.event, hAfter, hAfter']
    exact ⟨t, t', ages, rfl, rfl, by rw [hRecords, hRecords'], hNow, hNow'⟩
  | get id =>
    rw [StoreCall.event, hShown.get, hShown'.get, hRecords]
    exact ⟨rfl, s, s', ages, rfl, rfl, hRecords, hShown, hShown'⟩

theorem built_create (records : List DogRecord) (edges : List (Uuid × Uuid)) (dir : Path)
    (d : Disk) :
    LogVariant.built (variant.create records edges dir) d =
      (.done, some ⟨DogRecord.byId records, DogRecord.byBreed records, DogRecord.adjacency edges,
        ∅, 0, dir, 0⟩, createdOn dir d) := by
  rcases LogVariant.built_cases (wp_create (t := ()) (d := d)
    (A := LogVariant.refusing fun _ _ _ => False) (C := fun _ _ _ => True) (Q := fun s _ d' =>
      s = ⟨DogRecord.byId records, DogRecord.byBreed records, DogRecord.adjacency edges, ∅,
        0, dir, 0⟩ ∧ d' = createdOn dir d)
    ⟨rfl, rfl⟩ fun _ => trivial) with ⟨s, d', hBuilt, rfl, rfl⟩ | ⟨_, _, _, hFalse⟩
  · exact hBuilt
  · exact hFalse.elim

theorem tableAt_createdOn (g : Nat) : tableAt (createdOn dir d) dir g = tableAt d dir g :=
  tableAt_update_of_ne (sstPath_ne_walPath dir g) _

theorem counts_createdOn {count : Nat} :
    Counts (createdOn dir d) dir count ↔ Counts d dir count := by
  unfold Counts createdOn
  rw [Function.update_of_ne (generationsPath_ne_walPath dir)]

/-- A new store over barren files shows no age. -/
theorem Barren.shown_create (h : Barren dir d) (records : List DogRecord)
    (edges : List (Uuid × Uuid)) :
    Shown dir (variant.newStore records edges dir d) fun _ => none := by
  obtain ⟨count, hCounts, hReadable, hNone⟩ := h
  have hFlushed : ∀ id, flushedAge (createdOn dir d) dir id count = none := fun id => by
    rw [flushedAge_congr fun g _ => tableAt_createdOn g, hNone]
  rw [LogVariant.newStore, built_create]
  refine ⟨count, ⟨counts_createdOn.mpr hCounts, fun g hg => ?_, [], ?_, fun id => ?_⟩,
    fun s hs => ?_⟩
  · dsimp only
    rw [tableAt_createdOn]
    exact hReadable g hg
  · dsimp only
    rw [createdOn, Function.update_self]
    exact Holds.empty
  · rw [loggedAge_nil]
    exact hFlushed id
  · cases hs
    refine ⟨rfl, fun g hg => absurd hg (Nat.not_lt_zero g), fun id => ?_, Or.inr hFlushed⟩
    rw [currentAge, AList.lookup_empty]
    rfl

theorem barren_empty (dir : Path) : Barren dir fun _ => none :=
  ⟨0, Or.inl ⟨rfl, rfl⟩, fun g hg => absurd hg (Nat.not_lt_zero g), fun _ => rfl⟩

/-- A directory is opened at once only if it says how many files it has. -/
theorem counts_of_firstRead {id : Uuid} {reply : Option DogRecord}
    (h : firstRead variant dir d [] [] id = .record reply) : ∃ count, Counts d dir count := by
  cases hFile : d (generationsPath dir) with
  | none => exact ⟨0, Or.inl ⟨hFile, rfl⟩⟩
  | some bytes =>
    cases hDecode : (Codec.decode bytes : Option Nat) with
    | some count => exact ⟨count, Or.inr ⟨bytes, hFile, hDecode⟩⟩
    | none =>
      have hHere : createdOn dir d (generationsPath dir) = some bytes := by
        rw [createdOn, Function.update_of_ne (generationsPath_ne_walPath dir), hFile]
      have hRule : Method.wp (openStore (S := Unit) [] [] dir) () (createdOn dir d)
          (fun _ _ _ => False) (LogVariant.refusing fun _ _ _ => True) fun _ _ _ => True := by
        refine Method.wp_bind (Method.wp_createDirAll ?_ fun _ => trivial)
        refine Method.wp_bind (Method.wp_bind (Method.wp_readIfPresent ?_ fun _ => trivial))
        rw [hHere]
        dsimp only
        rw [hDecode]
        exact Method.wp_fail trivial
      rcases LogVariant.built_cases hRule with ⟨_, _, _, hFalse⟩ | ⟨e, d', hBuilt, -⟩
      · exact hFalse.elim
      · rw [firstRead, show variant.openStore [] [] dir = openStore [] [] dir from rfl, hBuilt] at h
        cases h

/-- A dog that is not in the table is read as the search of the files ends. -/
theorem get_of_search {s : LsmStore} {dog : DogRecord} (hDog : s.records.lookup dog.id = some dog)
    (hTable : s.memtable = ∅) :
    (∀ age, searchGenerations s.dir dog.id s.flushedGenerations ⟨s, d, []⟩ =
      .ok (some age) ⟨s, d, []⟩ →
      get dog.id ⟨s, d, []⟩ = .ok (some { dog with age := age }) ⟨s, d, []⟩) ∧
    ∀ e, searchGenerations s.dir dog.id s.flushedGenerations ⟨s, d, []⟩ =
      .error (.error e) ⟨s, d, []⟩ → get dog.id ⟨s, d, []⟩ = .ok none ⟨s, d, []⟩ := by
  have hSelf : (Method.self : Method LsmStore DurabilityError LsmStore) ⟨s, d, []⟩ =
    .ok s ⟨s, d, []⟩ := rfl
  have hResolve : resolveAge dog.id ⟨s, d, []⟩ =
    (searchGenerations s.dir dog.id s.flushedGenerations >>= fun flushed =>
      pure (flushed.orElse fun _ => (s.records.lookup dog.id).map (·.age))) ⟨s, d, []⟩ := by
    rw [resolveAge, Method.bind_ok hSelf, hTable, AList.lookup_empty]
  refine ⟨fun age hFound => ?_, fun e hFailed => ?_⟩
  · rw [Method.bind_ok hFound] at hResolve
    rw [get, Method.bind_ok hSelf, hDog]
    dsimp only
    rw [Method.bind_ok (Method.attempt_ok hResolve)]
    rfl
  · have hStopped : resolveAge dog.id ⟨s, d, []⟩ = .error (.error e) ⟨s, d, []⟩ := by
      rw [hResolve, Method.bind_error hFailed]
    rw [get, Method.bind_ok hSelf, hDog]
    dsimp only
    rw [Method.bind_ok (Method.attempt_error hStopped)]
    rfl

/-- What a new store that is opened at once reads for its only dog. -/
theorem firstRead_dog {count : Nat} (h : Counts d dir count) (dog : DogRecord) : ∃ s : LsmStore,
    s.records.lookup dog.id = some dog ∧ s.memtable = ∅ ∧ s.dir = dir ∧
      s.flushedGenerations = count ∧ firstRead variant dir d [dog] [] dog.id =
        (LogVariant.answer (LsmStore.get dog.id) .record .failed [] (some s,
          createdOn dir d)).1 := by
  have hLog : Holds [] [] (createdOn dir d (walPath dir)) := by
    rw [createdOn, Function.update_self]
    exact Holds.empty
  rcases LogVariant.built_cases (wp_openStore (t := ())
    (A := LogVariant.refusing fun _ _ _ => False) (C := fun _ _ _ => True) (Q := fun s _ d' =>
      s = ⟨DogRecord.byId [dog], DogRecord.byBreed [dog], DogRecord.adjacency [], ∅, count, dir,
        0⟩ ∧ d' = createdOn dir d)
    (counts_createdOn.mpr h) hLog ⟨rfl, rfl⟩ fun _ => trivial) with ⟨s, d', hBuilt, rfl, rfl⟩ | ⟨_,
      _, _, hFalse⟩
  · refine ⟨⟨DogRecord.byId [dog], DogRecord.byBreed [dog], DogRecord.adjacency [], ∅, count, dir,
      0⟩, AList.lookup_insert ∅, rfl, rfl, rfl, ?_⟩
    rw [firstRead, show variant.openStore [dog] [] dir = openStore [dog] [] dir from rfl, hBuilt]
    rfl
  · exact hFalse.elim

/-- What it reads at once tells of every dog that the files have nothing of it. -/
theorem barren_of_firstRead (h : ∀ records id, firstRead variant dir d records [] id =
    .record ((DogRecord.byId records).lookup id)) : Barren dir d := by
  obtain ⟨count, hCounts⟩ := counts_of_firstRead (h [] (Uuid.ofNat 0))
  have hDog : ∀ dog, firstRead variant dir d [dog] [] dog.id = .record (some dog) := fun dog => by
    rw [h, show (DogRecord.byId [dog]).lookup dog.id = some dog from AList.lookup_insert ∅]
  have hSearch : ∀ id, Readable (createdOn dir d) dir count ∧
      flushedAge (createdOn dir d) dir id count = none := by
    intro id
    rcases searchGenerations_cases (S := LsmStore) (d := createdOn dir d) id count with
      hNothing | ⟨age, hFound⟩ | ⟨e, hFailed⟩
    · exact hNothing
    · obtain ⟨s, hLookup, hTable, rfl, rfl, hRead⟩ := firstRead_dog hCounts ⟨id, "", age + 1⟩
      rw [hDog, LogVariant.answer, (get_of_search hLookup hTable).1 age (hFound s)] at hRead
      simp at hRead
    · obtain ⟨s, hLookup, hTable, rfl, rfl, hRead⟩ := firstRead_dog hCounts ⟨id, "", 0⟩
      rw [hDog, LogVariant.answer, (get_of_search hLookup hTable).2 e (hFailed s)] at hRead
      cases hRead
  refine ⟨count, hCounts, fun g hg => ?_, fun id => ?_⟩
  · rw [← tableAt_createdOn]
    exact (hSearch (Uuid.ofNat 0)).1 g hg
  · rw [← (hSearch id).2, flushedAge_congr fun g _ => tableAt_createdOn g]

/-- Where the counted files are barren, and nowhere else, a new store starts over. -/
theorem startsOver_iff (dir : Path) (d : Disk) : variant.StartsOver dir d ↔ Barren dir d := by
  constructor
  · intro hStarts
    exact barren_of_firstRead fun records id => hStarts.firstRead (recovers records [] dir)
      (fun d => ⟨_, built_create records [] dir d⟩) id
  · intro hBarren records edges calls
    refine LogVariant.gets_congr SameAges.step ?_ calls
    exact ⟨_, _, fun _ => none, congrArg (·.2.1) (built_create records edges dir d),
      congrArg (·.2.1) (built_create records edges dir fun _ => none), rfl,
      hBarren.shown_create records edges, (barren_empty dir).shown_create records edges⟩

end Barren

end LsmStore

/-- **A new store.** In every directory, whatever was left there, a store that is created answers
every get of every later history of updates, checkpoints and openings as one that is created in an
empty directory does, if and only if an opening finds nothing that an earlier store wrote at a
checkpoint: no base, no snapshot, and no age in the files that are counted, all of them readable. -/
theorem new_store_starts_over (dir : Path) (d : Disk) :
    (WalFsyncStore.StartsOver dir d ↔ d (WalStore.basePathIn dir) = none) ∧
      (WalBufferedStore.StartsOver dir d ↔ d (WalStore.basePathIn dir) = none) ∧
      (HybridStore.variant.StartsOver dir d ↔ d (HybridStore.snapshotPathIn dir) = none) ∧
      (LsmStore.variant.StartsOver dir d ↔ LsmStore.Barren dir d) :=
  ⟨WalStore.startsOver_iff true dir d, WalStore.startsOver_iff false dir d,
    HybridStore.startsOver_iff dir d, LsmStore.startsOver_iff dir d⟩

/-- A dog is updated and a checkpoint is taken, and a new store is created over it. It reads the dog
as it was given; opened again it reads the age that was written to the earlier store. -/
theorem new_store_shows_an_old_age :
    let dog : DogRecord := ⟨Uuid.ofNat 1, "poodle", 3⟩
    let dir := "dogs".toList
    let created : Disk → LogVariant.Process WalStore := WalFsyncStore.newStore [dog] [] dir
    let updated := (WalFsyncStore.step dir (created fun _ => none) (.updateAge dog.id 7 [])).2
    let earlier := (WalFsyncStore.step dir updated (.checkpoint [])).2
    WalFsyncStore.gets dir (created earlier.2) [.get dog.id, .reopen [dog] [], .get dog.id] =
        [.record (some dog), .record (some { dog with age := 7 })] ∧
      WalFsyncStore.gets dir (created fun _ => none) [.get dog.id, .reopen [dog] [], .get dog.id] =
        [.record (some dog), .record (some dog)] := by
  decide +kernel

end MultimodalDb
