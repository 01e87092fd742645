import MultimodalDb.Durability.LsmRules
import MultimodalDb.Lib.Machine
import Mathlib.Data.List.Induction

/-!
# Logs that were torn

A crash may leave the front of an entry at the end of a log. The next opening reads the whole
entries and leaves the torn one where it is, and what is appended behind it is read as its rest. So
an update that was acknowledged is kept as long as none is appended to a log that ends in a torn
entry (`acknowledged_updates_survive`); an update that was cut may be there or not.

The four variants differ in what they keep in memory. What they share is in `Recovers`: an update is
one append to the log, and opening shows the ages of its whole entries.
-/

namespace MultimodalDb

open CanonicalCachedState Wal

/-! ## The last age -/

/-- The age of a dog after ages were written, from its age before. -/
def lastAge (base : UInt32) (ages : List (Uuid × UInt32)) (id : Uuid) : UInt32 :=
  ages.foldl (fun age a => if a.1 = id then a.2 else age) base

@[simp] theorem lastAge_nil (base : UInt32) (id : Uuid) : lastAge base [] id = base := rfl

@[simp] theorem lastAge_append (base : UInt32) (ages more : List (Uuid × UInt32)) (id : Uuid) :
    lastAge base (ages ++ more) id = lastAge (lastAge base ages id) more id :=
  List.foldl_append

theorem lastAge_cons (base : UInt32) (a : Uuid × UInt32) (ages : List (Uuid × UInt32)) (id : Uuid) :
    lastAge base (a :: ages) id = lastAge (if a.1 = id then a.2 else base) ages id := rfl

/-- A record at its last age. -/
def DogRecord.aged (ages : List (Uuid × UInt32)) (r : DogRecord) (id : Uuid) : DogRecord :=
  { r with age := lastAge r.age ages id }

theorem CanonicalCachedState.get_withAges {s : CanonicalCachedState} (h : Placed s)
    (ages : List (Uuid × UInt32))
    (id : Uuid) : (s.withAges ages).get id = (s.get id).map (·.aged ages id) := by
  induction ages generalizing s with
  | nil => simp [DogRecord.aged]
  | cons a ages ih =>
    have hRest := ih (h.withAge a.1 a.2)
    rw [get_withAge h] at hRest
    change ((s.withAge a.1 a.2).withAges ages).get id = _
    rw [hRest]
    cases s.get id with
    | none => split <;> rfl
    | some r =>
      split
      · next hEq => simp [DogRecord.aged, lastAge_cons, hEq]
      · next hNe => simp [DogRecord.aged, lastAge_cons, Ne.symm hNe]

/-! ## Sessions -/

/-- One update: whether it was answered `Ok`. -/
structure Update where
  id : Uuid
  age : UInt32
  acknowledged : Bool

/-- What an id may read as: the age of its last acknowledged update, or of one that was cut since.
-/
def Latest (base : UInt32) (id : Uuid) : List Update → UInt32 → Prop
  | [], age => age = base
  | u :: earlier, age =>
    if u.id = id then age = u.age ∨ (u.acknowledged = false ∧ Latest base id earlier age)
      else Latest base id earlier age

/-- What happens to a store whose storage may fail it at any update. -/
inductive TornEvent where
  | updateAge (id : Uuid) (age : UInt32) (plan : List Outcome)
  | reopen

/-- A process, with the updates that were tried, the newest first. -/
structure Session (S : Type) where
  process : LogVariant.Process S
  updates : List Update

namespace Session

variable {S : Type}

def created (L : LogVariant S) (records : List DogRecord) (edges : List (Uuid × Uuid))
    (dir : Path) : Session S :=
  ⟨(LogVariant.built (L.create records edges dir) fun _ => none).2, []⟩

/-- A process that is gone makes no update. -/
def step (L : LogVariant S) (records : List DogRecord) (edges : List (Uuid × Uuid)) (dir : Path)
    (st : Session S) :
    TornEvent → Option (Session S)
  | .updateAge id age plan =>
    if st.process.1.isSome then
      let r := L.step dir st.process (.updateAge id age plan)
      some ⟨r.2, ⟨id, age, r.1 = .done⟩ :: st.updates⟩
    else none
  | .reopen => some ⟨(L.step dir st.process (.reopen records edges)).2, st.updates⟩

/-- The update is of a known id, and the log it is appended to ends in a whole entry. -/
def Whole (records : List DogRecord) (dir : Path) (st : Session S) : TornEvent → Prop
  | .updateAge id _ _ =>
    (∃ r ∈ records, r.id = id) ∧ ∃ entries, Holds entries [] (st.process.2 (walPath dir))
  | .reopen => True

/-- Opening the store succeeds, and every dog has the age of its last acknowledged update, or of one
cut since. -/
def Survives (L : LogVariant S) (records : List DogRecord) (edges : List (Uuid × Uuid)) (dir : Path)
    (st : Session S) : Prop :=
  ∃ st', step L records edges dir st .reopen = some st' ∧ st'.process.1.isSome = true ∧
    ∀ id r, (DogRecord.byId records).lookup id = some r → ∃ age, Latest r.age id st.updates age ∧
      (L.step dir st'.process (.get id)).1 = .record (some { r with age := age })

/-- In every run that meets the condition, opening the store now shows what was acknowledged. -/
def Durable (L : LogVariant S) (records : List DogRecord) (edges : List (Uuid × Uuid))
    (dir : Path) : Prop :=
  ∀ st : Session S, Machine.Runs (step L records edges dir) (Whole records dir)
    (created L records edges dir) st → Survives L records edges dir st

end Session

/-! ## From the log to the updates -/

/-- These entries are in the log: all that were acknowledged, and some of those that were cut. -/
inductive InLog : List Update → List WalEntry → Prop
  | nil : InLog [] []
  | kept {updates entries} (h : InLog updates entries) (entry : WalEntry) (acknowledged : Bool) :
      InLog (⟨entry.id, entry.age, acknowledged⟩ :: updates) (entries ++ [entry])
  | lost {updates entries} (h : InLog updates entries) (id : Uuid) (age : UInt32) :
      InLog (⟨id, age, false⟩ :: updates) entries

theorem InLog.latest {updates : List Update} {entries : List WalEntry} (h : InLog updates entries)
    (base : UInt32) (id : Uuid) : Latest base id updates (lastAge base (ages entries) id) := by
  induction h with
  | nil => rfl
  | kept _ entry _ ih =>
    simp only [Latest, ages, List.map_append, lastAge_append, List.map_cons, List.map_nil,
      lastAge_cons, lastAge_nil]
    split
    · exact Or.inl rfl
    · exact ih
  | lost _ other age ih =>
    rw [Latest]
    split
    · exact Or.inr ⟨rfl, ih⟩
    · exact ih

/-! ## What the four share -/

/-- The log is the only file. -/
def OnlyLog (dir : Path) (entries : List WalEntry) (tail : Bytes) (d : Disk) : Prop :=
  Holds entries tail (d (walPath dir)) ∧ ∀ p, p ≠ walPath dir → d p = none

theorem OnlyLog.extend {dir : Path} {entries : List WalEntry} {tail : Bytes} {d : Disk}
    (h : OnlyLog dir entries tail d)
    {entries' : List WalEntry} {tail' more : Bytes}
    (hHolds : Holds entries' tail' ((d (walPath dir)).map (· ++ more))) :
    OnlyLog dir entries' tail' (d.extend (walPath dir) more) := by
  refine ⟨?_, fun p hp => ?_⟩
  · rw [Disk.extend_self]
    exact hHolds
  · rw [Disk.extend_of_ne hp]
    exact h.2 p hp

/-- How a store is kept by its log alone, while none of its checkpoints is taken. `Live` says that a
store in memory can be updated, and `Shows` what it reads as. -/
structure Recovers {S : Type} (L : LogVariant S) (records : List DogRecord)
    (edges : List (Uuid × Uuid)) (dir : Path)
    (Live : S → Prop) (Shows : S → List WalEntry → Prop) : Prop where
  created : ∀ d, Method.wp (L.create records edges dir) () d
    (fun s _ d' => Live s ∧ d' = Function.update d (walPath dir) (some []))
    (LogVariant.refusing fun _ _ _ => False) fun _ _ _ => True
  updateAge : ∀ {s d id} age, Live s → (∃ r ∈ records, r.id = id) →
    Method.wp (L.updateAge id age) s d
    (fun _ s' d' => Live s' ∧ ∃ seq, d' = d.extend (walPath dir) (appended ⟨seq, id, age⟩))
    (LogVariant.refusing fun _ _ _ => False)
    fun _ s' d' => Live s' ∧ ∃ seq n, d' = d.extend (walPath dir) ((appended ⟨seq, id, age⟩).take n)
  openStore : ∀ {d entries tail}, OnlyLog dir entries tail d →
    (∀ e ∈ entries, ∃ r ∈ records, r.id = e.id) →
    Method.wp (L.openStore records edges dir) () d (fun s _ d' => Live s ∧ Shows s entries ∧ d' = d)
      (LogVariant.refusing fun _ _ _ => False) fun _ _ _ => True
  get : ∀ {s entries} d id, Shows s entries → L.get id ⟨s, d, []⟩ =
    .ok (((DogRecord.byId records).lookup id).map (·.aged (ages entries) id)) ⟨s, d, []⟩

namespace Recovers

variable {S : Type} {L : LogVariant S} {records : List DogRecord} {edges : List (Uuid × Uuid)}
  {dir : Path}
variable {Live : S → Prop} {Shows : S → List WalEntry → Prop}

/-- What a session is kept by: a log of known ids, from its updates. -/
structure Logs (records : List DogRecord) (dir : Path) (Live : S → Prop)
    (st : Session S) : Prop where
  live : ∀ s, st.process.1 = some s → Live s
  log : ∃ entries tail, OnlyLog dir entries tail st.process.2 ∧ InLog st.updates entries ∧
    ∀ e ∈ entries, ∃ r ∈ records, r.id = e.id

theorem logs_created (h : Recovers L records edges dir Live Shows) :
    Logs records dir Live (Session.created L records edges dir) := by
  rcases LogVariant.built_cases (h.created fun _ => none) with ⟨s, d, hBuilt, hLive, rfl⟩ |
    ⟨_, _, _, hFalse⟩
  · rw [Session.created, hBuilt]
    show Logs records dir Live
      ⟨(some s, Function.update (fun _ => none) (walPath dir) (some [])), []⟩
    refine ⟨fun _ hEq => Option.some.inj hEq ▸ hLive, [], [], ⟨?_, fun p hp => ?_⟩, .nil, by simp⟩
    · dsimp only
      rw [Function.update_self]
      exact Holds.empty
    · exact Function.update_of_ne hp (some []) fun _ => none
  · exact hFalse.elim

theorem open_of_logs (h : Recovers L records edges dir Live Shows) {st : Session S}
    (hLogs : Logs records dir Live st) :
    ∃ s entries tail, (L.step dir st.process (.reopen records edges)).2 =
      (some s, st.process.2) ∧ Live s ∧
      Shows s entries ∧ OnlyLog dir entries tail st.process.2 ∧ InLog st.updates entries := by
  obtain ⟨entries, tail, hOnly, hIn, hKnown⟩ := hLogs.log
  rcases LogVariant.built_cases (h.openStore hOnly hKnown) with ⟨s, d, hBuilt, hLive, hShows, rfl⟩ |
    ⟨_, _, _, hFalse⟩
  · exact ⟨s, entries, tail, congrArg Prod.snd hBuilt, hLive, hShows, hOnly, hIn⟩
  · exact hFalse.elim

/-- An update is in the log as a whole, or it was not acknowledged. -/
theorem logs_update (h : Recovers L records edges dir Live Shows) {st st' : Session S} {id : Uuid}
    {age : UInt32}
    {plan : List Outcome} (hLogs : Logs records dir Live st)
    (hWhole : Session.Whole records dir st (.updateAge id age plan))
    (hStep : Session.step L records edges dir st (.updateAge id age plan) = some st') :
    Logs records dir Live st' := by
  obtain ⟨⟨o, d⟩, updates⟩ := st
  obtain ⟨hKnown, whole, hHolds⟩ := hWhole
  obtain ⟨entries, tail, hOnly, hIn, hAll⟩ := hLogs.log
  -- the log ends in a whole entry, so that its entries are those that were read from it
  obtain ⟨rfl, rfl⟩ : entries = whole ∧ tail = [] := hOnly.1.unique hHolds
  rw [Session.step] at hStep
  split at hStep
  · next hSome =>
    obtain ⟨s, rfl⟩ := Option.isSome_iff_exists.mp hSome
    cases hStep
    have hKnownAll : ∀ entry : WalEntry, entry.id = id →
        ∀ e ∈ entries ++ [entry], ∃ r ∈ records, r.id = e.id := by
      intro entry hId e he
      rcases List.mem_append.mp he with he | he
      · exact hAll e he
      · rw [List.mem_singleton.mp he, hId]
        exact hKnown
    rcases LogVariant.answer_cases (fun _ => .done) .refused
      (h.updateAge (d := d) age (hLogs.live s rfl) hKnown) plan with
      ⟨_, s', d', hAnswer, hLive, seq, rfl⟩ | ⟨_, _, _, _, hFalse⟩ | ⟨_, s', d', _,
        ⟨hLive, seq, n, rfl⟩, hAnswer⟩
    · simp only [LogVariant.step, hAnswer, decide_true]
      exact ⟨fun _ hEq => Option.some.inj hEq ▸ hLive, entries ++ [⟨seq, id, age⟩], [],
        hOnly.extend (hOnly.1.snoc ⟨seq, id, age⟩), hIn.kept ⟨seq, id, age⟩ true, hKnownAll _ rfl⟩
    · exact hFalse.elim
    · obtain ⟨kept, tail, hCut, hKept⟩ := hOnly.1.cut ⟨seq, id, age⟩ n
      have hLog : ∃ entries' tail',
          OnlyLog dir entries' tail' (d.extend (walPath dir) ((appended ⟨seq, id, age⟩).take n)) ∧
          InLog (⟨id, age, false⟩ :: updates) entries' ∧
            ∀ e ∈ entries', ∃ r ∈ records, r.id = e.id := by
        refine ⟨_, tail, hOnly.extend hCut, ?_⟩
        rcases hKept with rfl | rfl
        · rw [List.append_nil]
          exact ⟨hIn.lost id age, hAll⟩
        · exact ⟨hIn.kept ⟨seq, id, age⟩ false, hKnownAll _ rfl⟩
      rcases hAnswer with ⟨e, hAnswer⟩ | hAnswer
      · simp only [LogVariant.step, hAnswer, reduceCtorEq, decide_false]
        exact ⟨fun _ hEq => Option.some.inj hEq ▸ hLive, hLog⟩
      · simp only [LogVariant.step, hAnswer, reduceCtorEq, decide_false]
        exact ⟨fun _ hEq => absurd hEq (by simp), hLog⟩
  · cases hStep

theorem durable (hRecovers : Recovers L records edges dir Live Shows) :
    Session.Durable L records edges dir := by
  intro st hRuns
  have hLogs : Logs records dir Live st := by
    refine hRuns.invariant hRecovers.logs_created fun t e u _ hLogs hWhole hStep => ?_
    cases e with
    | updateAge id age plan => exact hRecovers.logs_update hLogs hWhole hStep
    | reopen =>
      cases hStep
      obtain ⟨s, _, _, hOpen, hLive, -⟩ := hRecovers.open_of_logs hLogs
      rw [hOpen]
      exact ⟨fun _ hEq => Option.some.inj hEq ▸ hLive, hLogs.log⟩
  obtain ⟨s, entries, tail, hOpen, -, hShows, -, hIn⟩ := hRecovers.open_of_logs hLogs
  refine ⟨_, rfl, by rw [hOpen]; rfl, fun id r hRecord => ⟨_, hIn.latest r.age id, ?_⟩⟩
  dsimp only
  rw [hOpen]
  simp only [LogVariant.step, LogVariant.answer, hRecovers.get st.process.2 id hShows, hRecord]
  rfl

end Recovers

/-! ## Each of the four -/

/-- The ids a state knows are those of the dogs it was made from. -/
def Knows (records : List DogRecord) (s : CanonicalCachedState) : Prop :=
  Placed s ∧ ∀ id, id ∈ s.records ↔ ∃ r ∈ records, r.id = id

theorem knows_new (records : List DogRecord) (edges : List (Uuid × Uuid)) :
    Knows records (.new records edges) :=
  ⟨placed_new records edges, fun _ => mem_records_new edges⟩

theorem Knows.withAges {records : List DogRecord} {s : CanonicalCachedState} (h : Knows records s)
    (ages : List (Uuid × UInt32)) : Knows records (s.withAges ages) :=
  ⟨h.1.withAges ages, fun id => (mem_records_withAges ..).trans (h.2 id)⟩

theorem Knows.withAge {records : List DogRecord} {s : CanonicalCachedState}
    (h : Knows records s) (id : Uuid) (age : UInt32) : Knows records (s.withAge id age) :=
  h.withAges [(id, age)]

section Each

variable (records : List DogRecord) (edges : List (Uuid × Uuid)) (dir : Path)

theorem WalStore.recovers (fsync : Bool) : Recovers (WalStore.variant fsync) records edges dir
    (fun s => s.walPath = MultimodalDb.walPath dir ∧ Knows records s.state)
    (fun s entries => s.state =
      (CanonicalCachedState.new records edges).withAges (ages entries)) where
  created d := WalStore.wp_create ⟨⟨rfl, knows_new records edges⟩, rfl⟩ fun _ => trivial
  updateAge {s d id} age h hKnown := by
    obtain ⟨hPath, hKnows⟩ := h
    rw [← hPath]
    exact WalStore.wp_updateAge hKnows.1 (fun _ => ⟨⟨rfl, hKnows.withAge id age⟩, s.nextSeq, rfl⟩)
      (fun hNot => absurd ((hKnows.2 id).mpr hKnown) hNot) fun n _ =>
        ⟨⟨rfl, hKnows⟩, s.nextSeq, n, rfl⟩
  openStore {d entries tail} hOnly hKnown := by
    have hNew := knows_new records edges
    refine WalStore.wp_openStore (Or.inl ⟨hOnly.2 _ ?_, rfl⟩) hNew.1 hOnly.1
      (fun _ => ⟨⟨rfl, hNew.withAges _⟩, rfl, rfl⟩) (fun ⟨e, he, hNot⟩ => ?_) fun _ => trivial
    · exact append_suffix_ne_append (by decide) dir
    · exact absurd ((hNew.2 e.id).mpr (hKnown e he)) hNot
  get {s entries} d id hShows := by
    have hGet := get_withAges (placed_new records edges) (ages entries) id
    rw [← hShows] at hGet
    exact congrArg (EStateM.Result.ok · (⟨s, d, []⟩ : Proc WalStore)) hGet

theorem HybridStore.recovers : Recovers HybridStore.variant records edges dir
    (fun s => s.walFile = walPath dir ∧ Knows records s.state)
    (fun s entries => s.state =
      (CanonicalCachedState.new records edges).withAges (ages entries)) where
  created d := HybridStore.wp_create ⟨⟨rfl, knows_new records edges⟩, rfl⟩ fun _ => trivial
  updateAge {s d id} age h hKnown := by
    obtain ⟨hPath, hKnows⟩ := h
    rw [← hPath]
    exact HybridStore.wp_updateAge hKnows.1 (fun _ =>
      ⟨⟨rfl, hKnows.withAge id age⟩, s.nextSeq, rfl⟩)
      (fun hNot => absurd ((hKnows.2 id).mpr hKnown) hNot) fun n _ =>
        ⟨⟨rfl, hKnows⟩, s.nextSeq, n, rfl⟩
  openStore {d entries tail} hOnly hKnown := by
    have hNew := knows_new records edges
    -- there is no snapshot, and so no cutoff
    have hLive : HybridStore.live none entries = entries := List.filter_eq_self.mpr fun _ _ => rfl
    refine HybridStore.wp_openStore (Or.inl ⟨hOnly.2 _ ?_, rfl⟩) hNew.1 hOnly.1
      (fun _ => ⟨⟨rfl, hNew.withAges _⟩, by rw [hLive], rfl⟩) (fun ⟨e, he, hNot⟩ => ?_) fun _ =>
        trivial
    · exact append_suffix_ne_append (by decide) dir
    · rw [hLive] at he
      exact absurd ((hNew.2 e.id).mpr (hKnown e he)) hNot
  get {s entries} d id hShows := by
    have hGet := get_withAges (placed_new records edges) (ages entries) id
    rw [← hShows] at hGet
    exact congrArg (EStateM.Result.ok · (⟨s, d, []⟩ : Proc HybridStore)) hGet

theorem LsmStore.lastAge_eq (base : UInt32) (entries : List WalEntry) (id : Uuid) :
    lastAge base (ages entries) id = (LsmStore.loggedAge entries id).getD base := by
  induction entries using List.reverseRecOn with
  | nil => simp [ages]
  | append_singleton entries entry ih =>
    rw [ages, List.map_append, lastAge_append, ← ages, ih, LsmStore.loggedAge_snoc,
      List.map_singleton, lastAge_cons, lastAge_nil]
    split <;> rfl

theorem LsmStore.recovers : Recovers LsmStore.variant records edges dir
    (fun s => s.dir = dir ∧ s.records = DogRecord.byId records)
    (fun s entries => s.records = DogRecord.byId records ∧
      s.memtable = (LsmStore.replay entries).1 ∧ s.flushedGenerations = 0) where
  created d := LsmStore.wp_create ⟨⟨rfl, rfl⟩, rfl⟩ fun _ => trivial
  updateAge {s d id} age h hKnown := by
    obtain ⟨rfl, hRecords⟩ := h
    refine LsmStore.wp_updateAge (fun _ => ⟨⟨rfl, hRecords⟩, s.nextSeq, rfl⟩) (fun hNot => ?_)
      fun n _ => ⟨⟨rfl, hRecords⟩, s.nextSeq, n, rfl⟩
    rw [hRecords] at hNot
    exact hNot ((mem_records_new []).mpr hKnown)
  openStore {d entries tail} hOnly _ :=
    LsmStore.wp_openStore (Or.inl ⟨hOnly.2 _ (LsmStore.generationsPath_ne_walPath dir), rfl⟩)
      hOnly.1 ⟨⟨rfl, rfl⟩, ⟨rfl, rfl, rfl⟩, rfl⟩ fun _ => trivial
  get {s entries} d id hShows := by
    obtain ⟨hRecords, hTable, hCount⟩ := hShows
    refine (LsmStore.get_nil (by
      rw [hCount]; exact fun _ hg => absurd hg (Nat.not_lt_zero _))).trans ?_
    have hAge : LsmStore.currentAge s d id = LsmStore.loggedAge entries id := by
      rw [LsmStore.currentAge, hTable, hCount, LsmStore.flushedAge, Option.or_none]
      rfl
    rw [hRecords, hAge]
    congr 2
    funext r
    rw [DogRecord.aged, LsmStore.lastAge_eq]

end Each

/-- **Acknowledged updates.** In every run in which each update is of a known id and is appended to
a log that ends in a whole entry, whatever crash or failure cuts any of the updates, opening each of
the four succeeds in every state reached and shows every dog at the age of its last acknowledged
update, or of one that was cut since. -/
theorem acknowledged_updates_survive (records : List DogRecord) (edges : List (Uuid × Uuid))
    (dir : Path) :
    Session.Durable WalFsyncStore records edges dir ∧
      Session.Durable WalBufferedStore records edges dir ∧
      Session.Durable HybridStore.variant records edges dir ∧
        Session.Durable LsmStore.variant records edges dir :=
  ⟨(WalStore.recovers records edges dir true).durable,
    (WalStore.recovers records edges dir false).durable,
    (HybridStore.recovers records edges dir).durable, (LsmStore.recovers records edges dir).durable⟩

/-- An update that is acknowledged, and one that is cut after a byte: the first is shown. -/
theorem acknowledged_updates_survive_sample :
    let dog : DogRecord := ⟨Uuid.ofNat 1, "poodle", 3⟩
    ∃ st, Machine.run (Session.step WalFsyncStore [dog] [] "dogs".toList)
        (Session.created WalFsyncStore [dog] [] "dogs".toList)
        [.updateAge dog.id 7 [], .updateAge dog.id 9 [.crashed 1]] = some st ∧
      Session.Survives WalFsyncStore [dog] [] "dogs".toList st := by
  intro dog
  refine ⟨_, rfl, ?_⟩
  have hDog : ∃ r ∈ [dog], r.id = dog.id := ⟨dog, List.mem_singleton_self dog, rfl⟩
  have hRuns := Machine.Runs.tail
      (Machine.Runs.tail .refl (s := Session.created WalFsyncStore [dog] [] "dogs".toList)
      (show Session.Whole [dog] "dogs".toList _ (.updateAge dog.id 7 []) from ⟨hDog, [],
        Holds.empty⟩)
      (show Session.step WalFsyncStore [dog] [] "dogs".toList _ _ = some _ from rfl))
    (show Session.Whole [dog] "dogs".toList _ (.updateAge dog.id 9 [.crashed 1]) from
      ⟨hDog, [⟨0, dog.id, 7⟩], nextFrame_nil, by decide +kernel⟩) rfl
  exact (acknowledged_updates_survive [dog] [] "dogs".toList).1 _ hRuns

/-- An update is cut after one byte, and the store is opened again. The next update is acknowledged,
and no later opening shows it. -/
theorem acknowledged_update_behind_a_tear_is_lost :
    let dog : DogRecord := ⟨Uuid.ofNat 1, "poodle", 3⟩
    LogVariant.replies WalFsyncStore "dogs".toList
        (LogVariant.built (WalFsyncStore.create [dog] [] "dogs".toList) fun _ => none).2
        [.updateAge dog.id 7 [.crashed 1], .reopen [dog] [], .updateAge dog.id 9 [], .get dog.id,
          .reopen [dog] [], .get dog.id] =
      [.silence, .done, .done, .record (some { dog with age := 9 }), .done,
        .record (some dog)] := by
  decide +kernel

end MultimodalDb
