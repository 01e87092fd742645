import MultimodalDb.Concurrency.Linearizable

/-!
# Scans of a sharded store

At a `ShardedStore` a call on one record takes effect at once. A scan does not: it comes to the
shards one after the other, and other threads write in between. It still looks at every record once,
and returns the ages that it saw (`Kennel.scanned`).
-/

namespace MultimodalDb

namespace Kennel

/-! ## Scans that look at one record after the other -/

def ids (k : Kennel) : List Uuid := k.dogs.map (·.id)

@[simp] theorem ids_setAge (k : Kennel) (id : Uuid) (age : UInt32) :
    (k.setAge id age).ids = k.ids := by
  simp [ids, setAge, Function.comp_def]

theorem mem_ids {k : Kennel} {id : Uuid} : id ∈ k.ids ↔ (k.find id).isSome = true := by
  rw [ids, List.mem_map, Option.isSome_iff_exists]
  exact exists_congr fun _ => find_eq_some.symm

/-- What a thread is about. One that scans has seen some of the records, each with the age it had
then. -/
inductive ScanThread where
  | idle
  | called (c : ConcurrentCall)
  | scanning (seen : Uuid → Option UInt32)
  | done (c : ConcurrentCall) (r : c.Reply)

inductive ScanStep : Kennel × (Nat → ScanThread) →
    Option (Seen ConcurrentCall ConcurrentCall.Reply) → Kennel × (Nat → ScanThread) → Prop where
  | call {k ts t c} (h : ts t = .idle) :
      ScanStep (k, ts) (some (.call t c)) (k, Function.update ts t (.called c))
  | act {k ts t c} (h : ts t = .called c) (hCall : c ≠ .scanAges) :
    ScanStep (k, ts) none ((act c k).2, Function.update ts t (.done c (act c k).1))
  | begin {k ts t} (h : ts t = .called .scanAges) :
    ScanStep (k, ts) none (k, Function.update ts t (.scanning fun _ => none))
  /-- A scan looks at a record that it has not seen. -/
  | look {k ts t seen id dog} (h : ts t = .scanning seen) (hDog : k.find id = some dog)
    (hNew : seen id = none) :
    ScanStep (k, ts) none (k,
      Function.update ts t (.scanning (Function.update seen id (some dog.age))))
  /-- It is done when it has seen them all. -/
  | finish {k ts t seen ages} (h : ts t = .scanning seen)
    (hAges : (ages.map some).Perm (k.ids.map seen)) :
    ScanStep (k, ts) none (k, Function.update ts t (.done .scanAges (some (.ok ages))))
  | ret {k ts t c r} (h : ts t = .done c r) :
    ScanStep (k, ts) (some (.ret t c r)) (k, Function.update ts t .idle)

/-- A kennel whose scans look at one record after the other. -/
def scanned (k : Kennel) : System (Seen ConcurrentCall ConcurrentCall.Reply) :=
  ⟨Kennel × (Nat → ScanThread), (k, fun _ => .idle), ScanStep⟩

/-- What a scan has seen when it has also looked at some records. -/
def lookAt (k : Kennel) (ids : List Uuid) (seen : Uuid → Option UInt32) (id : Uuid) :
    Option UInt32 :=
  if id ∈ ids then (k.find id).map (·.age) else seen id

theorem lookAt_of_notMem {k : Kennel} {ids : List Uuid} {seen : Uuid → Option UInt32} {id : Uuid}
    (h : id ∉ ids) :
    k.lookAt ids seen id = seen id :=
  if_neg h

/-- A scan may look at some records that it has not seen, one after the other. -/
theorem moves_lookAt {start k : Kennel} {ts : Nat → ScanThread} {t : Nat} {ids : List Uuid}
    (hNodup : ids.Nodup)
    (hKnown : ∀ id ∈ ids, id ∈ k.ids) {seen : Uuid → Option UInt32}
    (hNew : ∀ id ∈ ids, seen id = none) (h : ts t = .scanning seen) :
    (scanned start).Moves (k, ts) [] (k, Function.update ts t (.scanning (k.lookAt ids seen))) := by
  induction ids generalizing ts seen with
  | nil =>
    have hSame : k.lookAt [] seen = seen := funext fun _ => if_neg List.not_mem_nil
    rw [hSame, ← h, Function.update_eq_self]
    exact .refl
  | cons id ids ih =>
    obtain ⟨hOut, hNodup⟩ := List.nodup_cons.mp hNodup
    obtain ⟨dog, hDog⟩ := Option.isSome_iff_exists.mp (mem_ids.mp (hKnown id List.mem_cons_self))
    have hLook : ScanStep (k, ts) none
        (k, Function.update ts t (.scanning (Function.update seen id (some dog.age)))) :=
      .look h hDog (hNew id List.mem_cons_self)
    have hFresh : ∀ other ∈ ids, Function.update seen id (some dog.age) other = none :=
      fun other hMem => by
      have hNe : other ≠ id := fun hEq => hOut (hEq ▸ hMem)
      rw [Function.update_of_ne hNe]
      exact hNew other (List.mem_cons_of_mem id hMem)
    have hRest := ih hNodup (fun other hMem => hKnown other (List.mem_cons_of_mem id hMem)) hFresh
      (Function.update_self t _ ts)
    have hSeen : k.lookAt ids (Function.update seen id (some dog.age)) =
        k.lookAt (id :: ids) seen := by
      funext other
      by_cases hSame : other = id
      · rw [hSame, lookAt_of_notMem hOut, Function.update_self, lookAt,
          if_pos List.mem_cons_self, hDog]
        rfl
      · rw [lookAt, lookAt, Function.update_of_ne hSame]
        simp only [List.mem_cons, hSame, false_or]
    rw [Function.update_idem, hSeen] at hRest
    exact (System.Moves.single hLook).trans hRest

end Kennel

/-! ## Shards that hold a kennel -/

namespace ShardedStore

variable {parts : Fin SHARD_COUNT → Shard} {k : Kennel} {id : Uuid} {age : UInt32}

/-- Every dog is in its shard. -/
structure Holds (parts : Fin SHARD_COUNT → Shard) (k : Kennel) : Prop where
  found : ∀ id, (parts (shardIndex id)).lookup id = k.find id
  placed : ∀ i id, id ∈ (parts i).keys → shardIndex id = i

theorem lookup_put (parts : Fin SHARD_COUNT → Shard) (r : DogRecord) (id : Uuid) :
    (Function.update parts (shardIndex r.id) ((parts (shardIndex r.id)).insert r.id r)
      (shardIndex id)).lookup id =
      if r.id = id then some r else (parts (shardIndex id)).lookup id := by
  by_cases hId : r.id = id
  · rw [if_pos hId, hId, Function.update_self, AList.lookup_insert]
  · rw [if_neg hId]
    by_cases hShard : shardIndex id = shardIndex r.id
    · rw [hShard, Function.update_self, AList.lookup_insert_ne (Ne.symm hId)]
    · rw [Function.update_of_ne hShard]

theorem placed_put (h : ∀ i id, id ∈ (parts i).keys → shardIndex id = i) (r : DogRecord)
    (i : Fin SHARD_COUNT)
    (id : Uuid)
    (hMem : id ∈
      (Function.update parts (shardIndex r.id) ((parts (shardIndex r.id)).insert r.id r) i).keys) :
    shardIndex id = i := by
  by_cases hShard : i = shardIndex r.id
  · rw [hShard, Function.update_self] at hMem
    rcases AList.mem_insert _ |>.mp hMem with hId | hOld
    · rw [hId, hShard]
    · rw [hShard]
      exact h _ id hOld
  · rw [Function.update_of_ne hShard] at hMem
    exact h i id hMem

theorem lookup_shards {records : List DogRecord} (hIds : (records.map (·.id)).Nodup)
    (parts : Fin SHARD_COUNT → Shard) (id : Uuid) :
    (records.foldl (fun shards r =>
      Function.update shards (shardIndex r.id) ((shards (shardIndex r.id)).insert r.id r))
      parts (shardIndex id)).lookup id =
        (records.find? (·.id = id)).or ((parts (shardIndex id)).lookup id) := by
  induction records generalizing parts with
  | nil => rfl
  | cons r records ih =>
    obtain ⟨hOut, hIds⟩ := List.nodup_cons.mp hIds
    rw [List.foldl_cons, ih hIds, lookup_put]
    by_cases hId : r.id = id
    · have hNone : records.find? (·.id = id) = none :=
        List.find?_eq_none.mpr fun other hMem hSame =>
          hOut (List.mem_map.mpr ⟨other, hMem, (of_decide_eq_true hSame).trans hId.symm⟩)
      have hHere : (r :: records).find? (·.id = id) = some r :=
        List.find?_cons_of_pos (decide_eq_true hId)
      rw [if_pos hId, hNone, hHere]
      rfl
    · rw [if_neg hId, List.find?_cons_of_neg (by simpa using hId)]

theorem placed_shards (records : List DogRecord)
    (h : ∀ i id, id ∈ (parts i).keys → shardIndex id = i) :
    ∀ i id, id ∈ (records.foldl (fun shards r => Function.update shards (shardIndex r.id)
      ((shards (shardIndex r.id)).insert r.id r)) parts i).keys → shardIndex id = i := by
  induction records generalizing parts with
  | nil => exact h
  | cons r records ih => exact ih (placed_put h r)

theorem holds_shards {records : List DogRecord} (hIds : (records.map (·.id)).Nodup) :
    Holds (shards records) (.ofRecords records hIds) where
  found id := (lookup_shards hIds _ id).trans (by simp [Kennel.find, Kennel.ofRecords])
  placed := placed_shards records fun _ _ hMem => absurd hMem List.not_mem_nil

theorem run_agesOf (s : Shard) (ids : List Uuid) :
    Program.run answer (agesOf ids) s = (ids.filterMap fun id => (s.lookup id).map (·.age), s) := by
  induction ids with
  | nil => rfl
  | cons id ids ih =>
    show Program.run answer (access (.record id) >>= fun record => agesOf ids >>= fun ages =>
      pure ((record.map (·.age)).toList ++ ages)) s = _
    have hRecord : Program.run answer (access (.record id)) s = (s.lookup id, s) := rfl
    rw [Program.run_bind, hRecord, Program.run_bind, ih, List.filterMap_cons]
    cases s.lookup id with
    | none => rfl
    | some record => rfl

theorem perform_ages (i : Fin SHARD_COUNT) (s : Shard) :
    locked.perform (.ages i) s = (s.keys.filterMap fun id => (s.lookup id).map (·.age), s) := by
  show Program.run answer (access .keys >>= agesOf) s = _
  rw [Program.run_bind]
  exact run_agesOf s s.keys

theorem perform_updateAge (id : Uuid) (age : UInt32) (s : Shard) :
    locked.perform (.updateAge id age) s = (s.lookup id).elim (.error (.store (.notFound id)), s)
      fun record => (.ok (), s.insert id { record with age := age }) := by
  show Program.run answer (access (.record id) >>= _) s = _
  have hRecord : Program.run answer (access (.record id)) s = (s.lookup id, s) := rfl
  rw [Program.run_bind, hRecord]
  cases hLookup : s.lookup id with
  | none => rfl
  | some record =>
    have hSet : answer (.setAge id age) s = ((), s.insert id { record with age := age }) := by
      rw [answer, hLookup]
      rfl
    dsimp only [access]
    rw [Program.ask_bind, Program.run_call, hSet]
    rfl

/-! ## A section is a call, or a part of a scan -/

theorem Holds.updateAge (h : Holds parts k) (id : Uuid) (age : UInt32) :
    some (locked.perform (.updateAge id age) (parts (shardIndex id))).1 =
      (Kennel.act (.updateAge id age) k).1 ∧
      Holds (Function.update parts (shardIndex id)
        (locked.perform (.updateAge id age) (parts (shardIndex id))).2) (k.setAge id age) := by
  rw [perform_updateAge, h.found]
  cases hFind : k.find id with
  | none =>
    refine ⟨by rw [Kennel.act, Kennel.answer_unknown hFind]; rfl, ?_⟩
    rw [Kennel.setAge_of_find_eq_none hFind]
    show Holds (Function.update parts (shardIndex id) (parts (shardIndex id))) k
    rwa [Function.update_eq_self]
  | some dog =>
    have hId : dog.id = id := (Kennel.find_eq_some.mp hFind).2
    subst hId
    refine ⟨by rw [Kennel.act, Kennel.answer_known hFind]; rfl, fun id => ?_, fun i id => ?_⟩
    · refine (lookup_put parts { dog with age := age } id).trans ?_
      rw [Kennel.find_setAge]
      dsimp only
      by_cases hSame : dog.id = id
      · rw [if_pos hSame, ← hSame, hFind, Option.map_some, Kennel.aged, if_pos rfl]
      · rw [if_neg hSame, h.found]
        cases hOther : k.find id with
        | none => rfl
        | some other =>
          rw [Option.map_some, Kennel.aged, if_neg]
          exact fun hEq => hSame (hEq.symm.trans (Kennel.find_eq_some.mp hOther).2)
    · exact placed_put h.placed { dog with age := age } i id

theorem Holds.mem_keys (h : Holds parts k) {i : Fin SHARD_COUNT} :
    id ∈ (parts i).keys ↔ id ∈ k.ids ∧ shardIndex id = i := by
  have hHere : id ∈ (parts (shardIndex id)).keys ↔ id ∈ k.ids := by
    rw [Kennel.mem_ids, ← h.found, AList.lookup_isSome, AList.mem_keys]
  constructor
  · intro hMem
    have hShard := h.placed i id hMem
    subst hShard
    exact ⟨hHere.mp hMem, rfl⟩
  · rintro ⟨hMem, rfl⟩
    exact hHere.mpr hMem

/-- What a thread has seen that has scanned some shards, and has others to scan. -/
structure Scanned (k : Kennel) (shards rest : List (Fin SHARD_COUNT)) (ages : List UInt32)
    (seen : Uuid → Option UInt32) : Prop where
  all : List.finRange SHARD_COUNT = shards ++ rest
  ages : (ages.map some).Perm ((k.ids.filter fun id => shards.contains (shardIndex id)).map seen)
  new : ∀ id, shardIndex id ∈ rest → seen id = none

theorem Scanned.start : Scanned k [] (List.finRange SHARD_COUNT) [] fun _ => none :=
  ⟨rfl, by simp, fun _ _ => rfl⟩

/-- One more shard. -/
theorem Scanned.shard {before rest : List (Fin SHARD_COUNT)} {i : Fin SHARD_COUNT}
    {ages : List UInt32}
    {seen : Uuid → Option UInt32} (h : Scanned k before (i :: rest) ages seen)
    (hHolds : Holds parts k) :
    Scanned k (before ++ [i]) rest (ages ++ (locked.perform (.ages i) (parts i)).1)
      (k.lookAt (parts i).keys seen) := by
  have hNodup : (before ++ i :: rest).Nodup := h.all ▸ List.nodup_finRange SHARD_COUNT
  have hFresh : i ∉ before :=
    fun hMem => (List.nodup_append.mp hNodup).2.2 i hMem i List.mem_cons_self rfl
  have hLater : i ∉ rest := (List.nodup_cons.mp (List.nodup_append.mp hNodup).2.1).1
  have hKeys : (parts i).keys.Perm (k.ids.filter fun id => shardIndex id = i) := by
    refine (List.perm_ext_iff_of_nodup (parts i).keys_nodup (k.nodup_ids.filter _)).mpr fun id => ?_
    rw [hHolds.mem_keys, List.mem_filter, decide_eq_true_iff]
    rfl
  have hHere : ((locked.perform (.ages i) (parts i)).1.map some).Perm
      ((k.ids.filter fun id => shardIndex id = i).map (k.lookAt (parts i).keys seen)) := by
    have hLook : (parts i).keys.map (k.lookAt (parts i).keys seen) =
        (parts i).keys.map fun id => ((parts i).lookup id).map (·.age) := by
      refine List.map_congr_left fun id hMem => ?_
      rw [Kennel.lookAt, if_pos hMem, ← hHolds.found, hHolds.placed i id hMem]
    refine List.Perm.trans (.of_eq ?_) (hKeys.map _)
    rw [perform_ages, List.map_filterMap_some_eq_filter_map_isSome, hLook]
    refine List.filter_eq_self.mpr fun age hAge => ?_
    obtain ⟨id, hMem, rfl⟩ := List.mem_map.mp hAge
    rw [Option.isSome_map]
    exact AList.lookup_isSome.mpr hMem
  have hBefore : (k.ids.filter fun id => before.contains (shardIndex id)).map
      (k.lookAt (parts i).keys seen) =
      (k.ids.filter fun id => before.contains (shardIndex id)).map seen := by
    refine List.map_congr_left fun id hMem => Kennel.lookAt_of_notMem fun hKey => hFresh ?_
    rw [← hHolds.placed i id hKey]
    simpa using (List.mem_filter.mp hMem).2
  have hSplit : ((k.ids.filter fun id => before.contains (shardIndex id)) ++
      k.ids.filter fun id => shardIndex id = i).Perm
      (k.ids.filter fun id => (before ++ [i]).contains (shardIndex id)) := by
    have hParts := List.filter_append_perm (fun id => before.contains (shardIndex id))
      (k.ids.filter fun id => (before ++ [i]).contains (shardIndex id))
    rw [List.filter_filter, List.filter_filter] at hParts
    refine List.Perm.trans (.of_eq (congrArg₂ _ ?_ ?_)) hParts
    · exact List.filter_congr fun id _ => by simp +contextual
    · refine List.filter_congr fun id _ => ?_
      by_cases hShard : shardIndex id = i
      · simp [hShard, hFresh]
      · simp [hShard]
  refine ⟨by rw [h.all, List.append_assoc, List.singleton_append], ?_, fun id hMem => ?_⟩
  · rw [List.map_append]
    refine (h.ages.append hHere).trans ?_
    rw [← hBefore, ← List.map_append]
    exact hSplit.map _
  · rw [Kennel.lookAt_of_notMem fun hKey => hLater (hHolds.placed i id hKey ▸ hMem)]
    exact h.new id (List.mem_cons_of_mem i hMem)

/-! ## The simulation -/

/-- What a thread of the shards is about, and one of the kennel. A scan that is through the shards
has yet to finish. -/
inductive Tracks (k : Kennel) :
    Locked.Running Held ConcurrentCall Held.Ret ConcurrentCall.Reply →
      Kennel.ScanThread → Prop where
  | idle : Tracks k .idle .idle
  | called c (hOther : c ≠ .scanAges) : Tracks k (.running c (script c)) (.called c)
  | scanning {shards rest ages seen} (h : Scanned k shards rest ages seen) :
    Tracks k (.running .scanAges ((fun ages => some (.ok ages)) <$> scanShards rest ages))
      (.scanning seen)
  | done c r : Tracks k (.running c (.done r)) (.done c r)

theorem Tracks.setAge {x : Locked.Running Held ConcurrentCall Held.Ret ConcurrentCall.Reply}
    {y : Kennel.ScanThread}
    (h : Tracks k x y) (id : Uuid) (age : UInt32) : Tracks (k.setAge id age) x y := by
  cases h with
  | idle => exact .idle
  | called c hOther => exact .called c hOther
  | scanning h =>
    refine .scanning ⟨h.all, ?_, h.new⟩
    rw [Kennel.ids_setAge]
    exact h.ages
  | done c r => exact .done c r

theorem Tracks.of_idle {y : Kennel.ScanThread} (h : Tracks k .idle y) : y = .idle := by
  cases h
  rfl

theorem follows_scanned {start : Kennel} (hStart : Holds parts start) :
    System.Follows (locked.sections parts) (Kennel.scanned start)
      fun x y => Holds x.1 y.1 ∧ ∀ t, Tracks y.1 (x.2 t) (y.2 t) where
  start := ⟨hStart, fun _ => .idle⟩
  step {x e x' y} hRel hStep := by
    obtain ⟨k, ts'⟩ := y
    obtain ⟨hHolds, hThreads⟩ := hRel
    cases hStep with
    | @call parts ts t c hIdle =>
      have hTrack : Tracks k (ts t) (ts' t) := hThreads t
      rw [hIdle] at hTrack
      generalize hThread : ts' t = y at hTrack
      cases hTrack with
      | idle =>
        by_cases hScan : c = .scanAges
        · subst hScan
          have hCall : Kennel.ScanStep (k, ts') (some (.call t .scanAges))
              (k, Function.update ts' t (.called .scanAges)) := .call hThread
          have hBegin : Kennel.ScanStep (k, Function.update ts' t (.called .scanAges)) none
              (k, Function.update (Function.update ts' t (.called .scanAges)) t
                (.scanning fun _ => none)) :=
            .begin (Function.update_self t _ ts')
          rw [Function.update_idem] at hBegin
          have hMoves := (System.Moves.single (A := Kennel.scanned start) hCall).tail hBegin
          exact ⟨_, hMoves, hHolds, rel_update hThreads (.scanning .start)⟩
        · exact ⟨_, System.Moves.single (Kennel.ScanStep.call hThread), hHolds,
            rel_update hThreads (.called c hScan)⟩
    | @take parts ts t c held next hRunning =>
      have hTrack : Tracks k (ts t) (ts' t) := hThreads t
      rw [hRunning] at hTrack
      generalize hThread : ts' t = y at hTrack
      generalize hProgram : Program.call held next = p at hTrack
      cases hTrack with
      | called _ hOther =>
        cases c with
        | get id =>
          cases hProgram
          refine ⟨_, System.Moves.single (Kennel.ScanStep.act hThread hOther), ?_,
            rel_update hThreads ?_⟩
          · show Holds (Function.update parts (shardIndex id) (parts (shardIndex id))) k
            rwa [Function.update_eq_self]
          · show Tracks k
              (.running (.get id) (.done (some (.ok ((parts (shardIndex id)).lookup id))))) _
            rw [hHolds.found]
            exact .done (.get id) _
        | scanAges => exact absurd rfl hOther
        | updateAge id age =>
          cases hProgram
          obtain ⟨hReply, hNext⟩ := hHolds.updateAge id age
          refine ⟨_, System.Moves.single (Kennel.ScanStep.act hThread hOther), hNext,
            rel_update (fun t' => (hThreads t').setAge id age) ?_⟩
          rw [← hReply]
          exact .done (.updateAge id age) _
      | @scanning shards rest ages seen hScanned =>
        cases rest with
        | nil => cases hProgram
        | cons i rest =>
          cases hProgram
          have hLooks : (Kennel.scanned start).Moves (k, ts') [] _ :=
            Kennel.moves_lookAt (parts i).keys_nodup (fun id hMem => (hHolds.mem_keys.mp hMem).1)
              (fun id hMem => hScanned.new id ((hHolds.placed i id hMem).symm ▸ List.mem_cons_self))
                hThread
          refine ⟨_, hLooks, ?_, rel_update hThreads (.scanning (hScanned.shard hHolds))⟩
          show Holds (Function.update parts i (locked.perform (.ages i) (parts i)).2) k
          rwa [perform_ages, Function.update_eq_self]
      | done => cases hProgram
    | @ret parts ts t c r hRunning =>
      have hTrack : Tracks k (ts t) (ts' t) := hThreads t
      rw [hRunning] at hTrack
      generalize hThread : ts' t = y at hTrack
      generalize hProgram : Program.done r = p at hTrack
      cases hTrack with
      | called _ hOther =>
        cases c with
        | get id => cases hProgram
        | scanAges => exact absurd rfl hOther
        | updateAge id age => cases hProgram
      | @scanning shards rest ages seen hScanned =>
        cases rest with
        | nil =>
          cases hProgram
          have hAges : (ages.map some).Perm (k.ids.map seen) := by
            have hShards : shards = List.finRange SHARD_COUNT :=
              (hScanned.all.trans (List.append_nil _)).symm
            have hAll := hScanned.ages
            rwa [hShards, List.filter_eq_self.mpr fun id _ =>
              List.contains_iff_mem.mpr (List.mem_finRange _)] at hAll
          have hFinish : Kennel.ScanStep (k, ts') none
              (k, Function.update ts' t (.done .scanAges (some (.ok ages)))) :=
                .finish hThread hAges
          have hRet : Kennel.ScanStep (k, Function.update ts' t (.done .scanAges (some (.ok ages))))
              (some (.ret t .scanAges (some (.ok ages))))
              (k, Function.update (Function.update ts' t
                (.done .scanAges (some (.ok ages)))) t .idle) :=
            .ret (Function.update_self t _ ts')
          rw [Function.update_idem] at hRet
          have hMoves := (System.Moves.single (A := Kennel.scanned start) hFinish).tail hRet
          exact ⟨_, hMoves, hHolds, rel_update hThreads .idle⟩
        | cons i rest => cases hProgram
      | done =>
        cases hProgram
        exact ⟨_, System.Moves.single (Kennel.ScanStep.ret hThread), hHolds,
          rel_update hThreads .idle⟩

/-- **Scans see every record once.** A client of the shards sees what it might see of a kennel whose
scans look at one record after the other; and whenever no call is open, the shards hold that kennel.
-/
theorem scans_see_once {records : List DogRecord} (hIds : (records.map (·.id)).Nodup) :
    (new records).Histories ⊆ (Kennel.scanned (.ofRecords records hIds)).Histories ∧
      ∀ h s, (new records).Moves (new records).start h s → (∀ t, s.threads t = .idle) →
        ∃ k, (Kennel.scanned (.ofRecords records hIds)).Moves
          (.ofRecords records hIds, fun _ => .idle) h
          (k, fun _ => .idle) ∧ ∀ id, (s.parts (shardIndex id)).lookup id = k.find id := by
  have hFollows := (Locked.follows_sections (O := locked) (shards records)).trans
    (follows_scanned (holds_shards hIds))
  refine ⟨hFollows.histories_subset, fun h s hMoves hIdle => ?_⟩
  obtain ⟨⟨k, ts⟩, hThere, z, hMirrors, hHolds, hTracks⟩ := hFollows.moves hFollows.start hMoves
  obtain ⟨hParts, hRest⟩ := hMirrors.at_rest hIdle
  have hThreads : ts = fun _ => .idle := by
    funext t
    exact (hRest t ▸ hTracks t :).of_idle
  rw [hThreads] at hThere
  exact ⟨k, hThere, fun id => (congrFun hParts _ ▸ hHolds.found id :)⟩

theorem scans_see_once_sample :
    overlapping ∈ (Kennel.scanned (.ofRecords sampleDogs nodup_sampleDogs)).Histories ∧
      ∃ s, (new sampleDogs).Moves (new sampleDogs).start overlapping s ∧
        ∃ k, (Kennel.scanned (.ofRecords sampleDogs nodup_sampleDogs)).Moves
            (.ofRecords sampleDogs nodup_sampleDogs, fun _ => .idle) overlapping
              (k, fun _ => .idle) ∧
          ∀ id, (s.parts (shardIndex id)).lookup id = k.find id := by
  obtain ⟨hSubset, hShards⟩ := scans_see_once nodup_sampleDogs
  have hMoves : (new sampleDogs).Moves (new sampleDogs).start overlapping _ :=
    Locked.moves_overlapping (by decide) _ _ _
  exact ⟨hSubset ⟨_, hMoves⟩, _, hMoves, hShards _ _ hMoves fun _ => rfl⟩

end ShardedStore

end MultimodalDb
