import MultimodalDb.Durability.DogRuns

/-!
# The answers of a dog store

What the files keep is what a store over them answers: the ages that are remembered, nothing of an
id that is not in its list, and in a scan the ages that are read one by one (`Live.remembers`). Two
stores that differ in the ages their records were given are told apart by no call
(`Twin.sameStore`).
-/

namespace MultimodalDb

open MmapAgeStore RecordBlob

/-! ## Reading -/

/-- The age that a store reads for an id. -/
def ageRead (s : ProductionStore) (id : Uuid) : Option UInt32 :=
  match s.get id with
  | .ok (some r) => some r.age
  | _ => none

/-- The ages that a store reads one by one. -/
def agesRead (s : ProductionStore) : List UInt32 := s.ids.filterMap (ageRead s)

/-- What a store of this list answers. -/
structure Remembers (blob : DogBlob) (memory : Uuid → AgeMemory) (s : ProductionStore) : Prop where
  ids : ∀ id, id ∈ s.ids ↔ id ∈ blob.records.map (·.id)
  found : ∀ id ∈ s.ids, ∃ r ∈ blob.records, r.id = id ∧
    ∃ age, s.get id = .ok (some { r with age := age })
  remembered : ∀ id ∈ s.ids, ∀ age, memory id = .since age → ageRead s id = some age
  invisible : ∀ id ∉ s.ids, s.get id = .ok none ∧ s.sameBreed id = [] ∧
    (∀ other, id ∉ s.sameBreed other) ∧
    ∀ age d, updateAge id age ⟨s, d, []⟩ = .error (.error (.notFound id)) ⟨s, d, []⟩
  scanned : ∃ ages, s.scanAges = .ok ages ∧ ages.Perm (agesRead s)
  walked : ∃ ages, s.walkAges = .ok ages ∧ ages.Perm (agesRead s)
  bulk : s.isGapless = .ok true → ∃ ages, s.bulkAges = .ok ages ∧ ages.Perm (agesRead s)

namespace DogLedger

section Reading

variable {blob b : DogBlob} {entries : List (Uuid × UInt32)} {path : Path}
  {s : ProductionStore} {d : Disk}
variable {memory : Uuid → AgeMemory} {id : Uuid}

theorem ids_over (h : Over b entries path s) : id ∈ s.ids ↔ id ∈ b.records.map (·.id) := by
  rw [MmapAgeStore.ids, h.records, ← AList.mem_keys]
  exact mem_byId

theorem ageRead_over (h : Over b entries path s) (hCovers : Covers entries b) (id : Uuid) :
    ageRead s id = ((DogRecord.byId b.records).lookup id).map fun _ => knownAge entries id := by
  rw [ageRead, h.get hCovers]
  cases (DogRecord.byId b.records).lookup id <;> rfl

theorem agesRead_over (h : Over b entries path s) (hCovers : Covers entries b) :
    agesRead s = agesOf b entries := by
  rw [agesRead, agesOf, ← List.filterMap_eq_map, MmapAgeStore.ids, h.records]
  refine List.filterMap_congr fun id hKey => ?_
  obtain ⟨r, hRecord⟩ :=
    Option.isSome_iff_exists.mp (AList.lookup_isSome.mpr (AList.mem_keys.mpr hKey))
  rw [ageRead_over h hCovers, hRecord]
  rfl

/-- The ids of a breed are those of records. -/
theorem mem_byBreed {records : List DogRecord} {breed : String}
    (h : id ∈ ((DogRecord.byBreed records).lookup breed).getD []) : id ∈ records.map (·.id) := by
  have hFrom : ∀ index : AList (fun _ : String => List Uuid),
      id ∈
        ((records.foldl (fun index r =>
          index.insert r.breed ((index.lookup r.breed).getD [] ++ [r.id])) index).lookup
        breed).getD [] → id ∈ records.map (·.id) ∨ id ∈ (index.lookup breed).getD [] := by
    clear h
    induction records with
    | nil => exact fun _ hMem => Or.inr hMem
    | cons r records ih =>
      intro index hMem
      rcases ih _ hMem with hLater | hHere
      · exact Or.inl (List.mem_cons_of_mem _ hLater)
      · by_cases hBreed : breed = r.breed
        · subst hBreed
          rw [AList.lookup_insert, Option.getD_some, List.mem_append, List.mem_singleton] at hHere
          rcases hHere with hBefore | rfl
          · exact Or.inr hBefore
          · exact Or.inl List.mem_cons_self
        · rw [AList.lookup_insert_ne hBreed] at hHere
          exact Or.inr hHere
  refine (hFrom ∅ h).resolve_right ?_
  rw [AList.lookup_empty]
  exact List.not_mem_nil

theorem sameBreed_over (h : Over b entries path s) (hNot : id ∉ b.records.map (·.id))
    (other : Uuid) :
    id ∉ s.sameBreed other := by
  unfold MmapAgeStore.sameBreed
  rw [h.records, h.breedIndex]
  split
  · exact List.not_mem_nil
  · intro hMem
    exact hNot (mem_byBreed (List.mem_filter.mp hMem).1)

/-- A store over the files answers what is remembered. -/
theorem Live.remembers (h : Live path blob entries s) (hFiles : Files path d blob memory entries) :
    Remembers blob memory s := by
  obtain ⟨b, hContent, hOver⟩ := h
  have hCovers := covers_congr hContent.symm hFiles.covers
  have hScans : ∀ {ages : List UInt32}, ages.Perm (agesOf b entries) → ages.Perm (agesRead s) :=
    fun hPerm => by
    rw [agesRead_over hOver hCovers]
    exact hPerm
  have hListed : ∀ id ∈ s.ids, ∃ r, (DogRecord.byId b.records).lookup id = some r := fun id hMem =>
    ProductionStore.lookup_isSome_of_mem ((ids_over hOver).mp hMem)
  refine ⟨fun id => ?_, fun id hMem => ?_, fun id hMem age hAge => ?_, fun id hNot => ?_, ?_, ?_,
    fun hGapless => ?_⟩
  · rw [ids_over hOver, ids_of_content hContent]
  · obtain ⟨r, hRecord⟩ := hListed id hMem
    obtain ⟨hIn, hId⟩ := id_of_lookup_byId hRecord
    have hHere : (r.id, r.breed) ∈ blob.records.map fun r => (r.id, r.breed) := by
      have hRecords : b.records.map (fun r => (r.id, r.breed)) = blob.records.map fun r =>
        (r.id, r.breed) :=
        congrArg Prod.fst hContent
      exact hRecords ▸ List.mem_map.mpr ⟨r, hIn, rfl⟩
    obtain ⟨r', hIn', hEq⟩ := List.mem_map.mp hHere
    obtain ⟨hSameId, hSameBreed⟩ := Prod.mk.inj hEq
    refine ⟨r', hIn', hSameId.trans hId, knownAge entries id, ?_⟩
    rw [hOver.get hCovers, hRecord, hSameId, hSameBreed]
    rfl
  · obtain ⟨r, hRecord⟩ := hListed id hMem
    rw [ageRead_over hOver hCovers, hRecord, Option.map_some, knownAge, hFiles.since id age hAge,
      Option.getD_some]
  · rw [ids_over hOver] at hNot
    have hNone : (DogRecord.byId b.records).lookup id = none :=
      AList.lookup_eq_none.mpr fun hMem => hNot (mem_byId.mp hMem)
    refine ⟨?_, ?_, sameBreed_over hOver hNot, fun age d => hOver.updateAge_refused hNot age⟩
    · rw [hOver.get hCovers, hNone]
      rfl
    · rw [MmapAgeStore.sameBreed, hOver.records, hNone]
  · obtain ⟨ages, hScan, hPerm⟩ := hOver.scanAges hCovers
    exact ⟨ages, hScan, hScans hPerm⟩
  · obtain ⟨ages, hWalk, hPerm⟩ := hOver.walkAges hCovers
    exact ⟨ages, hWalk, hScans hPerm⟩
  · rw [hOver.isGapless, Except.ok.injEq, decide_eq_true_eq] at hGapless
    exact ⟨_, hOver.bulkAges, hScans (hOver.perm_bulkAges hCovers hGapless)⟩

end Reading

end DogLedger

/-! ## Two stores that are the same -/

/-- Every read has the same answer. -/
structure SameReads (s s' : ProductionStore) : Prop where
  ids : s'.ids = s.ids
  get : ∀ id, s'.get id = s.get id
  scanAges : s'.scanAges = s.scanAges
  sameBreed : ∀ id, s'.sameBreed id = s.sameBreed id
  neighbors : ∀ id, s'.neighbors id = s.neighbors id

/-- What updates are answered, and what they leave. -/
def updates : List (Uuid × UInt32) → LogVariant.Process ProductionStore →
  List StoreReply × LogVariant.Process ProductionStore
  | [], process => ([], process)
  | (id, age) :: rest, process =>
    let r := LogVariant.answer (updateAge id age) (fun _ => .done) .refused [] process
    ((r.1 :: (updates rest r.2).1), (updates rest r.2).2)

/-- After any updates the answers and the files are the same. -/
def SameStore (s s' : ProductionStore) : Prop := ∀ (d : Disk) (list : List (Uuid × UInt32)),
  (updates list (some s', d)).1 = (updates list (some s, d)).1 ∧
    (updates list (some s', d)).2.2 = (updates list (some s, d)).2.2 ∧
    Option.Rel SameReads (updates list (some s, d)).2.1 (updates list (some s', d)).2.1

/-- Stores that differ in the ages their records were given. -/
structure Twin (s s' : ProductionStore) : Prop where
  keys : s'.records.keys = s.records.keys
  breeds : ∀ id, (s'.records.lookup id).map (fun r => (r.id, r.breed)) =
    (s.records.lookup id).map fun r => (r.id, r.breed)
  rest : s' = { s with records := s'.records }

namespace Twin

variable {s s' : ProductionStore}

/-- No read looks at those ages. -/
theorem sameReads (h : Twin s s') : SameReads s s' := by
  obtain ⟨hKeys, hBreeds, hRest⟩ := h
  obtain ⟨records, breeds, adjacency, positions, mmap⟩ := s
  obtain ⟨records', breeds', adjacency', positions', mmap'⟩ := s'
  obtain ⟨-, rfl, rfl, rfl, rfl⟩ := MmapAgeStore.mk.inj hRest
  refine ⟨hKeys, fun id => ?_, rfl, fun id => ?_, fun _ => rfl⟩
  · have hHere := hBreeds id
    dsimp only at hHere
    unfold MmapAgeStore.get
    dsimp only
    cases hRecord : records.lookup id <;> cases hRecord' : records'.lookup id <;>
      rw [hRecord, hRecord'] at hHere <;> try rfl
    · cases hHere
    · cases hHere
    · obtain ⟨hId, hBreed⟩ := Prod.mk.inj (Option.some.inj hHere)
      dsimp only
      rw [hId, hBreed]
      cases positions'.lookup id <;> rfl
  · have hHere := hBreeds id
    dsimp only at hHere
    unfold MmapAgeStore.sameBreed
    dsimp only
    cases hRecord : records.lookup id <;> cases hRecord' : records'.lookup id <;>
      rw [hRecord, hRecord'] at hHere <;> try rfl
    · cases hHere
    · cases hHere
    · obtain ⟨-, hBreed⟩ := Prod.mk.inj (Option.some.inj hHere)
      dsimp only
      rw [hBreed]

/-- What a method makes of a store does not depend on its records. -/
theorem store (h : Twin s s') (mmap : Mapping) :
    Twin { s with mmap := mmap } { s' with mmap := mmap } := by
  refine ⟨h.keys, h.breeds, ?_⟩
  conv_lhs => rw [h.rest]

/-- An update is answered the same, and leaves twins. -/
theorem answer (h : Twin s s') (id : Uuid) (age : UInt32) (d : Disk) :
    let r := LogVariant.answer (updateAge id age) (fun _ => .done) .refused [] (some s, d)
    let r' := LogVariant.answer (updateAge id age) (fun _ => .done) .refused [] (some s', d)
    r'.1 = r.1 ∧ r'.2.2 = r.2.2 ∧ Option.Rel Twin r.2.1 r'.2.1 := by
  have hPositions : s'.positionIndex = s.positionIndex := by rw [h.rest]
  have hCount : s'.recordCount = s.recordCount := by rw [h.rest]; rfl
  have hMmap : s'.mmap = s.mmap := by rw [h.rest]
  dsimp only [LogVariant.answer]
  rw [MmapAgeStore.updateAge, Method.bind_ok Method.self_ok,
    Method.bind_ok Method.self_ok, hPositions]
  cases s.positionIndex.lookup id with
  | none => exact ⟨rfl, rfl, .some h⟩
  | some position =>
    dsimp only
    rw [writeAge, Method.bind_ok Method.self_ok, Method.bind_ok Method.self_ok, hCount]
    cases s.recordCount with
    | error e => exact ⟨rfl, rfl, .none⟩
    | ok count =>
      rw [Method.bind_ok (Method.checked_ok rfl), Method.bind_ok (Method.checked_ok rfl), hMmap]
      rcases Method.store_nil_cases (S := MmapAgeStore) (ε := StoreError) s.mmap
        (agesStart count + position * AGE_WIDTH) (Bytes.ofU32 age) d
          with ⟨mmap, d', hStore⟩ | hPanic
      · rw [Method.bind_ok (hStore s), Method.bind_ok (hStore s')]
        exact ⟨rfl, rfl, .some (h.store mmap)⟩
      · rw [Method.bind_error (hPanic s), Method.bind_error (hPanic s')]
        exact ⟨rfl, rfl, .none⟩

/-- Twins are one store. -/
theorem sameStore (h : Twin s s') : SameStore s s' := by
  have hRun : ∀ (list : List (Uuid × UInt32)) (p p' : LogVariant.Process ProductionStore), p'.2 =
      p.2 → Option.Rel Twin p.1 p'.1 →
      (updates list p').1 = (updates list p).1 ∧ (updates list p').2.2 = (updates list p).2.2 ∧
        Option.Rel Twin (updates list p).2.1 (updates list p').2.1 := by
    intro list
    induction list with
    | nil => exact fun p p' hDisk hTwin => ⟨rfl, hDisk, hTwin⟩
    | cons u rest ih =>
      rintro ⟨s, d⟩ ⟨s', d'⟩ hDisk hTwin
      obtain rfl : d' = d := hDisk
      have hStep :
          let r := LogVariant.answer (updateAge u.1 u.2) (fun _ => .done) .refused [] (s, d')
          let r' := LogVariant.answer (updateAge u.1 u.2) (fun _ => .done) .refused [] (s', d')
          r'.1 = r.1 ∧ r'.2.2 = r.2.2 ∧ Option.Rel Twin r.2.1 r'.2.1 := by
        cases hTwin with
        | none => exact ⟨rfl, rfl, .none⟩
        | some hHere => exact answer hHere u.1 u.2 d'
      obtain ⟨hReply, hLeft, hTwins⟩ := hStep
      obtain ⟨hReplies, hEnd, hEndTwins⟩ := ih _ _ hLeft hTwins
      exact ⟨congrArg₂ List.cons hReply hReplies, hEnd, hEndTwins⟩
  intro d list
  obtain ⟨hReplies, hDisk, hTwins⟩ := hRun list (some s, d) (some s', d) rfl (.some h)
  refine ⟨hReplies, hDisk, ?_⟩
  generalize (updates list (some s, d)).2.1 = p at hTwins ⊢
  generalize (updates list (some s', d)).2.1 = p' at hTwins ⊢
  cases hTwins with
  | none => exact .none
  | some hHere => exact .some hHere.sameReads

end Twin

/-! ## The last list -/

namespace DogLedger

variable {b b' : DogBlob} {entries : List (Uuid × UInt32)} {path : Path}

/-- Lists with one content open the same store. -/
theorem twin_of_content (h : b.content = b'.content) :
    Twin (mappedStore b.records b.edges entries path)
      (mappedStore b'.records b'.edges entries path) := by
  obtain ⟨records, edges⟩ := b
  obtain ⟨records', edges'⟩ := b'
  obtain ⟨hRecords, rfl⟩ : records.map (fun r => (r.id, r.breed)) =
      records'.map (fun r => (r.id, r.breed)) ∧ edges = edges' :=
    Prod.mk.inj h
  have hIds : records.map (·.id) = records'.map (·.id) := ids_of_content h
  have hBreeds : ∀ list : List DogRecord, (DogRecord.byBreed list) =
      (list.map fun r => (r.id, r.breed)).foldl
      (fun index p => index.insert p.2 ((index.lookup p.2).getD [] ++ [p.1])) ∅ := by
    intro list
    rw [List.foldl_map, DogRecord.byBreed]
  have hMap : ∀ (list : List DogRecord) (id : Uuid),
      ((DogRecord.byId list).lookup id).map (fun r => (r.id, r.breed)) =
      (MapPairs.fill ((list.map fun r => (r.id, r.breed)).map fun p => (p.1, p))).lookup id := by
    intro list id
    rw [List.map_map]
    exact (MapPairs.lookup_fill_map DogRecord.id (fun r => r) (fun r => (r.id, r.breed))
      list id).symm
  refine ⟨?_, fun id => ?_, ?_⟩
  · refine (MapPairs.keys_fill_congr ?_).symm
    rw [List.map_map, List.map_map]
    exact hIds
  · change ((DogRecord.byId records').lookup id).map _ = ((DogRecord.byId records).lookup id).map _
    rw [hMap, hMap]
    exact congrArg _ (congrArg _ (congrArg _ hRecords.symm))
  · unfold mappedStore
    rw [hBreeds records, hBreeds records', hRecords, hIds]

/-- An update of an id that a live store has is done. -/
theorem Keeps.updated {st : DogLedger} {s : ProductionStore} {id : Uuid} (h : Keeps path st)
    (hLive : st.process.1 = some s) (hMem : id ∈ s.ids) (age : UInt32) :
    (LogVariant.answer (MmapAgeStore.updateAge id age) (fun _ => .done) .refused [] st.process).1 =
      .done := by
  obtain ⟨⟨process, d⟩, last, memory⟩ := st
  obtain rfl : process = some s := hLive
  rcases h with ⟨-, hProcess, -⟩ | ⟨blob, entries, -, hFiles, hOver⟩
  · cases hProcess
  obtain ⟨b, hContent, hOver⟩ := hOver s rfl
  obtain ⟨s', entries', hUpdate, -, -⟩ :=
    hOver.updateAge (covers_congr hContent.symm hFiles.covers) hFiles.file
    ((ids_over hOver).mp hMem) age
  simp only [LogVariant.answer, hUpdate]

/-- The files open the last list, with it or without it. -/
theorem Keeps.reopened {st : DogLedger} {blob : DogBlob} (h : Keeps path st)
    (hBlob : st.blob = some blob) :
    ∃ s s', LogVariant.built (ProductionStore.openStore blob.records blob.edges path) st.process.2 =
        (.done, some s, st.process.2) ∧
      LogVariant.built (ProductionStore.openPortable path) st.process.2 =
        (.done, some s', st.process.2) ∧ SameStore s s' := by
  rcases h with ⟨hNone, -, -⟩ | ⟨blob', entries, hBlob', hFiles, -⟩
  · rw [hNone] at hBlob
    cases hBlob
  obtain rfl : blob' = blob := Option.some.inj (hBlob'.symm.trans hBlob)
  obtain ⟨b, hHolds, hContent⟩ := hFiles.companion
  exact ⟨_, _,
    built_ok (ProductionStore.openStore_current hFiles.file hHolds hContent.symm hFiles.covers),
    built_ok (ProductionStore.openPortable_nil hFiles.file hHolds
      (covers_congr hContent.symm hFiles.covers)),
    (twin_of_content hContent.symm).sameStore⟩

end DogLedger

/-- **A dog store remembers its ages.** After any history a store that is open answers what is
remembered of the list that was created or opened last, and the files alone open the store that this
list opens. -/
theorem ages_are_remembered {path : Path} {st : DogLedger}
    (h : Machine.Runs (DogLedger.step path) DogLedger.Distinct .empty st) :
    (∀ s, st.process.1 = some s → ∃ blob, st.blob = some blob ∧ Remembers blob st.memory s ∧
      ∀ id ∈ s.ids, ∀ age,
        (LogVariant.answer (updateAge id age) (fun _ => .done) .refused [] st.process).1 = .done) ∧
    ∀ blob, st.blob = some blob → ∃ s s',
      LogVariant.built (ProductionStore.openStore blob.records blob.edges path) st.process.2 =
        (.done, some s, st.process.2) ∧
      LogVariant.built (ProductionStore.openPortable path) st.process.2 =
      (.done, some s', st.process.2) ∧ SameStore s s' := by
  have hKeeps := DogLedger.keeps_run h
  refine ⟨fun s hLive => ?_, fun blob hBlob => hKeeps.reopened hBlob⟩
  rcases id hKeeps with ⟨-, hProcess, -⟩ | ⟨blob, entries, hBlob, hFiles, hStore⟩
  · rw [hProcess] at hLive
    cases hLive
  · exact ⟨blob, hBlob, (hStore s hLive).remembers hFiles,
      fun id hMem age => hKeeps.updated hLive hMem age⟩

/-- A dog is updated, and the next list has the dogs in another order with a new one between them.
The store that is open then has the age that the dog was given. -/
theorem ages_are_remembered_sample :
    let dogs : List DogRecord := [⟨Uuid.ofNat 1, "poodle", 3⟩, ⟨Uuid.ofNat 2, "boxer", 4⟩]
    let more : List DogRecord :=
      [⟨Uuid.ofNat 2, "boxer", 4⟩, ⟨Uuid.ofNat 3, "poodle", 5⟩, ⟨Uuid.ofNat 1, "poodle", 3⟩]
    ∃ st s, Machine.run (DogLedger.step "ages".toList) .empty
        [.create dogs [], .updateAge (Uuid.ofNat 1) 7, .openStore more []] = some st ∧
          st.process.1 = some s ∧
      Remembers ⟨more, []⟩ st.memory s ∧ ageRead s (Uuid.ofNat 1) = some 7 := by
  intro dogs more
  have hEnd : (Machine.run (DogLedger.step "ages".toList) .empty
      [.create dogs [], .updateAge (Uuid.ofNat 1) 7, .openStore more []]).any (fun st =>
        st.process.1.isSome && st.blob = some ⟨more, []⟩ && st.memory (Uuid.ofNat 1) = .since 7) =
            true := by
    decide +kernel
  have hLast : ((Machine.run (DogLedger.step "ages".toList) .empty
      [.create dogs [], .updateAge (Uuid.ofNat 1) 7]).map fun st => st.blob) =
        some (some ⟨dogs, []⟩) := by
    decide +kernel
  obtain ⟨st, hRun, hEnd⟩ := (Option.any_eq_true _ _).mp hEnd
  simp only [Bool.and_eq_true, decide_eq_true_eq] at hEnd
  obtain ⟨⟨hSome, hBlob⟩, hSince⟩ := hEnd
  obtain ⟨s, hLive⟩ := Option.isSome_iff_exists.mp hSome
  refine ⟨st, s, hRun, hLive, ?_⟩
  simp only [Machine.run, Option.bind_eq_some_iff, Option.some.injEq] at hRun
  obtain ⟨st₁, hCreate, st₂, hUpdate, st₃, hOpen, rfl⟩ := hRun
  simp only [Machine.run, hCreate, hUpdate, Option.bind_some, Option.map_some, Option.some.injEq]
    at hLast
  have hDistinct : DogLedger.Distinct st₂ (.openStore more []) := by
    intro blob hOld hSame
    obtain rfl := Option.some.inj (hLast.symm.trans hOld)
    exact absurd hSame (by decide +kernel)
  have hRuns : Machine.Runs (DogLedger.step "ages".toList) DogLedger.Distinct .empty st₃ :=
    ((Machine.Runs.refl.tail trivial hCreate).tail trivial hUpdate).tail hDistinct hOpen
  obtain ⟨blob, hFound, hRemembers, -⟩ := (ages_are_remembered hRuns).1 s hLive
  obtain rfl := Option.some.inj (hFound.symm.trans hBlob)
  exact ⟨hRemembers, hRemembers.remembered _ ((hRemembers.ids _).mpr (by decide)) 7 hSince⟩

end MultimodalDb
