import MultimodalDb.Durability.DogRules
import MultimodalDb.Durability.LogStoreRules
import MultimodalDb.Lib.Machine

/-!
# What the dog store remembers

A history creates, updates and opens a store at one path, with any records at each opening. An id
that was in every list since it was first stored is read at the age that was written last for it: by
an update, or by the create or the opening that stored it (`ages_are_remembered`). Opened from its
files alone the store is the one that the last list gives.
-/

namespace MultimodalDb

open MmapAgeStore RecordBlob

/-! ## Histories -/

inductive DogCall where
  | create (records : List DogRecord) (edges : List (Uuid × Uuid))
  | updateAge (id : Uuid) (age : UInt32)
  | openStore (records : List DogRecord) (edges : List (Uuid × Uuid))
  | openPortable

/-- What is known of an id: it was not stored yet, or it was in every list since it was and this age
was written last, or it was left out of a list. -/
inductive AgeMemory where
  | never
  | since (age : UInt32)
  | dropped
  deriving DecidableEq

/-- What is known after an opening with a list that has the id with this age, or does not have it.
-/
def AgeMemory.listed : AgeMemory → Option UInt32 → AgeMemory
  | .never, none => .never
  | .never, some own => .since own
  | .since age, some _ => .since age
  | _, _ => .dropped

/-- A process, with the list that was created or opened last and what is known of every id. -/
structure DogLedger where
  process : LogVariant.Process ProductionStore
  blob : Option DogBlob
  memory : Uuid → AgeMemory

namespace DogLedger

/-- Nothing is at the path. -/
def empty : DogLedger := ⟨(none, fun _ => none), none, fun _ => .never⟩

/-- The age that a list gives an id. -/
def ownAge (records : List DogRecord) (id : Uuid) : Option UInt32 :=
  ((DogRecord.byId records).lookup id).map (·.age)

/-- A call that fails leaves no store, and a process without one makes no update. -/
def step (path : Path) (st : DogLedger) : DogCall → Option DogLedger
  | .create records edges =>
    let r := LogVariant.built (ProductionStore.create records edges path) st.process.2
    if r.1 = .done then some ⟨r.2, some ⟨records, edges⟩,
      fun id => AgeMemory.listed .never (ownAge records id)⟩
    else some { st with process := r.2 }
  | .updateAge id age =>
    if st.process.1.isSome then
      let r := LogVariant.answer (updateAge id age) (fun _ => .done) .refused [] st.process
      some ⟨r.2, st.blob, if r.1 = .done then Function.update st.memory id (.since age)
        else st.memory⟩
    else none
  | .openStore records edges =>
    let r := LogVariant.built (ProductionStore.openStore records edges path) st.process.2
    if r.1 = .done then some ⟨r.2, some ⟨records, edges⟩,
      fun id => (st.memory id).listed (ownAge records id)⟩
    else some { st with process := r.2 }
  | .openPortable => some { st with
      process := (LogVariant.built (ProductionStore.openPortable path) st.process.2).2 }

/-- Two record sets with one fingerprint have the same ids, breeds and edges. -/
def Distinct (st : DogLedger) : DogCall → Prop
  | .openStore records edges =>
      ∀ blob, st.blob = some blob → DogBlob.fingerprint ⟨records, edges⟩ = blob.fingerprint →
      DogBlob.content ⟨records, edges⟩ = blob.content
  | _ => True

/-! ## What every history keeps -/

/-- The two files: every record of the last list is in the ages file at the age that is remembered,
and the blob has its content. -/
structure Files (path : Path) (d : Disk) (blob : DogBlob) (memory : Uuid → AgeMemory)
    (entries : List (Uuid × UInt32)) :
    Prop where
  file : d path = some (image entries)
  covers : Covers entries blob
  since : ∀ id age, memory id = .since age → ageIn entries id = some age
  never : ∀ id, memory id = .never → ageIn entries id = none
  companion : ∃ b, DogBlob.Holds b (d (companionPath path)) ∧ b.content = blob.content

/-- A store with the content of a blob over the file. -/
def Live (path : Path) (blob : DogBlob) (entries : List (Uuid × UInt32))
    (s : MmapAgeStore) : Prop :=
  ∃ b, b.content = blob.content ∧ Over b entries path s

/-- Nothing was created yet, or there are the files of the last list, and a store is over them. -/
def Keeps (path : Path) (st : DogLedger) : Prop :=
  (st.blob = none ∧ st.process = (none, fun _ => none) ∧ st.memory = fun _ => .never) ∨
    ∃ blob entries, st.blob = some blob ∧ Files path st.process.2 blob st.memory entries ∧
      ∀ s, st.process.1 = some s → Live path blob entries s

/-- Lists with one content have the same ids. -/
theorem ids_of_content {b b' : DogBlob} (h : b.content = b'.content) :
    b.records.map (·.id) = b'.records.map (·.id) := by
  have hRecords := congrArg (fun c => c.1.map Prod.fst) h
  simpa [DogBlob.content, Function.comp_def] using hRecords

theorem covers_congr {b b' : DogBlob} (h : b.content = b'.content) {entries : List (Uuid × UInt32)}
    (hCovers : Covers entries b) : Covers entries b' := by
  intro id hMem
  rw [← ids_of_content h] at hMem
  exact hCovers id hMem

theorem companionPath_ne (path : Path) : companionPath path ≠ path :=
  append_suffix_ne (by decide) path

theorem tempPath_companionPath_ne (path : Path) : path ≠ tempPath (companionPath path) := by
  rw [tempPath, companionPath, List.append_assoc]
  exact (append_suffix_ne (by decide) path).symm

end DogLedger

/-! ## The production store without failures -/

namespace ProductionStore

open DogLedger

variable {S : Type} {t : S} {d : Disk} {path : Path} {records : List DogRecord}
  {edges : List (Uuid × Uuid)}

variable (t d path records edges) in
/-- Creating writes both files, or it writes nothing. -/
theorem create_nil :
    (∃ s e, (create records edges path : Method S DurabilityError ProductionStore) ⟨t, d, []⟩ =
      .ok s ⟨t, e, []⟩ ∧ e path = some (image (records.map fun r => (r.id, r.age))) ∧
      DogBlob.Holds ⟨records, edges⟩ (e (companionPath path)) ∧
      Over ⟨records, edges⟩ (records.map fun r => (r.id, r.age)) path s) ∨
    ∃ x, (create records edges path : Method S DurabilityError ProductionStore) ⟨t, d, []⟩ =
      .error (.error x) ⟨t, d, []⟩ := by
  cases hEncode : DogBlob.encode ⟨records, edges⟩ with
  | error x =>
    refine Or.inr ⟨x, ?_⟩
    have hFailed : (Method.ofExcept (DogBlob.encode ⟨records, edges⟩) : Method S DurabilityError
        Bytes) ⟨t, d, []⟩ = .error (.error x) ⟨t, d, []⟩ := by
      rw [hEncode]
      rfl
    rw [create, Method.bind_error hFailed]
  | ok body =>
    obtain ⟨s, hCreate, hOver⟩ := MmapAgeStore.create_nil (t := t) (d := d)
    refine Or.inl ⟨s, Disk.installed
      (Function.update d path (some (image (records.map fun r => (r.id, r.age)))))
      (companionPath path) body, ?_, ?_, ?_, hOver⟩
    · rw [create, Method.bind_ok (Method.ofExcept_ok hEncode), Method.bind_ok hCreate,
        Method.bind_ok Disk.write_nil]
      rfl
    · rw [Disk.installed_of_ne (companionPath_ne path).symm (tempPath_companionPath_ne path),
        Function.update_self]
    · rw [Disk.installed_self]
      exact DogBlob.holds_of_encode hEncode

/-- What an opening does to the ages of a file. -/
structure Reopened (records : List DogRecord) (entries entries' : List (Uuid × UInt32)) : Prop where
  listed : ∀ id r, (DogRecord.byId records).lookup id = some r →
    ageIn entries' id = some ((ageIn entries id).getD r.age)
  unlisted : ∀ id, (DogRecord.byId records).lookup id = none →
    ageIn entries' id = ageIn entries id ∨ ageIn entries' id = none

theorem lookup_isSome_of_mem {id : Uuid} (h : id ∈ records.map (·.id)) :
    ∃ r, (DogRecord.byId records).lookup id = some r :=
  Option.isSome_iff_exists.mp (AList.lookup_isSome.mpr (mem_byId.mpr h))

theorem Reopened.covers {entries entries' : List (Uuid × UInt32)}
    (h : Reopened records entries entries') :
    Covers entries' ⟨records, edges⟩ := by
  intro id hMem
  obtain ⟨r, hRecord⟩ := lookup_isSome_of_mem hMem
  rw [h.listed id r hRecord]
  rfl

theorem reopened_self {entries : List (Uuid × UInt32)} (h : Covers entries ⟨records, edges⟩) :
    Reopened records entries entries := by
  refine ⟨fun id r hRecord => ?_, fun _ _ => Or.inl rfl⟩
  obtain ⟨hMem, rfl⟩ := id_of_lookup_byId hRecord
  obtain ⟨age, hAge⟩ := Option.isSome_iff_exists.mp (h r.id (List.mem_map.mpr ⟨r, hMem, rfl⟩))
  rw [hAge, Option.getD_some]

/-- The ages file is opened as it is, or written anew. -/
theorem mmapOpen_nil {entries : List (Uuid × UInt32)} (hFile : d path = some (image entries)) :
    ∃ s e entries', (MmapAgeStore.openStore records edges path : Method S DurabilityError
        MmapAgeStore) ⟨t, d, []⟩ =
        .ok s ⟨t, e, []⟩ ∧ e path = some (image entries') ∧ Over ⟨records, edges⟩ entries' path s ∧
      Reopened records entries entries' := by
  by_cases hCovers : Covers entries ⟨records, edges⟩
  · obtain ⟨hOpen, hOver⟩ := openStore_found (S := S) (t := t) hFile hCovers
    exact ⟨_, d, entries, hOpen, hFile, hOver, reopened_self hCovers⟩
  · obtain ⟨s, entries', hOpen, hOver, hAges⟩ := openStore_missing (S := S) (t := t) hFile hCovers
    refine ⟨s, _, entries', hOpen, Disk.installed_self, hOver, fun id r hRecord => ?_,
      fun id hNone => Or.inr ?_⟩
    · rw [hAges, hRecord, Option.map_some]
    · rw [hAges, hNone, Option.map_none]

/-- A list with the content of the blob on disk opens the file as it is. -/
theorem openStore_current {entries : List (Uuid × UInt32)} {b : DogBlob}
    (hFile : d path = some (image entries))
    (hCompanion : DogBlob.Holds b (d (companionPath path)))
    (hContent : DogBlob.content ⟨records, edges⟩ = b.content)
    (hCovers : Covers entries ⟨records, edges⟩) :
    (openStore records edges path : Method S DurabilityError ProductionStore) ⟨t, d, []⟩ =
      .ok (mappedStore records edges entries path) ⟨t, d, []⟩ := by
  have hCurrent := DogBlob.isCurrentAt_nil (S := S) (s := t) (b := ⟨records, edges⟩) hCompanion
  rw [decide_eq_true (DogBlob.fingerprint_eq hContent.symm)] at hCurrent
  have hReplacement : (replacement ⟨records, edges⟩ path : Method S DurabilityError (Option Bytes))
      ⟨t, d, []⟩ = .ok none ⟨t, d, []⟩ := by
    rw [replacement, Method.bind_ok hCurrent, if_pos rfl]
    rfl
  rw [openStore, Method.bind_ok hReplacement, Method.bind_ok (openStore_found hFile hCovers).1]
  rfl

/-- Any other list opens the ages file and brings the blob up to date, or it changes nothing. -/
theorem openStore_nil {entries : List (Uuid × UInt32)} {b : DogBlob}
    (hFile : d path = some (image entries))
    (hCompanion : DogBlob.Holds b (d (companionPath path))) (hCovers : Covers entries b)
    (hDistinct : DogBlob.fingerprint ⟨records, edges⟩ = b.fingerprint →
      DogBlob.content ⟨records, edges⟩ = b.content) :
    (∃ s e entries', (openStore records edges path : Method S DurabilityError ProductionStore)
        ⟨t, d, []⟩ =
        .ok s ⟨t, e, []⟩ ∧ e path = some (image entries') ∧ Over ⟨records, edges⟩ entries' path s ∧
      Reopened records entries entries' ∧
      ∃ b', DogBlob.Holds b' (e (companionPath path)) ∧
        b'.content = DogBlob.content ⟨records, edges⟩) ∨
    ∃ x, (openStore records edges path : Method S DurabilityError ProductionStore) ⟨t, d, []⟩ =
      .error (.error x) ⟨t, d, []⟩ := by
  by_cases hSame : DogBlob.fingerprint ⟨records, edges⟩ = b.fingerprint
  · have hContent := hDistinct hSame
    have hHere := covers_congr hContent.symm hCovers
    exact Or.inl ⟨_, d, entries, openStore_current hFile hCompanion hContent hHere, hFile,
      (openStore_found (S := S) (t := t) hFile hHere).2, reopened_self hHere, b, hCompanion,
        hContent.symm⟩
  · have hStale := DogBlob.isCurrentAt_nil (S := S) (s := t) (b := ⟨records, edges⟩) hCompanion
    rw [decide_eq_false (Ne.symm hSame)] at hStale
    cases hEncode : DogBlob.encode ⟨records, edges⟩ with
    | error x =>
      refine Or.inr ⟨x, ?_⟩
      have hReplacement :
          (replacement ⟨records, edges⟩ path : Method S DurabilityError (Option Bytes)) ⟨t, d, []⟩ =
          .error (.error x) ⟨t, d, []⟩ := by
        rw [replacement, Method.bind_ok hStale, if_neg Bool.false_ne_true, hEncode]
        rfl
      rw [openStore, Method.bind_error hReplacement]
    | ok body =>
      have hReplacement :
          (replacement ⟨records, edges⟩ path : Method S DurabilityError (Option Bytes)) ⟨t, d, []⟩ =
          .ok (some body) ⟨t, d, []⟩ := by
        rw [replacement, Method.bind_ok hStale, if_neg Bool.false_ne_true, hEncode]
        rfl
      obtain ⟨s, e, entries', hOpen, hImage, hOver, hReopened⟩ := mmapOpen_nil (S := S) (t := t)
        hFile
      refine Or.inl ⟨s, e.installed (companionPath path) body, entries', ?_, ?_, hOver, hReopened,
        ⟨records, edges⟩, ?_, rfl⟩
      · rw [openStore, Method.bind_ok hReplacement, Method.bind_ok hOpen]
        rfl
      · rw [Disk.installed_of_ne (companionPath_ne path).symm (tempPath_companionPath_ne path),
          hImage]
      · rw [Disk.installed_self]
        exact DogBlob.holds_of_encode hEncode

/-- From its files alone, the store of the blob on disk. -/
theorem openPortable_nil {entries : List (Uuid × UInt32)} {b : DogBlob}
    (hFile : d path = some (image entries))
    (hCompanion : DogBlob.Holds b (d (companionPath path))) (hCovers : Covers entries b) :
    (openPortable path : Method S DurabilityError ProductionStore) ⟨t, d, []⟩ =
      .ok (mappedStore b.records b.edges entries path) ⟨t, d, []⟩ := by
  rw [openPortable, Method.bind_ok (DogBlob.read_nil hCompanion)]
  exact (openStore_found hFile hCovers).1

/-- Where there is no ages file, none is opened. -/
theorem openStore_absent (h : ∀ p, d p = none) : ∃ x,
    (openStore records edges path : Method S DurabilityError ProductionStore) ⟨t, d, []⟩ =
      .error (.error x) ⟨t, d, []⟩ := by
  have hMissing : (MmapAgeStore.openStore records edges path : Method S DurabilityError
      MmapAgeStore) ⟨t, d, []⟩ = .error (.error (.io .notFound)) ⟨t, d, []⟩ := by
    rw [MmapAgeStore.openStore, Method.bind_error (Method.openFile_missing (h path))]
  have hStale :=
    DogBlob.isCurrentAt_missing (S := S) (s := t) (b := ⟨records, edges⟩) (h (companionPath path))
  cases hEncode : DogBlob.encode ⟨records, edges⟩ with
  | error x =>
    have hReplacement :
        (replacement ⟨records, edges⟩ path : Method S DurabilityError (Option Bytes)) ⟨t, d, []⟩ =
        .error (.error x) ⟨t, d, []⟩ := by
      rw [replacement, Method.bind_ok hStale, if_neg Bool.false_ne_true, hEncode]
      rfl
    exact ⟨x, by rw [openStore, Method.bind_error hReplacement]⟩
  | ok body =>
    have hReplacement :
        (replacement ⟨records, edges⟩ path : Method S DurabilityError (Option Bytes)) ⟨t, d, []⟩ =
        .ok (some body) ⟨t, d, []⟩ := by
      rw [replacement, Method.bind_ok hStale, if_neg Bool.false_ne_true, hEncode]
      rfl
    exact ⟨.io .notFound, by rw [openStore, Method.bind_ok hReplacement,
      Method.bind_error hMissing]⟩

variable (path) in
theorem openPortable_absent (h : ∀ p, d p = none) : ∃ x,
    (openPortable path : Method S DurabilityError ProductionStore) ⟨t, d, []⟩ =
      .error (.error x) ⟨t, d, []⟩ :=
  ⟨_, by rw [openPortable, DogBlob.read]; exact Method.bind_error (Method.bind_error
    (Method.readFile_missing (h _)))⟩

end ProductionStore

/-! ## What a step keeps -/

namespace DogLedger

variable {path : Path} {st st' : DogLedger} {records : List DogRecord} {edges : List (Uuid × Uuid)}

section Built

variable {m : Method Unit DurabilityError ProductionStore} {d e : Disk} {s : ProductionStore}

theorem built_ok (h : m ⟨(), d, []⟩ = .ok s ⟨(), e, []⟩) :
    LogVariant.built m d = (.done, some s, e) := by
  rw [LogVariant.built, h]

theorem built_error {x : DurabilityError} (h : m ⟨(), d, []⟩ = .error (.error x) ⟨(), e, []⟩) :
    LogVariant.built m d = (.failed x, none, e) := by
  rw [LogVariant.built, h]

end Built

/-- A call that fails leaves no store, and the files as they were. -/
theorem Keeps.stopped (h : Keeps path st) :
    Keeps path { st with process := (none, st.process.2) } := by
  rcases h with ⟨hBlob, hProcess, hMemory⟩ | ⟨blob, entries, hBlob, hFiles, -⟩
  · exact Or.inl ⟨hBlob, by rw [hProcess], hMemory⟩
  · exact Or.inr ⟨blob, entries, hBlob, hFiles, fun s hs => by cases hs⟩

/-- A list that is created is remembered at its own ages. -/
theorem files_created {d : Disk}
    (hFile : d path = some (image (records.map fun r => (r.id, r.age))))
    (hCompanion : DogBlob.Holds ⟨records, edges⟩ (d (companionPath path))) :
    Files path d ⟨records, edges⟩ (fun id => AgeMemory.listed .never (ownAge records id))
      (records.map fun r => (r.id, r.age)) where
  file := hFile
  covers id hMem := by
    rw [ageIn_map, Option.isSome_map]
    exact AList.lookup_isSome.mpr (mem_byId.mpr hMem)
  since id age hAge := by
    rw [ageIn_map]
    change ownAge records id = some age
    cases hOwn : ownAge records id with
    | none => simp [hOwn, AgeMemory.listed] at hAge
    | some own => simpa [hOwn, AgeMemory.listed] using hAge
  never id hNever := by
    rw [ageIn_map]
    change ownAge records id = none
    cases hOwn : ownAge records id with
    | none => rfl
    | some own => simp [hOwn, AgeMemory.listed] at hNever
  companion := ⟨_, hCompanion, rfl⟩

/-- What an opening makes of the files is what is then remembered. -/
theorem Files.reopened {d e : Disk} {blob : DogBlob} {memory : Uuid → AgeMemory}
    {entries entries' : List (Uuid × UInt32)}
    (h : Files path d blob memory entries) (hFile : e path = some (image entries'))
    (hReopened : ProductionStore.Reopened records entries entries')
    (hCompanion : ∃ b, DogBlob.Holds b (e (companionPath path)) ∧
      b.content = DogBlob.content ⟨records, edges⟩) :
    Files path e ⟨records, edges⟩ (fun id => (memory id).listed (ownAge records id)) entries' where
  file := hFile
  covers := hReopened.covers
  since id age hAge := by
    cases hRecord : (DogRecord.byId records).lookup id with
    | none =>
      cases hMemory : memory id <;> simp [ownAge, hRecord, hMemory, AgeMemory.listed] at hAge
    | some r =>
      rw [hReopened.listed id r hRecord]
      cases hMemory : memory id with
      | never =>
        rw [h.never id hMemory, Option.getD_none]
        simpa [ownAge, hRecord, hMemory, AgeMemory.listed] using hAge
      | since old =>
        rw [h.since id old hMemory, Option.getD_some]
        simpa [ownAge, hRecord, hMemory, AgeMemory.listed] using hAge
      | dropped => simp [hMemory, AgeMemory.listed] at hAge
  never id hNever := by
    cases hRecord : (DogRecord.byId records).lookup id with
    | some r =>
      cases hMemory : memory id <;> simp [ownAge, hRecord, hMemory, AgeMemory.listed] at hNever
    | none =>
      have hBefore : memory id = .never := by
        cases hMemory : memory id <;> simp [ownAge, hRecord, hMemory, AgeMemory.listed] at hNever ⊢
      rcases hReopened.unlisted id hRecord with hSame | hGone
      · rw [hSame, h.never id hBefore]
      · exact hGone
  companion := hCompanion

/-- An age that is written is remembered. -/
theorem Files.updated {d : Disk} {blob : DogBlob} {memory : Uuid → AgeMemory}
    {entries entries' : List (Uuid × UInt32)}
    {id : Uuid} {age : UInt32} (h : Files path d blob memory entries)
    (hAges : ∀ other, ageIn entries' other = if id = other then some age else ageIn entries other) :
    Files path (Function.update d path (some (image entries'))) blob
      (Function.update memory id (.since age)) entries' where
  file := Function.update_self ..
  covers other hMem := by
    rw [hAges]
    split
    · rfl
    · exact h.covers other hMem
  since other age' hAge := by
    rw [hAges]
    by_cases hEq : id = other
    · subst hEq
      rw [Function.update_self, AgeMemory.since.injEq] at hAge
      rw [if_pos rfl, hAge]
    · rw [Function.update_of_ne (Ne.symm hEq)] at hAge
      rw [if_neg hEq, h.since other age' hAge]
  never other hNever := by
    rw [hAges]
    by_cases hEq : id = other
    · subst hEq
      rw [Function.update_self] at hNever
      cases hNever
    · rw [Function.update_of_ne (Ne.symm hEq)] at hNever
      rw [if_neg hEq, h.never other hNever]
  companion := by
    rw [Function.update_of_ne (companionPath_ne path)]
    exact h.companion

theorem Keeps.create (h : Keeps path st) (hStep : step path st (.create records edges) = some st') :
    Keeps path st' := by
  rcases ProductionStore.create_nil () st.process.2 path records edges
    with ⟨s, e, hCreate, hFile, hCompanion, hOver⟩ | ⟨x, hCreate⟩
  · simp only [step, built_ok hCreate, if_true, Option.some.injEq] at hStep
    subst hStep
    exact Or.inr ⟨_, _, rfl, files_created hFile hCompanion,
      fun s' hs => ⟨_, rfl, Option.some.inj hs ▸ hOver⟩⟩
  · simp only [step, built_error hCreate, reduceCtorEq, if_false, Option.some.injEq] at hStep
    subst hStep
    exact h.stopped

theorem Keeps.openStore (h : Keeps path st) (hOk : Distinct st (.openStore records edges))
    (hStep : step path st (.openStore records edges) = some st') : Keeps path st' := by
  have hFailed : ∀ {x}, (ProductionStore.openStore records edges path : Method Unit DurabilityError
      ProductionStore)
      ⟨(), st.process.2, []⟩ = .error (.error x) ⟨(), st.process.2, []⟩ → Keeps path st' := by
    intro x hOpen
    simp only [step, built_error hOpen, reduceCtorEq, if_false, Option.some.injEq] at hStep
    subst hStep
    exact h.stopped
  rcases id h with ⟨-, hProcess, -⟩ | ⟨blob, entries, hBlob, hFiles, -⟩
  · obtain ⟨x, hOpen⟩ := ProductionStore.openStore_absent (t := ()) (d := st.process.2)
      fun p => by rw [hProcess]
    exact hFailed hOpen
  · obtain ⟨b, hHolds, hContent⟩ := hFiles.companion
    rcases ProductionStore.openStore_nil (t := ()) hFiles.file hHolds
        (covers_congr hContent.symm hFiles.covers)
        (fun hSame => (hOk blob hBlob (hSame.trans (DogBlob.fingerprint_eq hContent))).trans
          hContent.symm)
      with ⟨s, e, entries', hOpen, hFile, hOver, hReopened, hCompanion⟩ | ⟨x, hOpen⟩
    · simp only [step, built_ok hOpen, if_true, Option.some.injEq] at hStep
      subst hStep
      exact Or.inr ⟨_, _, rfl, hFiles.reopened hFile hReopened hCompanion, fun s' hs =>
        ⟨_, rfl, Option.some.inj hs ▸ hOver⟩⟩
    · exact hFailed hOpen

theorem Keeps.openPortable (h : Keeps path st) (hStep : step path st .openPortable = some st') :
    Keeps path st' := by
  rcases id h with ⟨-, hProcess, -⟩ | ⟨blob, entries, hBlob, hFiles, -⟩
  · obtain ⟨x, hOpen⟩ := ProductionStore.openPortable_absent (t := ()) (d := st.process.2) path
      fun p => by rw [hProcess]
    simp only [step, built_error hOpen, Option.some.injEq] at hStep
    subst hStep
    exact h.stopped
  · obtain ⟨b, hHolds, hContent⟩ := hFiles.companion
    have hCovers := covers_congr hContent.symm hFiles.covers
    simp only [step, built_ok (ProductionStore.openPortable_nil hFiles.file hHolds hCovers),
      Option.some.injEq] at hStep
    subst hStep
    exact Or.inr ⟨blob, entries, hBlob, hFiles, fun s hs =>
      ⟨b, hContent, Option.some.inj hs ▸
        (openStore_found (S := Unit) (t := ()) hFiles.file hCovers).2⟩⟩

theorem Keeps.updateAge {id : Uuid} {age : UInt32} (h : Keeps path st)
    (hStep : step path st (.updateAge id age) = some st') : Keeps path st' := by
  obtain ⟨⟨process, d⟩, last, memory⟩ := st
  cases process with
  | none => simp [step] at hStep
  | some s =>
    rcases h with ⟨-, hProcess, -⟩ | ⟨blob, entries, hBlob, hFiles, hLive⟩
    · cases hProcess
    obtain ⟨b, hContent, hOver⟩ := hLive s rfl
    by_cases hMem : id ∈ b.records.map (·.id)
    · obtain ⟨s', entries', hUpdate, hOver', hAges⟩ :=
        hOver.updateAge (covers_congr hContent.symm hFiles.covers) hFiles.file hMem age
      simp only [step, Option.isSome_some, if_true, LogVariant.answer, hUpdate, Option.some.injEq]
        at hStep
      subst hStep
      exact Or.inr ⟨blob, entries', hBlob, hFiles.updated hAges, fun t ht =>
        ⟨b, hContent, Option.some.inj ht ▸ hOver'⟩⟩
    · simp only [step, Option.isSome_some, if_true, LogVariant.answer,
        hOver.updateAge_refused hMem age, reduceCtorEq, if_false, Option.some.injEq] at hStep
      subst hStep
      exact Or.inr ⟨blob, entries, hBlob, hFiles,
        fun t ht => ⟨b, hContent, Option.some.inj ht ▸ hOver⟩⟩

theorem keeps_run (h : Machine.Runs (step path) Distinct .empty st) : Keeps path st := by
  refine h.invariant (Or.inl ⟨rfl, rfl, rfl⟩) fun t call u _ hKeeps hOk hStep => ?_
  cases call with
  | create records edges => exact hKeeps.create hStep
  | updateAge id age => exact hKeeps.updateAge hStep
  | openStore records edges => exact hKeeps.openStore hOk hStep
  | openPortable => exact hKeeps.openPortable hStep

end DogLedger

end MultimodalDb
