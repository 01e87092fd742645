import MultimodalDb.Durability.LogStoreRules

/-!
# Rules for the table with sorted files

An age is read from the table in memory, else from the newest of the flushed files that has it, else
from the dog as it was given. `flushedAge` says what the files give, where all of them can be read;
`loggedAge` what a log gives once it is replayed.
-/

namespace MultimodalDb

open MapPairs Wal

namespace LsmStore

/-! ## Tables on disk -/

theorem decodeTable_encodeTable {table : AList (fun _ : Uuid => UInt32)} {bytes : Bytes}
    (h : encodeTable table = some bytes) :
    ∃ read, decodeTable bytes = some read ∧ ∀ id, read.lookup id = table.lookup id := by
  refine ⟨_, by rw [decodeTable, Codec.decode_eq_some.mpr h, Option.map_some], fun id => ?_⟩
  exact lookup_fill_of_perm (List.perm_insertionSort ..) id

theorem sstPath_injective {dir : Path} {g g' : Nat} (h : sstPath dir g = sstPath dir g') :
    g = g' := by
  have hDigits : Nat.toDigits 10 g = Nat.toDigits 10 g' := by
    have hName : "/sst_".toList ++ (Nat.repr g).toList ++ ".bin".toList =
        "/sst_".toList ++ (Nat.repr g').toList ++ ".bin".toList := List.append_cancel_left h
    have hFront := List.append_cancel_left (List.append_cancel_right hName)
    rwa [Nat.toList_repr, Nat.toList_repr] at hFront
  rw [← Nat.ofDigitChars_ten_toDigits (n := g), hDigits, Nat.ofDigitChars_ten_toDigits]

theorem sstPath_ne_generationsPath (dir : Path) (g : Nat) :
    sstPath dir g ≠ generationsPath dir := by
  intro h
  have hSuffix := List.append_cancel_left h
  simp at hSuffix

theorem sstPath_ne_walPath (dir : Path) (g : Nat) : sstPath dir g ≠ walPath dir := by
  intro h
  have hSuffix := List.append_cancel_left h
  simp at hSuffix

theorem generationsPath_ne_walPath (dir : Path) : generationsPath dir ≠ walPath dir :=
  append_suffix_ne_append (by decide) dir

/-- The table in one file. -/
def tableAt (d : Disk) (dir : Path) (g : Nat) : Option (AList (fun _ : Uuid => UInt32)) :=
  (d (sstPath dir g)).bind decodeTable

/-- All of the first `count` files can be read. -/
def Readable (d : Disk) (dir : Path) (count : Nat) : Prop := ∀ g < count, (tableAt d dir g).isSome

/-- What the first `count` files give for an id, the newest first. -/
def flushedAge (d : Disk) (dir : Path) (id : Uuid) : Nat → Option UInt32
  | 0 => none
  | g + 1 => ((tableAt d dir g).bind (·.lookup id)).or (flushedAge d dir id g)

theorem Readable.of_le {d : Disk} {dir : Path} {count more : Nat} (h : Readable d dir more)
    (hLe : count ≤ more) :
    Readable d dir count :=
  fun g hg => h g (by omega)

/-- Files with the same tables give the same ages. -/
theorem flushedAge_congr {d d' : Disk} {dir : Path} {count : Nat}
    (h : ∀ g < count, tableAt d' dir g = tableAt d dir g) (id : Uuid) :
    flushedAge d' dir id count = flushedAge d dir id count := by
  induction count with
  | zero => rfl
  | succ count ih =>
    rw [flushedAge, flushedAge, h count (by omega), ih fun g hg => h g (by omega)]

theorem tableAt_update_of_ne {d : Disk} {dir path : Path} {g : Nat} (h : sstPath dir g ≠ path)
    (file : Option Bytes) :
    tableAt (Function.update d path file) dir g = tableAt d dir g := by
  rw [tableAt, tableAt, Function.update_of_ne h]

/-! ## Reading ages -/

section Reading

variable {S : Type} {t : S} {d : Disk} {dir : Path}

theorem searchGenerations_nil {id : Uuid} {count : Nat} (h : Readable d dir count) :
    searchGenerations (S := S) dir id count ⟨t, d, []⟩ =
      .ok (flushedAge d dir id count) ⟨t, d, []⟩ := by
  induction count with
  | zero => rfl
  | succ count ih =>
    obtain ⟨table, hTable⟩ := Option.isSome_iff_exists.mp (h count (by omega))
    obtain ⟨bytes, hBytes, hDecode⟩ := Option.bind_eq_some_iff.mp hTable
    rw [searchGenerations, Method.bind_ok (Method.readFile_nil hBytes), hDecode]
    dsimp only
    rw [flushedAge, hTable, Option.bind_some]
    cases table.lookup id with
    | none => exact ih (h.of_le (by omega))
    | some age => rfl

/-- Where the search finds nothing, every file is readable and has nothing. -/
theorem searchGenerations_cases (id : Uuid) (count : Nat) :
    (Readable d dir count ∧ flushedAge d dir id count = none) ∨
      (∃ age, ∀ t : S, searchGenerations dir id count ⟨t, d, []⟩ = .ok (some age) ⟨t, d, []⟩) ∨
      ∃ e, ∀ t : S, searchGenerations dir id count ⟨t, d, []⟩ = .error (.error e) ⟨t, d, []⟩ := by
  induction count with
  | zero => exact Or.inl ⟨fun g hg => absurd hg (by omega), rfl⟩
  | succ count ih =>
    cases hFile : d (sstPath dir count) with
    | none =>
      refine Or.inr (Or.inr ⟨.io .notFound, fun t => ?_⟩)
      rw [searchGenerations, Method.bind_error (Method.readFile_missing hFile)]
    | some bytes =>
      cases hTable : decodeTable bytes with
      | none =>
        refine Or.inr (Or.inr ⟨.serde, fun t => ?_⟩)
        rw [searchGenerations, Method.bind_ok (Method.readFile_nil hFile), hTable]
        rfl
      | some table =>
        have hAt : tableAt d dir count = some table := by
          rw [tableAt, hFile, Option.bind_some, hTable]
        cases hLookup : table.lookup id with
        | some age =>
          refine Or.inr (Or.inl ⟨age, fun t => ?_⟩)
          rw [searchGenerations, Method.bind_ok (Method.readFile_nil hFile), hTable]
          dsimp only
          rw [hLookup]
          rfl
        | none =>
          have hRest : ∀ t : S, searchGenerations dir id (count + 1) ⟨t, d, []⟩ =
              searchGenerations dir id count ⟨t, d, []⟩ := fun t => by
            rw [searchGenerations, Method.bind_ok (Method.readFile_nil hFile), hTable]
            dsimp only
            rw [hLookup]
          simp only [hRest]
          refine ih.imp_left fun ⟨hReadable, hNone⟩ => ⟨fun g hg => ?_, ?_⟩
          · rcases Nat.lt_succ_iff_lt_or_eq.mp hg with hLt | rfl
            · exact hReadable g hLt
            · rw [hAt]
              rfl
          · rw [flushedAge, hAt, Option.bind_some, hLookup, hNone]
            rfl

/-- The age of a dog: from the table, else from the files, else its own. -/
def currentAge (s : LsmStore) (d : Disk) (id : Uuid) : Option UInt32 :=
  (s.memtable.lookup id).or (flushedAge d s.dir id s.flushedGenerations)

theorem resolveAge_nil {s : LsmStore} (h : Readable d s.dir s.flushedGenerations) (id : Uuid) :
    resolveAge id ⟨s, d, []⟩ =
      .ok ((currentAge s d id).or ((s.records.lookup id).map (·.age))) ⟨s, d, []⟩ := by
  have hSelf : (Method.self : Method LsmStore DurabilityError LsmStore) ⟨s, d, []⟩ =
    .ok s ⟨s, d, []⟩ := rfl
  rw [resolveAge, Method.bind_ok hSelf, currentAge]
  cases s.memtable.lookup id with
  | some age => rfl
  | none =>
    dsimp only
    rw [Method.bind_ok (searchGenerations_nil h), Option.none_or]
    cases flushedAge d s.dir id s.flushedGenerations <;> rfl

/-- What a store reads for a dog. -/
theorem get_nil {s : LsmStore} {id : Uuid} (h : Readable d s.dir s.flushedGenerations) :
    get id ⟨s, d, []⟩ =
      .ok ((s.records.lookup id).map fun r => { r with age := (currentAge s d id).getD r.age })
        ⟨s, d, []⟩ := by
  have hSelf : (Method.self : Method LsmStore DurabilityError LsmStore) ⟨s, d, []⟩ =
    .ok s ⟨s, d, []⟩ := rfl
  have hResolve := resolveAge_nil h id
  rw [get, Method.bind_ok hSelf]
  cases hRecord : s.records.lookup id with
  | none => rfl
  | some r =>
    rw [hRecord] at hResolve
    dsimp only
    rw [Method.bind_ok (Method.attempt_ok hResolve)]
    cases currentAge s d id <;> rfl

/-- What a store reads for all of them. -/
theorem scanAges_nil {s : LsmStore} (h : Readable d s.dir s.flushedGenerations) :
    scanAges ⟨s, d, []⟩ = .ok (s.records.keys.filterMap fun id =>
      (s.records.lookup id).map fun r => (currentAge s d id).getD r.age) ⟨s, d, []⟩ := by
  have hLoop : ∀ ids : List Uuid, (∀ id ∈ ids, id ∈ s.records) →
      (ids.mapM fun id => (Method.attempt (resolveAge id) : Method LsmStore DurabilityError _))
        ⟨s, d, []⟩ =
        .ok (ids.map fun id => some ((s.records.lookup id).map fun r =>
          (currentAge s d id).getD r.age)) ⟨s, d, []⟩ := by
    intro ids hKnown
    induction ids with
    | nil => rfl
    | cons id ids ih =>
      obtain ⟨r, hRecord⟩ :=
        Option.isSome_iff_exists.mp (AList.lookup_isSome.mpr (hKnown id List.mem_cons_self))
      have hResolve := resolveAge_nil h id
      have hRest := ih fun other hOther => hKnown other (List.mem_cons_of_mem _ hOther)
      rw [hRecord] at hResolve
      rw [List.mapM_cons, Method.bind_ok (Method.attempt_ok hResolve), Method.bind_ok hRest,
        List.map_cons, hRecord]
      cases currentAge s d id <;> rfl
  have hSelf : (Method.self : Method LsmStore DurabilityError LsmStore) ⟨s, d, []⟩ =
    .ok s ⟨s, d, []⟩ := rfl
  rw [scanAges, Method.bind_ok hSelf,
    Method.bind_ok (hLoop s.records.keys fun id hId => AList.mem_keys.mpr hId)]
  change EStateM.Result.ok _ _ = _
  rw [List.filterMap_map]
  rfl

end Reading

/-! ## Replaying -/

/-- What a log gives for an id: the last age in it. -/
def loggedAge (entries : List WalEntry) (id : Uuid) : Option UInt32 := (replay entries).1.lookup id

@[simp] theorem loggedAge_nil (id : Uuid) : loggedAge [] id = none := AList.lookup_empty id

theorem loggedAge_snoc (entries : List WalEntry) (entry : WalEntry) (id : Uuid) :
    loggedAge (entries ++ [entry]) id = if entry.id = id then some entry.age
      else loggedAge entries id := by
  simp only [loggedAge, replay, List.foldl_append, List.foldl_cons, List.foldl_nil]
  split
  · next hEq => rw [← hEq, AList.lookup_insert]
  · next hNe => rw [AList.lookup_insert_ne (Ne.symm hNe)]

/-! ## Opening and updating -/

section Opening

variable {S : Type} {t : S} {d : Disk} {A C : Stop DurabilityError → S → Disk → Prop} {dir : Path}
variable {records : List DogRecord} {edges : List (Uuid × Uuid)}

/-- The number of files a directory says it has. -/
def Counts (d : Disk) (dir : Path) (count : Nat) : Prop :=
  (d (generationsPath dir) = none ∧ count = 0) ∨
    ∃ bytes, d (generationsPath dir) = some bytes ∧ Codec.decode bytes = some count

theorem wp_readGenerations {count : Nat} {Q : Nat → S → Disk → Prop} (h : Counts d dir count)
    (hOk : Q count t d) (hStop : ∀ e, C e t d) : Method.wp (readGenerations dir) t d Q A C := by
  refine Method.wp_bind (Method.wp_readIfPresent ?_ hStop)
  rcases h with ⟨hNone, rfl⟩ | ⟨bytes, hBytes, hDecode⟩
  · rw [hNone]
    exact Method.wp_pure hOk
  · rw [hBytes]
    dsimp only
    rw [hDecode]
    exact Method.wp_pure hOk

theorem wp_openStore {count : Nat} {entries : List WalEntry} {tail : Bytes}
    {Q : LsmStore → S → Disk → Prop}
    (hCount : Counts d dir count) (hLog : Holds entries tail (d (walPath dir)))
    (hOk : Q ⟨DogRecord.byId records, DogRecord.byBreed records, DogRecord.adjacency edges,
      (replay entries).1, count, dir, (replay entries).2⟩ t d)
    (hStop : ∀ e, C e t d) : Method.wp (openStore records edges dir) t d Q A C := by
  refine Method.wp_bind (Method.wp_createDirAll ?_ hStop)
  refine Method.wp_bind (wp_readGenerations hCount ?_ hStop)
  refine Method.wp_bind (wp_readWalEntries hLog ?_ hStop)
  refine Method.wp_bind (Method.wp_openOrCreate ?_ hStop)
  rw [Disk.update_getD_self hLog.2]
  exact Method.wp_pure hOk

theorem wp_create {Q : LsmStore → S → Disk → Prop}
    (hOk : Q ⟨DogRecord.byId records, DogRecord.byBreed records, DogRecord.adjacency edges, ∅,
      0, dir, 0⟩ t (Function.update d (walPath dir) (some []))) (hStop : ∀ e, C e t d) :
    Method.wp (create records edges dir) t d Q A C :=
  Method.wp_bind (Method.wp_createDirAll
    (Method.wp_bind (Method.wp_createFile (Method.wp_pure hOk) hStop)) hStop)

end Opening

theorem wp_updateAge {s : LsmStore} {d : Disk} {id : Uuid} {age : UInt32}
    {A C : Stop StoreError → LsmStore → Disk → Prop} {Q : Unit → LsmStore → Disk → Prop}
    (hKnown : id ∈ s.records →
      Q () { s with nextSeq := s.nextSeq + 1, memtable := s.memtable.insert id age }
      (d.extend (walPath s.dir) (appended ⟨s.nextSeq, id, age⟩)))
    (hUnknown : id ∉ s.records → A (.error (.notFound id)) s d)
    (hStop : ∀ n e, C e s (d.extend (walPath s.dir) ((appended ⟨s.nextSeq, id, age⟩).take n))) :
    Method.wp (updateAge id age) s d Q A C := by
  refine Method.wp_bind (Method.wp_self ?_)
  split
  · next hMem =>
    refine Method.wp_bind (Method.wp_mapError (wp_appendWalEntry ?_ fun n =>
      Method.onMapped_of_forall (hStop n)))
    exact Method.wp_modifySelf (hKnown hMem)
  · next hNot => exact Method.wp_fail (hUnknown hNot)

end LsmStore

end MultimodalDb
