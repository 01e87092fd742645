import MultimodalDb.Durability.LsmRules
import MultimodalDb.Durability.TornLogs

/-!
# Flushes that were cut

A flush writes the table to the next file, then how many files there are, then empties the log. A
crash between two of these leaves an age in more than one place, or a file that is not counted and
is written again by the next flush. `Shown` says that what is in memory and what is on disk give the
same ages, and every step keeps it: what was accepted last is what is read (`last_write_wins`).
-/

namespace MultimodalDb

open Wal

namespace LsmStore

/-! ## What memory and disk give -/

/-- What opening would show: the ages of the log, else those of the files that are counted. -/
structure DiskShows (dir : Path) (d : Disk) (ages : Uuid → Option UInt32) (count : Nat) : Prop where
  counts : Counts d dir count
  readable : Readable d dir count
  shows : ∃ entries, Holds entries [] (d (walPath dir)) ∧
    ∀ id, (loggedAge entries id).or (flushedAge d dir id count) = ages id

/-- A store in memory shows the ages its directory shows. The next file it writes is not one of
those that are counted, or those have nothing in them. -/
structure MemoryShows (dir : Path) (s : LsmStore) (d : Disk) (ages : Uuid → Option UInt32)
    (count : Nat) : Prop where
  place : s.dir = dir
  readable : Readable d dir s.flushedGenerations
  shows : ∀ id, currentAge s d id = ages id
  next : count ≤ s.flushedGenerations ∨ ∀ id, flushedAge d dir id count = none

/-- What a process and its directory keep. -/
def Shown (dir : Path) (process : LogVariant.Process LsmStore)
    (ages : Uuid → Option UInt32) : Prop :=
  ∃ count, DiskShows dir process.2 ages count ∧ ∀ s, process.1 = some s →
    MemoryShows dir s process.2 ages count

/-- A count that is on disk fits its eight bytes. -/
theorem Counts.lt {d : Disk} {dir : Path} {count : Nat} (h : Counts d dir count) :
    count < 256 ^ 8 := by
  rcases h with ⟨-, rfl⟩ | ⟨bytes, -, hDecode⟩
  · decide
  · have hEncode := Codec.decode_eq_some.mp hDecode
    change (if count < 256 ^ 8 then some (Bytes.leBytes 8 count) else none) = some bytes at hEncode
    split at hEncode
    · next hLt => exact hLt
    · cases hEncode

section Flushing

variable {dir : Path} {s : LsmStore} {d : Disk} {ages : Uuid → Option UInt32} {count : Nat}
  {bytes countBytes : Bytes}

/-- The disk after a flush has written its table. -/
def tableWritten (s : LsmStore) (d : Disk) (bytes : Bytes) : Disk :=
  Function.update d (sstPath s.dir s.flushedGenerations) (some bytes)

/-- And after it has counted the new file. -/
def counted (s : LsmStore) (d : Disk) (bytes countBytes : Bytes) : Disk :=
  Function.update (tableWritten s d bytes) (generationsPath s.dir) (some countBytes)

/-- And after it has emptied the log. -/
def logEmptied (s : LsmStore) (d : Disk) (bytes countBytes : Bytes) : Disk :=
  Function.update (counted s d bytes countBytes) (walPath s.dir) (some [])

theorem tableAt_tableWritten_of_ne {g : Nat} (h : g ≠ s.flushedGenerations) :
    tableAt (tableWritten s d bytes) s.dir g = tableAt d s.dir g :=
  tableAt_update_of_ne (fun hEq => h (sstPath_injective hEq)) _

theorem tableAt_counted (g : Nat) :
    tableAt (counted s d bytes countBytes) s.dir g = tableAt (tableWritten s d bytes) s.dir g :=
  tableAt_update_of_ne (sstPath_ne_generationsPath _ _) _

theorem tableAt_logEmptied (g : Nat) :
    tableAt (logEmptied s d bytes countBytes) s.dir g = tableAt (tableWritten s d bytes) s.dir g :=
  (tableAt_update_of_ne (sstPath_ne_walPath _ _) _).trans (tableAt_counted g)

/-- The new file has the table, and gives what memory gives. -/
theorem flushedAge_tableWritten (hBytes : encodeTable s.memtable = some bytes) (id : Uuid) :
    flushedAge (tableWritten s d bytes) s.dir id (s.flushedGenerations + 1) =
      currentAge s d id := by
  obtain ⟨table, hDecode, hLookup⟩ := decodeTable_encodeTable hBytes
  have hTable : tableAt (tableWritten s d bytes) s.dir s.flushedGenerations = some table := by
    rw [tableAt, tableWritten, Function.update_self, Option.bind_some, hDecode]
  have hOlder : flushedAge (tableWritten s d bytes) s.dir id s.flushedGenerations =
      flushedAge d s.dir id s.flushedGenerations :=
    flushedAge_congr (fun g hg => tableAt_tableWritten_of_ne (Nat.ne_of_lt hg)) id
  rw [flushedAge, hTable, Option.bind_some, hLookup, hOlder, currentAge]

theorem readable_tableWritten (hBytes : encodeTable s.memtable = some bytes) {n : Nat}
    (h : Readable d s.dir n) : Readable (tableWritten s d bytes) s.dir n := by
  intro g hg
  by_cases hEq : g = s.flushedGenerations
  · obtain ⟨table, hDecode, -⟩ := decodeTable_encodeTable hBytes
    rw [hEq, tableAt, tableWritten, Function.update_self, Option.bind_some, hDecode]
    rfl
  · rw [tableAt_tableWritten_of_ne hEq]
    exact h g hg

theorem readable_succ (hBytes : encodeTable s.memtable = some bytes)
    (h : Readable d s.dir s.flushedGenerations) :
    Readable (tableWritten s d bytes) s.dir (s.flushedGenerations + 1) := by
  intro g hg
  by_cases hEq : g = s.flushedGenerations
  · obtain ⟨table, hDecode, -⟩ := decodeTable_encodeTable hBytes
    rw [hEq, tableAt, tableWritten, Function.update_self, Option.bind_some, hDecode]
    rfl
  · rw [tableAt_tableWritten_of_ne hEq]
    exact h g (by omega)

/-- Writing the table over a file shows no age that is not the current one. -/
theorem or_flushedAge_tableWritten (hBytes : encodeTable s.memtable = some bytes)
    {entries : List WalEntry}
    (hShows : ∀ id, (loggedAge entries id).or (flushedAge d s.dir id count) = ages id)
    (hMemory : MemoryShows s.dir s d ages count) (id : Uuid) :
    (loggedAge entries id).or (flushedAge (tableWritten s d bytes) s.dir id count) = ages id := by
  rcases hMemory.next with hNext | hEmpty
  · rw [flushedAge_congr fun g hg => tableAt_tableWritten_of_ne (by omega)]
    exact hShows id
  · cases hLogged : loggedAge entries id with
    | some age =>
      have hAge := hShows id
      rw [hLogged, Option.some_or] at hAge
      rw [Option.some_or]
      exact hAge
    | none =>
      have hNone := hShows id
      rw [hLogged, Option.none_or, hEmpty] at hNone
      rw [Option.none_or, ← hNone]
      -- no file has the id, and the table does not either
      have hTable : s.memtable.lookup id = none := by
        have hCurrent := hMemory.shows id
        rw [← hNone, currentAge, Option.or_eq_none_iff] at hCurrent
        exact hCurrent.1
      obtain ⟨table, hDecode, hLookup⟩ := decodeTable_encodeTable hBytes
      have hOld := hEmpty id
      clear hShows hMemory hEmpty hNone
      induction count with
      | zero => rfl
      | succ n ih =>
        rw [flushedAge, Option.or_eq_none_iff] at hOld ⊢
        refine ⟨?_, ih hOld.2⟩
        by_cases hEq : n = s.flushedGenerations
        · rw [hEq, tableAt, tableWritten, Function.update_self, Option.bind_some, hDecode,
            Option.bind_some, hLookup, hTable]
        · rw [tableAt_tableWritten_of_ne hEq]
          exact hOld.1

theorem diskShows_tableWritten (hBytes : encodeTable s.memtable = some bytes)
    (hDisk : DiskShows s.dir d ages count)
    (hMemory : MemoryShows s.dir s d ages count) :
    DiskShows s.dir (tableWritten s d bytes) ages count := by
  obtain ⟨entries, hHolds, hShows⟩ := hDisk.shows
  refine ⟨?_, readable_tableWritten hBytes hDisk.readable, entries, ?_,
    or_flushedAge_tableWritten hBytes hShows hMemory⟩
  · unfold Counts tableWritten
    rw [Function.update_of_ne (sstPath_ne_generationsPath _ _).symm]
    exact hDisk.counts
  · rw [tableWritten, Function.update_of_ne (sstPath_ne_walPath _ _).symm]
    exact hHolds

theorem diskShows_counted (hBytes : encodeTable s.memtable = some bytes)
    (hCount : Codec.encode (s.flushedGenerations + 1) = some countBytes)
    (hDisk : DiskShows s.dir d ages count) (hMemory : MemoryShows s.dir s d ages count) :
    DiskShows s.dir (counted s d bytes countBytes) ages (s.flushedGenerations + 1) := by
  obtain ⟨entries, hHolds, hShows⟩ := hDisk.shows
  refine ⟨Or.inr ⟨countBytes, Function.update_self .., Codec.decode_eq_some.mpr hCount⟩,
    fun g hg => ?_, entries, ?_, fun id => ?_⟩
  · rw [tableAt_counted]
    exact readable_succ hBytes hMemory.readable g hg
  · rw [counted, Function.update_of_ne (generationsPath_ne_walPath _).symm, tableWritten,
      Function.update_of_ne (sstPath_ne_walPath _ _).symm]
    exact hHolds
  · rw [flushedAge_congr fun g _ => tableAt_counted g, flushedAge_tableWritten hBytes,
      hMemory.shows id]
    have hAge := hShows id
    cases hLogged : loggedAge entries id with
    | none => rfl
    | some age =>
      rw [hLogged, Option.some_or] at hAge
      rw [Option.some_or]
      exact hAge

theorem diskShows_logEmptied (hBytes : encodeTable s.memtable = some bytes)
    (hCount : Codec.encode (s.flushedGenerations + 1) = some countBytes)
    (hMemory : MemoryShows s.dir s d ages count) :
    DiskShows s.dir (logEmptied s d bytes countBytes) ages (s.flushedGenerations + 1) := by
  refine ⟨Or.inr ⟨countBytes, ?_, Codec.decode_eq_some.mpr hCount⟩, fun g hg => ?_, [], ?_,
    fun id => ?_⟩
  · rw [logEmptied, Function.update_of_ne (generationsPath_ne_walPath _), counted,
      Function.update_self]
  · rw [tableAt_logEmptied]
    exact readable_succ hBytes hMemory.readable g hg
  · rw [logEmptied, Function.update_self]
    exact Holds.empty
  · rw [loggedAge_nil, Option.none_or, flushedAge_congr fun g _ => tableAt_logEmptied g,
      flushedAge_tableWritten hBytes, hMemory.shows id]

/-- The store after it has flushed: an empty table over one more file. -/
theorem memoryShows_logEmptied (hBytes : encodeTable s.memtable = some bytes)
    (hMemory : MemoryShows s.dir s d ages count) :
    MemoryShows s.dir { s with flushedGenerations := s.flushedGenerations + 1, memtable := ∅ }
      (logEmptied s d bytes countBytes) ages (s.flushedGenerations + 1) := by
  refine ⟨rfl, fun g hg => ?_, fun id => ?_, Or.inl le_rfl⟩
  · rw [tableAt_logEmptied]
    exact readable_succ hBytes hMemory.readable g hg
  · rw [currentAge, AList.lookup_empty, Option.none_or,
      flushedAge_congr fun g _ => tableAt_logEmptied g,
      flushedAge_tableWritten hBytes, hMemory.shows id]

/-- The store after a flush that could not count its file. -/
theorem memoryShows_tableWritten (hBytes : encodeTable s.memtable = some bytes)
    (hMemory : MemoryShows s.dir s d ages count) (hLe : count ≤ s.flushedGenerations) :
    MemoryShows s.dir { s with flushedGenerations := s.flushedGenerations + 1 }
      (tableWritten s d bytes) ages count := by
  refine ⟨rfl, readable_succ hBytes hMemory.readable, fun id => ?_,
    Or.inl (by show count ≤ s.flushedGenerations + 1; omega)⟩
  have hFlushed := flushedAge_tableWritten (d := d) hBytes id
  change (s.memtable.lookup id).or
    (flushedAge (tableWritten s d bytes) s.dir id (s.flushedGenerations + 1)) = _
  rw [hFlushed, ← hMemory.shows id, currentAge]
  cases s.memtable.lookup id <;> rfl

end Flushing

/-! ## One flush -/

/-- What storage does to a flush that a crash stops after so many of its file writes, if it does. -/
def cutAfter (stop : Option Nat) : List Outcome :=
  stop.elim [] fun writes => List.replicate (2 * writes) .done ++ [.crashed 0]

section OneFlush

variable {S : Type} {t : S} {d : Disk} {path : Path} {bytes : Bytes} {rest : List Outcome}

theorem writeFile_done :
    Method.writeFile (S := S) DurabilityError.io path bytes ⟨t, d, .done :: .done :: rest⟩ =
    .ok () ⟨t, Function.update d path (some bytes), rest⟩ := by
  change EStateM.Result.ok ()
    (⟨t, Disk.extend (Function.update d path (some [])) path bytes, rest⟩ : Proc S) = _
  rw [Disk.extend, Function.update_self, Function.update_idem, Option.map_some, List.nil_append]

theorem writeFile_nil : Method.writeFile (S := S) DurabilityError.io path bytes ⟨t, d, []⟩ =
    .ok () ⟨t, Function.update d path (some bytes), []⟩ := by
  change EStateM.Result.ok ()
    (⟨t, Disk.extend (Function.update d path (some [])) path bytes, []⟩ : Proc S) = _
  rw [Disk.extend, Function.update_self, Function.update_idem, Option.map_some, List.nil_append]

end OneFlush

theorem cutAfter_of_ge (k : Nat) : cutAfter (some (k + 3)) =
    .done :: .done :: .done :: .done :: .done ::
      (List.replicate (2 * k + 1) .done ++ [.crashed 0]) := by
  rw [cutAfter, Option.elim_some, show 2 * (k + 3) = (2 * k + 1) + 5 by omega]
  rfl

/-- How a flush can end: which of its files it wrote, and whether there still is a store. -/
inductive Flushed (s : LsmStore) (d : Disk) : LogVariant.Process LsmStore → Prop
  | refused : Flushed s d (some s, d)
  | notBegun : Flushed s d (none, d)
  | written {bytes} (h : encodeTable s.memtable = some bytes) :
      Flushed s d (none, tableWritten s d bytes)
  | uncounted {bytes} (h : encodeTable s.memtable = some bytes)
      (hNot : Codec.encode (s.flushedGenerations + 1) = none) :
      Flushed s d (some { s with flushedGenerations := s.flushedGenerations + 1 },
        tableWritten s d bytes)
  | counted {bytes countBytes} (h : encodeTable s.memtable = some bytes)
      (hCount : Codec.encode (s.flushedGenerations + 1) = some countBytes) :
      Flushed s d (none, LsmStore.counted s d bytes countBytes)
  | done {bytes countBytes} (h : encodeTable s.memtable = some bytes)
      (hCount : Codec.encode (s.flushedGenerations + 1) = some countBytes) :
      Flushed s d (some { s with flushedGenerations := s.flushedGenerations + 1, memtable := ∅ },
        logEmptied s d bytes countBytes)

theorem flushed_flush (s : LsmStore) (d : Disk) (stop : Option Nat) :
    Flushed s d
      (LogVariant.answer flush (fun _ => .done) .failed (cutAfter stop) (some s, d)).2 := by
  have hNone : cutAfter none = [] := rfl
  have hZero : cutAfter (some 0) = [.crashed 0] := rfl
  have hOne : cutAfter (some 1) = [.done, .done, .crashed 0] := rfl
  have hTwo : cutAfter (some 2) = [.done, .done, .done, .done, .crashed 0] := rfl
  cases hBytes : encodeTable s.memtable with
  | none =>
    have hEnd : ∀ plan, flush ⟨s, d, plan⟩ = .error (.error .serde) ⟨s, d, plan⟩ := fun plan => by
      simp only [flush, bind, EStateM.bind, Method.self, hBytes]
      rfl
    rw [LogVariant.answer, hEnd]
    exact .refused
  | some bytes =>
    cases hCount : Codec.encode (s.flushedGenerations + 1) with
    | none =>
      rcases stop with _ | _ | _ | _ | k <;>
        simp only [LogVariant.answer, flush, bind, EStateM.bind, Method.self, Method.modifySelf,
          hBytes, hCount, hNone, hZero, hOne, hTwo, cutAfter_of_ge, writeFile_nil, writeFile_done]
      exacts [.uncounted hBytes hCount, .notBegun, .uncounted hBytes hCount,
        .uncounted hBytes hCount, .uncounted hBytes hCount]
    | some count =>
      rcases stop with _ | _ | _ | _ | k <;>
        simp only [LogVariant.answer, flush, bind, EStateM.bind, Method.self, Method.modifySelf,
          hBytes, hCount, hNone, hZero, hOne, hTwo, cutAfter_of_ge, writeFile_nil, writeFile_done]
      exacts [.done hBytes hCount, .notBegun, .written hBytes, .counted hBytes hCount,
        .done hBytes hCount]

/-- A flush that nothing stops leaves a store. -/
theorem isSome_flush (s : LsmStore) (d : Disk) :
    (LogVariant.answer flush (fun _ => .done) .failed [] (some s, d)).2.1.isSome = true := by
  cases hBytes : encodeTable s.memtable with
  | none =>
    simp only [LogVariant.answer, flush, bind, EStateM.bind, Method.self, hBytes]
    rfl
  | some bytes =>
    cases hCount : Codec.encode (s.flushedGenerations + 1) <;>
    · simp only [LogVariant.answer, flush, bind, EStateM.bind, Method.self, Method.modifySelf,
        hBytes, hCount, writeFile_nil]
      rfl

/-! ## Steps -/

/-- What was written last for an id. -/
def writtenAge (accepted : List (Uuid × UInt32)) (id : Uuid) : Option UInt32 :=
  accepted.foldl (fun age a => if a.1 = id then some a.2 else age) none

theorem lastAge_eq_writtenAge (base : UInt32) (accepted : List (Uuid × UInt32)) (id : Uuid) :
    lastAge base accepted id = (writtenAge accepted id).getD base := by
  have hFrom : ∀ age : Option UInt32, lastAge (age.getD base) accepted id =
      (accepted.foldl (fun age a => if a.1 = id then some a.2 else age) age).getD base := by
    induction accepted with
    | nil => exact fun _ => rfl
    | cons a accepted ih =>
      intro age
      rw [lastAge_cons, List.foldl_cons, ← ih]
      split <;> rfl
  exact hFrom none

theorem writtenAge_snoc (accepted : List (Uuid × UInt32)) (id : Uuid) (age : UInt32)
    (other : Uuid) :
    writtenAge (accepted ++ [(id, age)]) other = if id = other then some age
      else writtenAge accepted other := by
  rw [writtenAge, List.foldl_append, ← writtenAge]
  rfl

section Steps

variable {dir : Path} {process : LogVariant.Process LsmStore} {ages : Uuid → Option UInt32}

/-- Opening shows what the directory shows. -/
theorem Shown.reopen (h : Shown dir process ages) (records : List DogRecord)
    (edges : List (Uuid × Uuid)) :
    ∃ s, (variant.step dir process (.reopen records edges)).2 = (some s, process.2) ∧
      s.records = DogRecord.byId records ∧ Shown dir (some s, process.2) ages := by
  obtain ⟨count, hDisk, -⟩ := h
  obtain ⟨entries, hHolds, hShows⟩ := hDisk.shows
  have hRule : Method.wp (openStore records edges dir) () process.2
      (fun s _ d' => d' = process.2 ∧ s.records = DogRecord.byId records ∧
        MemoryShows dir s process.2 ages count)
      (LogVariant.refusing fun _ _ _ => False) fun _ _ _ => True := wp_openStore hDisk.counts hHolds
    ⟨rfl, rfl, rfl, hDisk.readable, hShows, Or.inl le_rfl⟩ fun _ => trivial
  rcases LogVariant.built_cases hRule with ⟨s, d, hBuilt, rfl, hRecords, hMemory⟩ |
    ⟨_, _, _, hFalse⟩
  · exact ⟨s, congrArg Prod.snd hBuilt, hRecords, count, hDisk,
      fun _ hEq => Option.some.inj hEq ▸ hMemory⟩
  · exact hFalse.elim

/-- An update is shown, in memory and on disk, or it is of an unknown id and changes nothing. -/
theorem Shown.updateAge {s : LsmStore} {d : Disk} (h : Shown dir (some s, d) ages) (id : Uuid)
    (age : UInt32) :
    (id ∈ s.records ∧ (variant.step dir (some s, d) (.updateAge id age [])).1 = .done ∧
      ∃ s' d', (variant.step dir (some s, d) (.updateAge id age [])).2 = (some s', d') ∧
        s'.records = s.records ∧
        Shown dir (some s', d') fun other => if id = other then some age else ages other) ∨
    (id ∉ s.records ∧ (variant.step dir (some s, d) (.updateAge id age [])).1 =
      .refused (.notFound id) ∧
      (variant.step dir (some s, d) (.updateAge id age [])).2 = (some s, d)) := by
  obtain ⟨count, hDisk, hLive⟩ := h
  obtain ⟨entries, hHolds, hShows⟩ := hDisk.shows
  have hMemory := hLive s rfl
  obtain rfl := hMemory.place
  have hTables : ∀ g, tableAt (d.extend (walPath s.dir) (appended ⟨s.nextSeq, id, age⟩)) s.dir g =
      tableAt d s.dir g :=
    fun g => tableAt_update_of_ne (sstPath_ne_walPath _ _) _
  have hRule := wp_updateAge (s := s) (d := d)
    (Q := fun _ s' d' => id ∈ s.records ∧ s'.records = s.records ∧
      Shown s.dir (some s', d') fun other => if id = other then some age else ages other)
    (A := LogVariant.refusing fun e s' d' => id ∉ s.records ∧ e = .notFound id ∧ s' = s ∧ d' = d)
    (C := fun _ _ _ => True)
    (fun hMem => by
      refine ⟨hMem, rfl, count,
        ⟨?_, fun g hg => ?_, entries ++ [⟨s.nextSeq, id, age⟩], ?_, fun other => ?_⟩, ?_⟩
      · unfold Counts
        dsimp only
        rw [Disk.extend_of_ne (generationsPath_ne_walPath _)]
        exact hDisk.counts
      · rw [hTables]
        exact hDisk.readable g hg
      · dsimp only
        rw [Disk.extend_self]
        exact hHolds.snoc _
      · rw [loggedAge_snoc, flushedAge_congr fun g _ => hTables g]
        split
        · rfl
        · exact hShows other
      · rintro _ ⟨⟩
        refine ⟨rfl, fun g hg => ?_, fun other => ?_, hMemory.next.imp_right fun hNone other => ?_⟩
        · rw [hTables]
          exact hMemory.readable g hg
        · have hOld := hMemory.shows other
          rw [currentAge] at hOld ⊢
          rw [flushedAge_congr fun g _ => hTables g]
          split
          · next hEq => rw [← hEq, AList.lookup_insert, Option.some_or]
          · next hNe =>
            rw [AList.lookup_insert_ne (Ne.symm hNe)]
            exact hOld
        · rw [flushedAge_congr fun g _ => hTables g]
          exact hNone other)
    (fun hNot => ⟨hNot, rfl, rfl, rfl⟩) fun _ _ => trivial
  rcases LogVariant.answer_nil (fun _ => .done) .refused hRule with
    ⟨_, s', d', hAnswer, hMem, hRecords, hShown⟩ | ⟨_, s', d', hAnswer, hNot, rfl, rfl, rfl⟩
  · exact Or.inl ⟨hMem, congrArg Prod.fst hAnswer, s', d', congrArg Prod.snd hAnswer,
      hRecords, hShown⟩
  · exact Or.inr ⟨hNot, congrArg Prod.fst hAnswer, congrArg Prod.snd hAnswer⟩

/-- A flush, cut or not, changes nothing that is shown. -/
theorem Shown.flush {s : LsmStore} {d : Disk} (h : Shown dir (some s, d) ages) (stop : Option Nat) :
    Shown dir (variant.step dir (some s, d) (.checkpoint (cutAfter stop))).2 ages ∧
      ∀ s', (variant.step dir (some s, d) (.checkpoint (cutAfter stop))).2.1 = some s' →
        s'.records = s.records := by
  have hFlushed : Flushed s d (variant.step dir (some s, d) (.checkpoint (cutAfter stop))).2 :=
    flushed_flush s d stop
  generalize (variant.step dir (some s, d) (.checkpoint (cutAfter stop))).2 = after at hFlushed ⊢
  obtain ⟨count, hDisk, hLive⟩ := h
  have hMemory := hLive s rfl
  obtain rfl := hMemory.place
  cases hFlushed with
  | refused => exact ⟨⟨count, hDisk, hLive⟩, fun _ hEq => Option.some.inj hEq ▸ rfl⟩
  | notBegun => exact ⟨⟨count, hDisk, fun _ hEq => absurd hEq (by simp)⟩,
      fun _ hEq => absurd hEq (by simp)⟩
  | written hBytes =>
    exact ⟨⟨count, diskShows_tableWritten hBytes hDisk hMemory, fun _ hEq => absurd hEq (by simp)⟩,
      fun _ hEq => absurd hEq (by simp)⟩
  | uncounted hBytes hNot =>
    have hLe : count ≤ s.flushedGenerations := by
      by_contra hMore
      have hSmall := hDisk.counts.lt
      have hEncode : Codec.encode (s.flushedGenerations + 1) =
          some (Bytes.leBytes 8 (s.flushedGenerations + 1)) :=
        if_pos (by omega)
      rw [hEncode] at hNot
      cases hNot
    refine ⟨⟨count, diskShows_tableWritten hBytes hDisk hMemory, fun _ hEq => ?_⟩,
      fun _ hEq => Option.some.inj hEq ▸ rfl⟩
    exact Option.some.inj hEq ▸ memoryShows_tableWritten hBytes hMemory hLe
  | counted hBytes hCount =>
    exact ⟨⟨_, diskShows_counted hBytes hCount hDisk hMemory, fun _ hEq => absurd hEq (by simp)⟩,
      fun _ hEq => absurd hEq (by simp)⟩
  | done hBytes hCount =>
    exact ⟨⟨_, diskShows_logEmptied hBytes hCount hMemory, fun _ hEq =>
      Option.some.inj hEq ▸ memoryShows_logEmptied hBytes hMemory⟩,
        fun _ hEq => Option.some.inj hEq ▸ rfl⟩

end Steps

/-! ## Histories -/

/-- What happens to a store whose flushes may be cut. -/
inductive FlushEvent where
  | updateAge (id : Uuid) (age : UInt32)
  | flush (stop : Option Nat)
  | reopen (records : List DogRecord) (edges : List (Uuid × Uuid))

/-- A process, with the records its store was given and the updates that were accepted, the last of
them last. -/
structure Ledger where
  process : LogVariant.Process LsmStore
  records : List DogRecord
  accepted : List (Uuid × UInt32)

namespace Ledger

/-- A store that is created in an empty directory. -/
def created (records : List DogRecord) (edges : List (Uuid × Uuid)) (dir : Path) : Ledger :=
  ⟨(LogVariant.built (variant.create records edges dir) fun _ => none).2, records, []⟩

/-- A process that is gone is only opened again. -/
def step (dir : Path) (st : Ledger) : FlushEvent → Option Ledger
  | .updateAge id age =>
    if st.process.1.isSome then
      let r := variant.step dir st.process (.updateAge id age [])
      some ⟨r.2, st.records, if r.1 = .done then st.accepted ++ [(id, age)] else st.accepted⟩
    else none
  | .flush stop =>
    if st.process.1.isSome then
      some { st with process := (variant.step dir st.process (.checkpoint (cutAfter stop))).2 }
    else none
  | .reopen records edges =>
    some { st with
      process := (variant.step dir st.process (.reopen records edges)).2, records := records }

/-- The newest of what is in memory and in the files is what was accepted last, and `get` and
`scanAges` read it. -/
structure ReadsLast (dir : Path) (st : Ledger) (s : LsmStore) : Prop where
  found : ∀ id, (s.memtable.lookup id).or (flushedAge st.process.2 dir id s.flushedGenerations) =
    writtenAge st.accepted id
  get : ∀ id, (variant.step dir st.process (.get id)).1 =
    .record (((DogRecord.byId st.records).lookup id).map (·.aged st.accepted id))
  scanAges : ∃ ages, variant.scanAges ⟨s, st.process.2, []⟩ = .ok ages ⟨s, st.process.2, []⟩ ∧
    ages.Perm ((MapPairs.pairs (DogRecord.byId st.records)).map fun p =>
      lastAge p.2.age st.accepted p.1)

/-- What every state of a history keeps. -/
structure Keeps (dir : Path) (st : Ledger) : Prop where
  shown : Shown dir st.process (writtenAge st.accepted)
  records : ∀ s, st.process.1 = some s → s.records = DogRecord.byId st.records

section Keeping

variable {dir : Path} {st st' : Ledger}

theorem keeps_created (records : List DogRecord) (edges : List (Uuid × Uuid)) (dir : Path) :
    Keeps dir (created records edges dir) := by
  have hGenerations := generationsPath_ne_walPath dir
  have hRule := wp_create (t := ()) (d := fun _ => none)
    (A := LogVariant.refusing fun _ _ _ => False) (C := fun _ _ _ => True)
    (Q := fun s _ d => d = Function.update (fun _ => none) (walPath dir) (some []) ∧
      s = ⟨DogRecord.byId records, DogRecord.byBreed records, DogRecord.adjacency edges,
        ∅, 0, dir, 0⟩)
    ⟨rfl, rfl⟩ fun _ => trivial
  rcases LogVariant.built_cases hRule with ⟨s, d, hBuilt, rfl, rfl⟩ | ⟨_, _, _, hFalse⟩
  · have hNone : ∀ g < 0,
        (tableAt (Function.update (fun _ => none) (walPath dir) (some [])) dir g).isSome := by
      intro g hg
      omega
    have hProcess : (created records edges dir).process = _ := congrArg Prod.snd hBuilt
    refine ⟨⟨0, ?_, fun s hs => ?_⟩, fun s hs => ?_⟩
    · rw [hProcess]
      dsimp only
      refine ⟨Or.inl ⟨Function.update_of_ne hGenerations .., rfl⟩, hNone, [], ?_, fun id => ?_⟩
      · rw [Function.update_self]
        exact Holds.empty
      · rw [loggedAge_nil]
        rfl
    · rw [hProcess] at hs ⊢
      cases hs
      refine ⟨rfl, hNone, fun id => ?_, Or.inl le_rfl⟩
      rw [currentAge, AList.lookup_empty]
      rfl
    · rw [hProcess] at hs
      cases hs
      rfl
  · exact hFalse.elim

/-- Every step keeps it. -/
theorem Keeps.step (h : Keeps dir st) {event : FlushEvent}
    (hStep : Ledger.step dir st event = some st') :
    Keeps dir st' := by
  obtain ⟨⟨process, d⟩, records, accepted⟩ := st
  cases event with
  | updateAge id age =>
    rw [Ledger.step] at hStep
    split at hStep
    · next hSome =>
      obtain ⟨s, rfl⟩ := Option.isSome_iff_exists.mp hSome
      cases hStep
      rcases h.shown.updateAge id age with ⟨-, hDone, s', d', hAfter, hRecords, hShown⟩ |
        ⟨-, hRefused, hAfter⟩
      · rw [if_pos hDone, hAfter]
        refine ⟨?_, fun _ hEq => Option.some.inj hEq ▸ hRecords.trans (h.records s rfl)⟩
        have hAges : writtenAge (accepted ++ [(id, age)]) = fun other =>
            if id = other then some age
              else writtenAge accepted other := funext (writtenAge_snoc accepted id age)
        dsimp only
        rw [hAges]
        exact hShown
      · rw [hRefused, if_neg (by simp), hAfter]
        exact h
    · cases hStep
  | flush stop =>
    rw [Ledger.step] at hStep
    split at hStep
    · next hSome =>
      obtain ⟨s, rfl⟩ := Option.isSome_iff_exists.mp hSome
      cases hStep
      obtain ⟨hShown, hRecords⟩ := h.shown.flush stop
      exact ⟨hShown, fun s' hs' => (hRecords s' hs').trans (h.records s rfl)⟩
    · cases hStep
  | reopen records' edges =>
    cases hStep
    obtain ⟨s, hAfter, hRecords, hShown⟩ := h.shown.reopen records' edges
    dsimp only
    rw [hAfter]
    exact ⟨hShown, fun _ hEq => Option.some.inj hEq ▸ hRecords⟩

theorem Keeps.readsLast (h : Keeps dir st) {s : LsmStore} (hLive : st.process.1 = some s) :
    ReadsLast dir st s := by
  obtain ⟨count, -, hMemory⟩ := h.shown
  have hShows := hMemory s hLive
  have hRecords := h.records s hLive
  obtain rfl := hShows.place
  have hAge : ∀ id (r : DogRecord), (currentAge s st.process.2 id).getD r.age =
      lastAge r.age st.accepted id := by
    intro id r
    rw [lastAge_eq_writtenAge, hShows.shows]
  have hProcess : st.process = (some s, st.process.2) := by rw [← hLive]
  refine ⟨hShows.shows, fun id => ?_, _, scanAges_nil hShows.readable, ?_⟩
  · rw [hProcess]
    change (LogVariant.answer (LsmStore.get id) .record .failed [] (some s, st.process.2)).1 = _
    rw [LogVariant.answer, get_nil hShows.readable, hRecords]
    simp only [hAge, DogRecord.aged]
  · rw [hRecords]
    simp only [hAge]
    rw [MapPairs.filterMap_keys]

end Keeping

end Ledger

/-- **The last write wins.** In every history of updates, flushes and openings of a store that is
created in an empty directory, whichever of the flushes are cut between two of their file writes,
the newest of what is in memory and in the files is the last age that was accepted, and it is what
`get` and `scanAges` read; and a directory that is opened has a store. -/
theorem last_write_wins {records : List DogRecord} {edges : List (Uuid × Uuid)} {dir : Path}
    {st : Ledger} (h : Machine.Reachable (Ledger.step dir) (Ledger.created records edges dir) st) :
    (∀ s, st.process.1 = some s → st.ReadsLast dir s) ∧
      ∀ records edges, ∃ st', st.step dir (.reopen records edges) = some st' ∧
        st'.process.1.isSome = true := by
  have hKeeps := h.invariant (Ledger.keeps_created records edges dir) fun _ _ _ _ hKeeps _ hStep =>
    hKeeps.step hStep
  refine ⟨fun s hLive => hKeeps.readsLast hLive, fun records edges => ⟨_, rfl, ?_⟩⟩
  obtain ⟨s, hAfter, -⟩ := hKeeps.shown.reopen records edges
  rw [hAfter]
  rfl

/-- A flush is cut after its file was counted, so that the file and the log both have the age, and
another age is written after opening again. -/
theorem last_write_wins_sample :
    let dog : DogRecord := ⟨Uuid.ofNat 1, "poodle", 3⟩
    ∃ st, Machine.run (Ledger.step "dogs".toList) (Ledger.created [dog] [] "dogs".toList)
        [.updateAge dog.id 7, .flush (some 2), .reopen [dog] [], .updateAge dog.id 9, .flush none] =
          some st ∧
      ∀ s, st.process.1 = some s → st.ReadsLast "dogs".toList s := by
  intro dog
  have hSome : (Machine.run (Ledger.step "dogs".toList) (Ledger.created [dog] [] "dogs".toList)
      [.updateAge dog.id 7, .flush (some 2), .reopen [dog] [], .updateAge dog.id 9,
        .flush none]).isSome = true := by
    decide +kernel
  obtain ⟨st, hRun⟩ := Option.isSome_iff_exists.mp hSome
  exact ⟨st, hRun, (last_write_wins (Machine.runs_of_run hRun)).1⟩

end LsmStore

end MultimodalDb
