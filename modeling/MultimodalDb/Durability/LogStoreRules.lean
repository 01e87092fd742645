import MultimodalDb.Durability.LogStores
import MultimodalDb.Lib.Undisturbed

/-!
# Rules for the variants with a state in memory

What opening, updating and checkpointing do to the two write-ahead logs and to the hybrid, told from
the state their base gives and the entries of their log. A log is replayed as its ages written in
order, if every id in it is known, and is refused if one is not (`wp_replay`).
-/

namespace MultimodalDb

namespace Disk

theorem update_getD_self {d : Disk} {path : Path} {bytes : Bytes} (h : d path = some bytes) :
    Function.update d path (some ((d path).getD [])) = d := by
  rw [h, Option.getD_some, ← h, Function.update_eq_self]

end Disk

/-- The ages a log writes, in order. -/
def Wal.ages (entries : List WalEntry) : List (Uuid × UInt32) := entries.map fun e => (e.id, e.age)

namespace CanonicalCachedState

variable {S : Type} {t : S} {d : Disk} {A C : Stop DurabilityError → S → Disk → Prop}
  {s : CanonicalCachedState}

/-- An age for an unknown id changes nothing. -/
theorem withAge_of_notMem {id : Uuid} (h : id ∉ s.records) (age : UInt32) :
    s.withAge id age = s := by
  rw [withAge, AList.lookup_eq_none.mpr h]

theorem wp_replayEntry {entry : WalEntry} {Q : CanonicalCachedState → S → Disk → Prop}
    (h : Placed s) (hKnown : entry.id ∈ s.records → Q (s.withAge entry.id entry.age) t d)
    (hUnknown : entry.id ∉ s.records → A (.error (.store (.notFound entry.id))) t d) :
    Method.wp (s.replayEntry entry) t d Q A C :=
  Method.wp_bind (Method.wp_runOn (Method.wp_mapError (wp_updateAge h
    (fun hMem => Method.wp_pure (hKnown hMem)) hUnknown)))

theorem wp_writeTo {path : Path} {Q : Unit → S → Disk → Prop}
    (hOk : ∀ bytes, encodeState s = some bytes → Q () t (Function.update d path (some bytes)))
    (hRefused : encodeState s = none → A (.error .serde) t d) (hStop : ∀ e t d, C e t d) :
    Method.wp (s.writeTo path) t d Q A C := by
  unfold writeTo
  cases hBytes : encodeState s with
  | none => exact Method.wp_fail (hRefused hBytes)
  | some bytes =>
    exact Method.wp_writeFile (hOk bytes hBytes) (fun _ => hStop ..) fun _ _ => hStop ..

end CanonicalCachedState

open CanonicalCachedState Wal

namespace WalStore

theorem basePathIn_ne_walPath (dir : Path) : basePathIn dir ≠ MultimodalDb.walPath dir :=
  append_suffix_ne_append (by decide) dir

section Opening

variable {S : Type} {t : S} {d : Disk} {A C : Stop DurabilityError → S → Disk → Prop}
variable {records : List DogRecord} {edges : List (Uuid × Uuid)} {dir : Path}
  {start : CanonicalCachedState}

/-- The state that opening starts from. -/
def RestoresTo (records : List DogRecord) (edges : List (Uuid × Uuid)) (dir : Path)
    (start : CanonicalCachedState) (d : Disk) : Prop :=
  (d (basePathIn dir) = none ∧ start = .new records edges) ∨
    ∃ bytes, d (basePathIn dir) = some bytes ∧ decodeState bytes = some start

theorem wp_restore {Q : CanonicalCachedState → S → Disk → Prop}
    (h : RestoresTo records edges dir start d)
    (hOk : Q start t d) (hStop : ∀ e, C e t d) :
    Method.wp (restore records edges (basePathIn dir)) t d Q A C := by
  refine Method.wp_bind (Method.wp_fileExists ?_)
  rcases h with ⟨hNone, rfl⟩ | ⟨bytes, hBytes, hDecode⟩
  · rw [hNone, Option.isSome_none, if_neg Bool.false_ne_true]
    exact Method.wp_pure hOk
  · rw [hBytes, Option.isSome_some, if_pos rfl]
    refine Method.wp_bind (Method.wp_readFile (fun bs hFile => ?_) (fun hMissing => ?_) hStop)
    · rw [hBytes, Option.some.injEq] at hFile
      rw [← hFile, hDecode]
      exact Method.wp_pure hOk
    · rw [hBytes] at hMissing
      cases hMissing

/-- The number behind a log. -/
def nextAfter (next : UInt64) (entries : List WalEntry) : UInt64 :=
  entries.foldl (fun _ e => e.seq + 1) next

/-- A log of known ids is replayed, and any other is refused. -/
theorem wp_replay {entries : List WalEntry} {acc : CanonicalCachedState × UInt64}
    {Q : CanonicalCachedState × UInt64 → S → Disk → Prop} (h : Placed acc.1)
    (hKnown : (∀ e ∈ entries, e.id ∈ acc.1.records) →
      Q (acc.1.withAges (ages entries), nextAfter acc.2 entries) t d)
    (hUnknown : (∃ e ∈ entries, e.id ∉ acc.1.records) →
      ∀ id, A (.error (.store (.notFound id))) t d) :
    Method.wp (replay acc entries) t d Q A C := by
  induction entries generalizing acc with
  | nil => exact Method.wp_pure (hKnown (by simp))
  | cons entry entries ih =>
    refine Method.wp_bind (wp_replayEntry h (fun hMem => ?_) fun hNot =>
      hUnknown ⟨entry, by simp, hNot⟩ _)
    refine ih (h.withAge ..) (fun hRest => hKnown ?_) fun ⟨e, he, hNot⟩ =>
      hUnknown ⟨e, by simp [he], ?_⟩
    · rw [List.forall_mem_cons]
      exact ⟨hMem, fun e he => (mem_records_withAge ..).mp (hRest e he)⟩
    · rwa [mem_records_withAge] at hNot

theorem wp_openStore {entries : List WalEntry} {tail : Bytes} {Q : WalStore → S → Disk → Prop}
    (hBase : RestoresTo records edges dir start d) (hPlaced : Placed start)
    (hLog : Holds entries tail (d (MultimodalDb.walPath dir)))
    (hKnown : (∀ e ∈ entries, e.id ∈ start.records) →
      Q ⟨start.withAges (ages entries), basePathIn dir, MultimodalDb.walPath dir,
        nextAfter 0 entries⟩ t d)
    (hUnknown : (∃ e ∈ entries, e.id ∉ start.records) →
      ∀ id, A (.error (.store (.notFound id))) t d)
    (hStop : ∀ e, C e t d) : Method.wp (openStore records edges dir) t d Q A C := by
  refine Method.wp_bind (Method.wp_createDirAll ?_ hStop)
  refine Method.wp_bind (wp_restore hBase ?_ hStop)
  refine Method.wp_bind (wp_readWalEntries hLog ?_ hStop)
  refine Method.wp_bind (wp_replay hPlaced (fun hAll => ?_) hUnknown)
  refine Method.wp_bind (Method.wp_openOrCreate ?_ hStop)
  rw [Disk.update_getD_self hLog.2]
  exact Method.wp_pure (hKnown hAll)

theorem wp_create {Q : WalStore → S → Disk → Prop}
    (hOk : Q ⟨.new records edges, basePathIn dir, MultimodalDb.walPath dir, 0⟩ t
      (Function.update d (MultimodalDb.walPath dir) (some []))) (hStop : ∀ e, C e t d) :
    Method.wp (create records edges dir) t d Q A C :=
  Method.wp_bind (Method.wp_createDirAll
    (Method.wp_bind (Method.wp_createFile (Method.wp_pure hOk) hStop)) hStop)

end Opening

section Calls

variable {s : WalStore} {d : Disk}

theorem wp_updateAge {fsync : Bool} {id : Uuid} {age : UInt32}
    {A C : Stop StoreError → WalStore → Disk → Prop}
    {Q : Unit → WalStore → Disk → Prop} (h : Placed s.state)
    (hKnown : id ∈ s.state.records →
      Q () { s with state := s.state.withAge id age, nextSeq := s.nextSeq + 1 }
      (d.extend s.walPath (appended ⟨s.nextSeq, id, age⟩)))
    (hUnknown : id ∉ s.state.records → A (.error (.notFound id)) { s with nextSeq := s.nextSeq + 1 }
      (d.extend s.walPath (appended ⟨s.nextSeq, id, age⟩)))
    (hStop : ∀ n e, C e s (d.extend s.walPath ((appended ⟨s.nextSeq, id, age⟩).take n))) :
    Method.wp (updateAge fsync id age) s d Q A C := by
  have hMade : ∀ d', d' = d.extend s.walPath (appended ⟨s.nextSeq, id, age⟩) →
      Method.wp (do
        Method.modifySelf fun s : WalStore => { s with nextSeq := s.nextSeq + 1 }
        Method.onPart (·.state) (fun state s => { s with state := state })
          (CanonicalCachedState.updateAge id age))
        s d' Q A C := by
    rintro d' rfl
    exact Method.wp_bind (Method.wp_modifySelf (Method.wp_onPart
      (CanonicalCachedState.wp_updateAge h (fun hMem => hKnown hMem) fun hNot => hUnknown hNot)))
  have hWhole : ∀ e, C e s (d.extend s.walPath (appended ⟨s.nextSeq, id, age⟩)) := fun e => by
    have hAll := hStop (appended ⟨s.nextSeq, id, age⟩).length e
    rwa [List.take_length] at hAll
  refine Method.wp_bind (Method.wp_self ?_)
  refine Method.wp_bind (Method.wp_mapError (wp_appendWalEntry ?_ fun n =>
    Method.onMapped_of_forall (hStop n)))
  cases fsync with
  | false => exact hMade _ rfl
  | true => exact Method.wp_bind (Method.wp_mapError
      (Method.wp_sync (hMade _ rfl) (Method.onMapped_of_forall hWhole)))

theorem wp_checkpoint {A C : Stop DurabilityError → WalStore → Disk → Prop}
    {Q : Unit → WalStore → Disk → Prop} (hOk : ∀ bytes, encodeState s.state = some bytes →
      Q () s (Function.update (Function.update d s.basePath (some bytes)) s.walPath (some [])))
    (hRefused : encodeState s.state = none → A (.error .serde) s d) (hStop : ∀ e s d, C e s d) :
    Method.wp checkpoint s d Q A C := by
  refine Method.wp_bind (Method.wp_self ?_)
  refine Method.wp_bind (wp_writeTo (fun bytes hBytes => ?_) hRefused hStop)
  exact Method.wp_createFile (hOk bytes hBytes) fun _ => hStop ..

end Calls

end WalStore

namespace HybridStore

theorem snapshotPathIn_ne_walPath (dir : Path) : snapshotPathIn dir ≠ walPath dir :=
  append_suffix_ne_append (by decide) dir

section Opening

variable {S : Type} {t : S} {d : Disk} {A C : Stop DurabilityError → S → Disk → Prop}
variable {records : List DogRecord} {edges : List (Uuid × Uuid)} {dir : Path}
  {snapshot : HybridSnapshot}

/-- The snapshot that opening starts from. -/
def RestoresTo (records : List DogRecord) (edges : List (Uuid × Uuid)) (dir : Path)
    (snapshot : HybridSnapshot) (d : Disk) : Prop :=
  (d (snapshotPathIn dir) = none ∧ snapshot = (none, .new records edges)) ∨
    ∃ bytes, d (snapshotPathIn dir) = some bytes ∧ decodeSnapshot bytes = some snapshot

theorem wp_restore {Q : HybridSnapshot → S → Disk → Prop}
    (h : RestoresTo records edges dir snapshot d) (hOk : Q snapshot t d) (hStop : ∀ e, C e t d) :
    Method.wp (restore records edges (snapshotPathIn dir)) t d Q A C := by
  refine Method.wp_bind (Method.wp_fileExists ?_)
  rcases h with ⟨hNone, rfl⟩ | ⟨bytes, hBytes, hDecode⟩
  · rw [hNone, Option.isSome_none, if_neg Bool.false_ne_true]
    exact Method.wp_pure hOk
  · rw [hBytes, Option.isSome_some, if_pos rfl]
    refine Method.wp_bind (Method.wp_readFile (fun bs hFile => ?_) (fun hMissing => ?_) hStop)
    · rw [hBytes, Option.some.injEq] at hFile
      rw [← hFile, hDecode]
      exact Method.wp_pure hOk
    · rw [hBytes] at hMissing
      cases hMissing

/-- The entries behind the cutoff. -/
def live (cutoff : Option UInt64) (entries : List WalEntry) : List WalEntry :=
  entries.filter (afterCutoff cutoff)

/-- The number behind a log. -/
def nextAfter (next : UInt64) (entries : List WalEntry) : UInt64 :=
  entries.foldl (fun n e => max n (e.seq + 1)) next

theorem wp_replay {cutoff : Option UInt64} {entries : List WalEntry}
    {acc : CanonicalCachedState × UInt64}
    {Q : CanonicalCachedState × UInt64 → S → Disk → Prop} (h : Placed acc.1)
    (hKnown : (∀ e ∈ live cutoff entries, e.id ∈ acc.1.records) →
      Q (acc.1.withAges (ages (live cutoff entries)), nextAfter acc.2 entries) t d)
    (hUnknown : (∃ e ∈ live cutoff entries, e.id ∉ acc.1.records) →
      ∀ id, A (.error (.store (.notFound id))) t d) :
    Method.wp (replay cutoff acc entries) t d Q A C := by
  induction entries generalizing acc with
  | nil => exact Method.wp_pure (hKnown (by simp [live]))
  | cons entry entries ih =>
    rw [replay]
    split
    · next hAfter =>
      rw [live, List.filter_cons_of_pos hAfter] at hKnown hUnknown
      refine Method.wp_bind (wp_replayEntry h (fun hMem => ?_) fun hNot =>
        hUnknown ⟨entry, by simp, hNot⟩ _)
      refine ih (h.withAge ..) (fun hRest => hKnown ?_) fun ⟨e, he, hNot⟩ =>
        hUnknown ⟨e, List.mem_cons_of_mem _ he, ?_⟩
      · rw [List.forall_mem_cons]
        exact ⟨hMem, fun e he => (mem_records_withAge ..).mp (hRest e he)⟩
      · rwa [mem_records_withAge] at hNot
    · next hBefore =>
      rw [live, List.filter_cons_of_neg hBefore] at hKnown hUnknown
      exact ih h hKnown hUnknown

theorem wp_openStore {entries : List WalEntry} {tail : Bytes} {Q : HybridStore → S → Disk → Prop}
    (hBase : RestoresTo records edges dir snapshot d) (hPlaced : Placed snapshot.2)
    (hLog : Holds entries tail (d (walPath dir)))
    (hKnown : (∀ e ∈ live snapshot.1 entries, e.id ∈ snapshot.2.records) →
      Q ⟨snapshot.2.withAges (ages (live snapshot.1 entries)), snapshotPathIn dir, walPath dir,
        nextAfter 0 entries⟩ t d)
    (hUnknown : (∃ e ∈ live snapshot.1 entries, e.id ∉ snapshot.2.records) →
      ∀ id, A (.error (.store (.notFound id))) t d)
    (hStop : ∀ e, C e t d) : Method.wp (openStore records edges dir) t d Q A C := by
  refine Method.wp_bind (Method.wp_createDirAll ?_ hStop)
  refine Method.wp_bind (wp_restore hBase ?_ hStop)
  refine Method.wp_bind (wp_readWalEntries hLog ?_ hStop)
  refine Method.wp_bind (wp_replay hPlaced (fun hAll => ?_) hUnknown)
  refine Method.wp_bind (Method.wp_openOrCreate ?_ hStop)
  rw [Disk.update_getD_self hLog.2]
  exact Method.wp_pure (hKnown hAll)

theorem wp_create {Q : HybridStore → S → Disk → Prop}
    (hOk : Q ⟨.new records edges, snapshotPathIn dir, walPath dir, 0⟩ t
      (Function.update d (walPath dir) (some []))) (hStop : ∀ e, C e t d) :
    Method.wp (create records edges dir) t d Q A C :=
  Method.wp_bind (Method.wp_createDirAll
    (Method.wp_bind (Method.wp_createFile (Method.wp_pure hOk) hStop)) hStop)

end Opening

section Calls

variable {s : HybridStore} {d : Disk}

theorem wp_updateAge {id : Uuid} {age : UInt32} {A C : Stop StoreError → HybridStore → Disk → Prop}
    {Q : Unit → HybridStore → Disk → Prop} (h : Placed s.state)
    (hKnown : id ∈ s.state.records →
      Q () { s with state := s.state.withAge id age, nextSeq := s.nextSeq + 1 }
      (d.extend s.walFile (appended ⟨s.nextSeq, id, age⟩)))
    (hUnknown : id ∉ s.state.records → A (.error (.notFound id)) { s with nextSeq := s.nextSeq + 1 }
      (d.extend s.walFile (appended ⟨s.nextSeq, id, age⟩)))
    (hStop : ∀ n e, C e s (d.extend s.walFile ((appended ⟨s.nextSeq, id, age⟩).take n))) :
    Method.wp (updateAge id age) s d Q A C := by
  refine Method.wp_bind (Method.wp_self ?_)
  refine Method.wp_bind (Method.wp_mapError (wp_appendWalEntry ?_ fun n =>
    Method.onMapped_of_forall (hStop n)))
  exact Method.wp_bind (Method.wp_modifySelf (Method.wp_onPart
    (CanonicalCachedState.wp_updateAge h (fun hMem => hKnown hMem) fun hNot => hUnknown hNot)))

/-- The cutoff a snapshot is written with. -/
def cutoffAt (next : UInt64) : Option UInt64 := if next = 0 then none else some (next - 1)

theorem wp_checkpoint {A C : Stop DurabilityError → HybridStore → Disk → Prop}
    {Q : Unit → HybridStore → Disk → Prop}
    (hOk : ∀ bytes, encodeSnapshot (cutoffAt s.nextSeq, s.state) = some bytes →
      Q () s (Function.update d s.snapshotPath (some bytes)))
    (hRefused : A (.error .serde) s d) (hStop : ∀ e s d, C e s d) :
    Method.wp checkpoint s d Q A C := by
  refine Method.wp_bind (Method.wp_self ?_)
  split
  · exact Method.wp_fail hRefused
  · next bytes hBytes =>
    exact Method.wp_writeFile (hOk bytes hBytes) (fun _ => hStop ..) fun _ _ => hStop ..

end Calls

end HybridStore

/-! ## What the caller is told -/

namespace LogVariant

variable {S ε α : Type} {m : Method S ε α} {s : S} {d : Disk} {value : α → StoreReply}
  {error : ε → StoreReply}
variable {Q : α → S → Disk → Prop} {R : ε → S → Disk → Prop} {C : Stop ε → S → Disk → Prop}

/-- What holds after an error, where a program stops for no other reason of its own. -/
def refusing (R : ε → S → Disk → Prop) : Stop ε → S → Disk → Prop
  | .error e => R e
  | _ => fun _ _ => False

variable (value error) in
theorem answer_cases (h : Method.wp m s d Q (refusing R) C) (plan : List Outcome) :
    (∃ a s' d', answer m value error plan (some s, d) = (value a, some s', d') ∧ Q a s' d') ∨
      (∃ e s' d', answer m value error plan (some s, d) = (error e, some s', d') ∧ R e s' d') ∨
      ∃ stop s' d', plan ≠ [] ∧ C stop s' d' ∧
        ((∃ e, answer m value error plan (some s, d) = (error e, some s', d')) ∨
          answer m value error plan (some s, d) = (.silence, none, d')) := by
  have hm := h plan
  cases hRun : m ⟨s, d, plan⟩ with
  | ok a p =>
    rw [hRun] at hm
    exact Or.inl ⟨a, p.self, p.disk, by simp only [answer, hRun], hm.1⟩
  | error e p =>
    rw [hRun] at hm
    rcases hm with ⟨hOwn, -⟩ | ⟨hPlan, hC⟩
    · cases e with
      | error e => exact Or.inr (Or.inl ⟨e, p.self, p.disk, by simp only [answer, hRun], hOwn⟩)
      | panic => exact hOwn.elim
      | crash => exact hOwn.elim
    · refine Or.inr (Or.inr ⟨e, p.self, p.disk, hPlan, hC, ?_⟩)
      cases e with
      | error e => exact Or.inl ⟨e, by simp only [answer, hRun]⟩
      | panic => exact Or.inr (by simp only [answer, hRun])
      | crash => exact Or.inr (by simp only [answer, hRun])

variable (value error) in
/-- The same where no call fails. -/
theorem answer_nil (h : Method.wp m s d Q (refusing R) C) :
    (∃ a s' d', answer m value error [] (some s, d) = (value a, some s', d') ∧ Q a s' d') ∨
      ∃ e s' d', answer m value error [] (some s, d) = (error e, some s', d') ∧ R e s' d' := by
  rcases answer_cases value error h [] with hDone | hRefused | ⟨_, _, _, hPlan, _⟩
  · exact Or.inl hDone
  · exact Or.inr hRefused
  · exact absurd rfl hPlan

theorem built_cases {m : Method Unit DurabilityError S} {Q : S → Unit → Disk → Prop}
    {R : DurabilityError → Unit → Disk → Prop} {C : Stop DurabilityError → Unit → Disk → Prop}
    (h : Method.wp m () d Q (refusing R) C) :
    (∃ s d', built m d = (.done, some s, d') ∧ Q s () d') ∨
      ∃ e d', built m d = (.failed e, none, d') ∧ R e () d' := by
  have hm := h []
  unfold built
  cases hRun : m ⟨(), d, []⟩ with
  | ok s p =>
    rw [hRun] at hm
    exact Or.inl ⟨s, _, rfl, hm.1⟩
  | error e p =>
    rw [hRun] at hm
    rcases hm with ⟨hOwn, -⟩ | ⟨hPlan, -⟩
    · cases e with
      | error e => exact Or.inr ⟨e, _, rfl, hOwn⟩
      | panic => exact hOwn.elim
      | crash => exact hOwn.elim
    · exact absurd rfl hPlan

end LogVariant

end MultimodalDb
