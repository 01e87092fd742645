import MultimodalDb.Durability.DogRules
import MultimodalDb.Lib.Steady

/-!
# A torn ages file

The number of records is told from the length of the file, and every offset from the number. A file
that is cut in its columns is read as one of fewer records: their ids are where they were, but their
ages and markers are looked for elsewhere, in bytes of other ids, ages and markers (`Misread`).
Opening then takes an age from such bytes just where the byte that is taken for the marker happens
to be the marker's.
-/

namespace MultimodalDb

open Bytes MapPairs

namespace MmapAgeStore

/-- The pairs that `create` writes for the records. -/
def entriesOf (records : List DogRecord) : List (Uuid × UInt32) :=
  records.map fun r => (r.id, r.age)

/-- The age that a file of `count` records has at a position. -/
def ageField (bytes : Bytes) (count position : Nat) : UInt32 :=
  toU32 (Bytes.slice bytes (agesStart count + position * AGE_WIDTH) AGE_WIDTH)

/-- The age that opening finds at a position of a file of `count` records, or else the record's own.
-/
def recovered (bytes : Bytes) (count position : Nat) (own : UInt32) : UInt32 :=
  if position < count ∧ isCommitted bytes count position = true
    then ageField bytes count position else own

/-! ## The first bytes of an image -/

section Cut

variable (bytes : Bytes) {len count position : Nat}

theorem slice_take_of_le {start width : Nat} (h : start + width ≤ len) :
    Bytes.slice (bytes.take len) start width = Bytes.slice bytes start width := by
  rw [Bytes.slice, Bytes.slice, List.drop_take, List.take_take, min_eq_left (by omega)]

/-- The columns of `count` records, which a file of this length has. -/
theorem columns_within (hPosition : position < count)
    (hLen : HEADER_LEN + count * RECORD_STRIDE ≤ len) :
    idsStart + position * ID_WIDTH + ID_WIDTH ≤ len ∧
      agesStart count + position * AGE_WIDTH + AGE_WIDTH ≤ len ∧
        markersStart count + position < len := by
  rw [RECORD_STRIDE, ID_WIDTH, AGE_WIDTH] at hLen
  rw [markersStart, agesStart, idsStart, ID_WIDTH, AGE_WIDTH]
  omega

theorem idAt_take (hPosition : position < count) (hLen : HEADER_LEN + count * RECORD_STRIDE ≤ len) :
    idAt (bytes.take len) position = idAt bytes position := by
  rw [idAt, idAt, slice_take_of_le bytes (columns_within hPosition hLen).1]

theorem ageField_take (hPosition : position < count)
    (hLen : HEADER_LEN + count * RECORD_STRIDE ≤ len) :
    ageField (bytes.take len) count position = ageField bytes count position := by
  rw [ageField, ageField, slice_take_of_le bytes (columns_within hPosition hLen).2.1]

theorem isCommitted_take (hPosition : position < count)
    (hLen : HEADER_LEN + count * RECORD_STRIDE ≤ len) :
    isCommitted (bytes.take len) count position = isCommitted bytes count position := by
  rw [isCommitted, isCommitted, List.getElem?_take_of_lt (columns_within hPosition hLen).2.2]

theorem readHeader_take (entries : List (Uuid × UInt32)) (hLen : HEADER_LEN ≤ len) :
    readHeader ((image entries).take len) = .ok () := by
  have hWhole := readHeader_image entries
  have hLength := length_image entries
  have hShort : ((image entries).take len).length < HEADER_LEN ↔
      (image entries).length < HEADER_LEN := by
    rw [List.length_take]
    omega
  have hMagic := slice_take_of_le (image entries) (hLen.trans' (show 0 + 8 ≤ HEADER_LEN by decide))
  have hVersion :=
    slice_take_of_le (image entries) (hLen.trans' (show 8 + 4 ≤ HEADER_LEN by decide))
  simp only [readHeader, hShort, hMagic, hVersion] at hWhole ⊢
  exact hWhole

theorem readHeader_short {bytes : Bytes} (h : bytes.length < HEADER_LEN) :
    readHeader bytes = .error .invalidMagic :=
  if_pos (.inl h)

end Cut

/-! ## What opening finds -/

section Found

variable {entries : List (Uuid × UInt32)} {len count : Nat}

/-- The ids stay where they are, so each of the first `count` records is found by its id, with what
is taken for its age, where what is taken for its marker is one. -/
theorem lookup_persistedBefore (hIds : (entries.map Prod.fst).Nodup)
    (hCount : count ≤ entries.length)
    (hLen : HEADER_LEN + count * RECORD_STRIDE ≤ len) {position : Nat} {e : Uuid × UInt32}
    (hAt : entries[position]? = some e) {upTo : Nat} (hUpTo : upTo ≤ count) :
    (persistedBefore ((image entries).take len) count upTo).lookup e.1 =
      if position < upTo ∧ isCommitted (image entries) count position = true then
        some (position, ageField (image entries) count position)
      else none := by
  induction upTo with
  | zero => rfl
  | succ upTo ih =>
    obtain ⟨last, hLast⟩ : ∃ last, entries[upTo]? = some last :=
      ⟨_, List.getElem?_eq_getElem (by omega)⟩
    have hOlder := ih (by omega)
    have hId := idAt_take (image entries) (Nat.lt_of_succ_le hUpTo) hLen
    rw [idAt_image hLast] at hId
    have hAge := ageField_take (image entries) (Nat.lt_of_succ_le hUpTo) hLen
    rw [ageField] at hAge
    rw [persistedBefore] at hOlder ⊢
    rw [List.range_succ, List.foldl_append, List.foldl_cons, List.foldl_nil,
      isCommitted_take _ (Nat.lt_of_succ_le hUpTo) hLen, hId, hAge]
    by_cases hHere : position = upTo
    · subst hHere
      obtain rfl : e = last := Option.some.inj (hAt.symm.trans hLast)
      cases hCommitted : isCommitted (image entries) count position with
      | true => simp
      | false => simpa [hCommitted] using hOlder
    · have hNe : e.1 ≠ last.1 := by
        intro hEq
        have hSame : (entries.map Prod.fst)[position]? = (entries.map Prod.fst)[upTo]? := by
          rw [List.getElem?_map, List.getElem?_map, hAt, hLast, Option.map_some,
            Option.map_some, hEq]
        have hIn : position < (entries.map Prod.fst).length := by
          rw [List.length_map]
          exact (List.getElem?_eq_some_iff.mp hAt).1
        exact hHere ((List.getElem?_inj hIn hIds).mp hSame)
      have hBefore : position < upTo + 1 ↔ position < upTo := by omega
      simp only [hBefore]
      split
      · rw [AList.lookup_insert_ne hNe, hOlder]
      · exact hOlder

/-- A file that is long enough is read as one of the records that its columns have room for. -/
theorem persistedPairs_take (entries : List (Uuid × UInt32)) (hLen : len ≤ (image entries).length)
    (hHeader : HEADER_LEN ≤ len) : persistedPairs ((image entries).take len) =
      .ok (persistedBefore ((image entries).take len) ((len - HEADER_LEN) / RECORD_STRIDE)
        ((len - HEADER_LEN) / RECORD_STRIDE)) := by
  rw [persistedPairs, List.length_take, min_eq_left hLen, recordCountFor, if_pos hHeader]
  rfl

/-- A complete file is read at the ages it was written with. -/
theorem recovered_whole {position : Nat} {e : Uuid × UInt32} (hAt : entries[position]? = some e) :
    recovered (image entries) entries.length position e.2 = e.2 := by
  rw [recovered]
  split
  · rw [ageField, ageAt_image hAt, toU32_ofU32]
  · rfl

end Found

/-! ## Opening -/

section Opening

variable {S : Type} {t : S} {d : Disk} {path : Path} {records : List DogRecord}
  {edges : List (Uuid × Uuid)}
variable {len : Nat}

theorem wp_writeViaRename {entries : List (Uuid × UInt32)} {Q : Mapping → S → Disk → Prop}
    {A C : Stop DurabilityError → S → Disk → Prop}
    (hOk : ∀ d', Q ⟨image entries, some path⟩ t d') (hMissing : ∀ e d', C e t d') :
    Method.wp (writeViaRename entries path : Method S DurabilityError Mapping) t d Q A C := by
  refine Method.wp_bind (RecordBlob.wp_write (fun d' hWritten _ _ => ?_) fun e d' _ =>
    hMissing e d')
  refine Method.wp_bind (Method.wp_openFile (fun _ _ => ?_) (fun hNone => ?_) fun e =>
    hMissing e d')
  · refine Method.wp_mapFile ?_ fun e => hMissing e d'
    rw [hWritten, Option.getD_some, buildImage_eq]
    exact hOk d'
  · rw [hWritten] at hNone
    cases hNone

theorem lookup_byId (hIds : (records.map (·.id)).Nodup) {r : DogRecord} (hr : r ∈ records) :
    (DogRecord.byId records).lookup r.id = some r := by
  have hKeys : ((records.map fun r => (r.id, r)).map Prod.fst).Nodup := by rwa [List.map_map]
  exact (lookup_fill hKeys).mpr (List.mem_map.mpr ⟨r, hr, rfl⟩)

/-- A store over a file with an age for each of its records reads the records with these ages. -/
theorem get_of_over {f : DogRecord → UInt32} {s : MmapAgeStore} (hIds : (records.map (·.id)).Nodup)
    (h : Over ⟨records, edges⟩ (records.map fun r => (r.id, f r)) path s) {r : DogRecord}
    (hr : r ∈ records) :
    s.get r.id = .ok (some { r with age := f r }) := by
  have hAge : ∀ r ∈ records, ageIn (records.map fun r => (r.id, f r)) r.id = some (f r) :=
    fun r hr => by
    rw [ageIn_map, lookup_byId hIds hr, Option.map_some]
  have hCovers : Covers (records.map fun r => (r.id, f r)) ⟨records, edges⟩ := by
    intro id hId
    obtain ⟨r, hr, rfl⟩ := List.mem_map.mp hId
    rw [hAge r hr]
    rfl
  rw [h.get hCovers, lookup_byId hIds hr, Option.map_some, knownAge, hAge r hr, Option.getD_some]

/-- Opening never panics: what is read of a file with a header lies within the file, and a place is
looked up for records that have one. -/
theorem calm_openStore :
    Method.Calm (openStore records edges path : Method S DurabilityError MmapAgeStore) := by
  have hRename : ∀ entries,
    Method.Calm (writeViaRename entries path : Method S DurabilityError Mapping) := fun entries =>
    (Method.calm_call.bind fun _ => Method.calm_call.bind fun _ => Method.calm_call.bind fun _ =>
      Method.calm_call).bind fun _ => Method.calm_call.bind fun _ => Method.calm_call
  have hReconcile : ∀ persisted, Method.Calm (reconcile persisted records path :
      Method S DurabilityError (Mapping × AList (fun _ : Uuid => Nat))) := by
    intro persisted
    unfold reconcile
    split
    · exact (hRename _).bind fun _ => Method.calm_pure _
    · next hAll =>
      have hFound : ∀ list : List DogRecord, (∀ r ∈ list, r ∈ records) →
          ∃ places, list.mapM (foundPlace persisted) = .ok places := by
        intro list hList
        induction list with
        | nil => exact ⟨[], rfl⟩
        | cons r list ih =>
          obtain ⟨places, hPlaces⟩ := ih fun r' hr' => hList r' (List.mem_cons_of_mem r hr')
          have hSome : (persisted.lookup r.id).isNone = false := by
            by_contra hNone
            exact hAll (List.any_eq_true.mpr ⟨r, hList r List.mem_cons_self,
              Bool.of_not_eq_false hNone⟩)
          obtain ⟨place, hPlace⟩ : ∃ place, persisted.lookup r.id = some place :=
            Option.isSome_iff_exists.mp (by simpa using hSome)
          refine ⟨(r.id, place.1) :: places, ?_⟩
          rw [List.mapM_cons, foundPlace, hPlace, hPlaces]
          rfl
      obtain ⟨places, hPlaces⟩ := hFound records fun _ hr => hr
      have hFill : foundPlaces persisted records = .ok (fill places) := by
        rw [foundPlaces, hPlaces]
        rfl
      exact Method.calm_call.bind fun _ => (Method.calm_checked hFill).bind fun _ =>
        Method.calm_pure _
  refine Method.calm_call.bind fun _ => Method.calm_call.bind fun file => ?_
  cases hHeader : readHeader file.bytes with
  | error e =>
    intro p q hEnd
    cases hEnd
  | ok u =>
    have hLong : HEADER_LEN ≤ file.bytes.length := by
      by_contra hShort
      rw [readHeader_short (not_le.mp hShort)] at hHeader
      cases hHeader
    have hPersisted : persistedPairs file.bytes = .ok (persistedBefore file.bytes
        ((file.bytes.length - HEADER_LEN) / RECORD_STRIDE)
          ((file.bytes.length - HEADER_LEN) / RECORD_STRIDE)) := by
      rw [persistedPairs, recordCountFor, if_pos hLong]
      rfl
    exact (Method.calm_pure u).bind fun _ => (Method.calm_checked hPersisted).bind fun persisted =>
      (hReconcile persisted).bind fun _ => Method.calm_pure _

section Torn

variable (hIds : (records.map (·.id)).Nodup) (hLen : len ≤ (image (entriesOf records)).length)
include hIds hLen

theorem lookup_torn (hHeader : HEADER_LEN ≤ len) {position : Nat} {r : DogRecord}
    (hAt : records[position]? = some r) :
    (persistedBefore ((image (entriesOf records)).take len) ((len - HEADER_LEN) / RECORD_STRIDE)
      ((len - HEADER_LEN) / RECORD_STRIDE)).lookup r.id =
      if position < (len - HEADER_LEN) / RECORD_STRIDE ∧
          isCommitted (image (entriesOf records)) ((len - HEADER_LEN) / RECORD_STRIDE)
            position = true then
        some (position, ageField (image (entriesOf records))
          ((len - HEADER_LEN) / RECORD_STRIDE) position)
      else none := by
  have hKeys : ((entriesOf records).map Prod.fst).Nodup := by rwa [entriesOf, List.map_map]
  have hEntry : (entriesOf records)[position]? = some (r.id, r.age) := by
    rw [entriesOf, List.getElem?_map, hAt, Option.map_some]
  have hWithin := Nat.div_mul_le_self (len - HEADER_LEN) RECORD_STRIDE
  have hCount : (len - HEADER_LEN) / RECORD_STRIDE ≤ (entriesOf records).length := by
    rw [length_image] at hLen
    exact Nat.div_le_of_le_mul (by rw [Nat.mul_comm]; omega)
  exact lookup_persistedBefore hKeys hCount (by omega) hEntry le_rfl

/-- A file in which every record is found is complete. -/
theorem whole_of_found (hHeader : HEADER_LEN ≤ len)
    (hAll : ∀ r ∈ records, ((persistedBefore ((image (entriesOf records)).take len)
      ((len - HEADER_LEN) / RECORD_STRIDE)
    ((len - HEADER_LEN) / RECORD_STRIDE)).lookup r.id).isSome = true) :
    len = (image (entriesOf records)).length ∧
    (len - HEADER_LEN) / RECORD_STRIDE = records.length := by
  have hWithin := Nat.div_mul_le_self (len - HEADER_LEN) RECORD_STRIDE
  have hCount : records.length ≤ (len - HEADER_LEN) / RECORD_STRIDE := by
    by_contra hFewer
    have hAt := List.getElem?_eq_getElem (not_le.mp hFewer)
    have hSome := hAll _ (List.getElem_mem (not_le.mp hFewer))
    rw [lookup_torn hIds hLen hHeader hAt, if_neg (by omega)] at hSome
    cases hSome
  have hBound := Nat.mul_le_mul_right RECORD_STRIDE hCount
  have hEntries : (entriesOf records).length = records.length := List.length_map ..
  have hFull := length_image (entriesOf records)
  rw [hEntries] at hFull
  have hLast : len = HEADER_LEN + records.length * RECORD_STRIDE := by omega
  exact ⟨hLast.trans hFull.symm,
    by rw [hLast, Nat.add_sub_cancel_left, Nat.mul_div_cancel _ (by decide)]⟩

/-- Opening a file that was cut short reports that it has no header, or gives each record what was
found for it. -/
theorem wp_openStore_torn (hFile : d path = some ((image (entriesOf records)).take len)) :
    Method.wp (openStore records edges path : Method S DurabilityError MmapAgeStore) t d
      (fun s _ _ => ∀ (position : Nat) (r : DogRecord), records[position]? = some r →
        s.get r.id = .ok (some ⟨r.id, r.breed, recovered (image (entriesOf records))
          ((len - HEADER_LEN) / RECORD_STRIDE) position r.age⟩))
      (fun _ _ _ => len < HEADER_LEN) (fun _ _ _ => True) := by
  refine Method.wp_bind (Method.wp_openFile (fun _ _ => ?_) (fun hNone => ?_) fun _ => trivial)
  swap
  · rw [hFile] at hNone
    cases hNone
  refine Method.wp_bind (Method.wp_mapFile ?_ fun _ => trivial)
  rw [hFile, Option.getD_some]
  have hLength : ((image (entriesOf records)).take len).length = len := by
    rw [List.length_take, min_eq_left hLen]
  rcases Nat.lt_or_ge len HEADER_LEN with hShort | hHeader
  · rw [readHeader_short (by rwa [hLength])]
    exact Method.wp_bind (Method.wp_fail hShort)
  have hPersisted := persistedPairs_take (entriesOf records) hLen hHeader
  have hFound := fun {position r} => @lookup_torn records len hIds hLen hHeader position r
  have hWhole := whole_of_found hIds hLen hHeader
  rw [readHeader_take _ hHeader, hPersisted]
  refine Method.wp_bind (Method.wp_pure (Method.wp_bind (Method.wp_pure (Method.wp_bind ?_))))
  generalize persistedBefore ((image (entriesOf records)).take len)
    ((len - HEADER_LEN) / RECORD_STRIDE)
    ((len - HEADER_LEN) / RECORD_STRIDE) = found at hPersisted hFound hWhole ⊢
  unfold reconcile
  split
  next =>
    -- some record is not found: the file is written anew, with the ages that were found
    refine Method.wp_bind (wp_writeViaRename (fun d' => Method.wp_pure (Method.wp_pure ?_))
      fun _ _ => trivial)
    intro position r hAt
    have hOver : Over ⟨records, edges⟩
        (records.map fun r => (r.id, (found.lookup r.id).elim r.age (·.2))) path
        ⟨DogRecord.byId records, DogRecord.byBreed records, DogRecord.adjacency edges,
          places (reconciled found records), ⟨image (reconciled found records), some path⟩⟩ :=
      ⟨rfl, rfl, rfl, rfl, lookup_places_of_ids (by rw [reconciled, List.map_map]; rfl)⟩
    rw [get_of_over hIds hOver (List.mem_of_getElem? hAt), hFound hAt, recovered]
    split <;> rfl
  next hNone =>
    -- every record is found, so the file is whole
    have hAll : ∀ r ∈ records, (found.lookup r.id).isSome = true := by
      intro r hr
      by_contra hMissing
      exact hNone (List.any_eq_true.mpr ⟨r, hr, by simpa using hMissing⟩)
    obtain ⟨rfl, hCount⟩ := hWhole hAll
    rw [List.take_length] at hFile hPersisted
    obtain rfl : persistedOf (entriesOf records) = found :=
      Except.ok.inj ((persistedPairs_image (entriesOf records)).symm.trans hPersisted)
    have hCovers : Covers (entriesOf records) ⟨records, edges⟩ := by
      intro id hId
      obtain ⟨r, hr, rfl⟩ := List.mem_map.mp hId
      rw [ageIn, Option.isSome_map]
      exact hAll r hr
    refine Method.wp_bind (Method.wp_mapFile ?_ fun _ => trivial)
    rw [foundPlaces_eq hCovers, hFile, Option.getD_some]
    refine Method.wp_bind (Method.wp_pure
      (Method.wp_pure (Method.wp_pure fun position r hAt => ?_)))
    have hOver := (openStore_found (S := Unit) (t := ()) hFile hCovers).2
    have hEntry : (entriesOf records)[position]? = some (r.id, r.age) := by
      rw [entriesOf, List.getElem?_map, hAt, Option.map_some]
    have hSame := recovered_whole hEntry
    have hEntries : (entriesOf records).length = records.length := List.length_map ..
    rw [hEntries] at hSame
    rw [hCount, hSame]
    exact get_of_over hIds hOver (List.mem_of_getElem? hAt)

end Torn

/-! ## Torn files that are read as data -/

/-- Where a file is cut to fewer records, a position of one of these whose marker is looked for in a
byte that is the marker's by chance, and whose age is then read from other bytes. -/
def Misread (records : List DogRecord) (count position : Nat) : Prop :=
  isCommitted (buildImage (entriesOf records)) count position = true ∧
    records[position]?.map (·.age) ≠ some (ageField (buildImage (entriesOf records)) count position)

instance (records : List DogRecord) (count position : Nat) :
    Decidable (Misread records count position) :=
  inferInstanceAs (Decidable (_ ∧ _))

/-- The opening ended with an error, or with a store that has every record at the age it was given
with. -/
def Sound (records : List DogRecord) :
  EStateM.Result (Stop DurabilityError) (Proc Unit) MmapAgeStore → Prop
  | .ok s _ => ∀ r ∈ records, s.get r.id = .ok (some r)
  | .error e _ => e ≠ .panic

/-- No torn file of these records is read as data: however short it is, wherever it is, and whatever
fails while it is opened. -/
def NeverReadTorn (records : List DogRecord) : Prop :=
  ∀ (edges : List (Uuid × Uuid)) (path : Path) (len : Nat) (d : Disk) (plan : List Outcome),
    len ≤ (buildImage (entriesOf records)).length →
    d path = some ((buildImage (entriesOf records)).take len) →
    Sound records
      ((openStore records edges path : Method Unit DurabilityError MmapAgeStore) ⟨(), d, plan⟩)

/-- A position that is misread is read as data from the file that is cut to the columns of that
count. -/
theorem not_neverReadTorn (hIds : (records.map (·.id)).Nodup) {count position : Nat}
    (hCount : count < records.length)
    (hPosition : position < count) (hMisread : Misread records count position) :
    ¬NeverReadTorn records := by
  intro h
  have hEntries : (entriesOf records).length = records.length := List.length_map ..
  unfold NeverReadTorn at h
  unfold Misread at hMisread
  rw [buildImage_eq] at h hMisread
  have hBound := Nat.mul_le_mul_right RECORD_STRIDE hCount.le
  have hLen : HEADER_LEN + count * RECORD_STRIDE ≤ (image (entriesOf records)).length := by
    rw [length_image, hEntries]
    omega
  have hFound : (HEADER_LEN + count * RECORD_STRIDE - HEADER_LEN) / RECORD_STRIDE = count := by
    rw [Nat.add_sub_cancel_left, Nat.mul_div_cancel _ (by decide)]
  let d : Disk := Function.update (fun _ => none) []
    (some ((image (entriesOf records)).take (HEADER_LEN + count * RECORD_STRIDE)))
  have hRun : Method.wp (openStore records [] [] : Method Unit DurabilityError MmapAgeStore)
      () d _ _ _ :=
    wp_openStore_torn hIds hLen (Function.update_self ..)
  obtain ⟨s, p, hOk, hRead, -⟩ := Method.wp_total (hRun.mono (fun _ _ _ hGets => hGets)
    (fun _ _ _ hShort => absurd hShort (by omega)) fun _ _ _ hStop => hStop)
  have hSound := h [] [] _ d [] hLen (Function.update_self ..)
  rw [hOk] at hSound
  have hAt := List.getElem?_eq_getElem (hPosition.trans hCount)
  have hGet :=
    (hRead position _ hAt).symm.trans (hSound _ (List.getElem_mem (hPosition.trans hCount)))
  rw [hFound, recovered, if_pos ⟨hPosition, hMisread.1⟩] at hGet
  have hAge := congrArg DogRecord.age (Option.some.inj (Except.ok.inj hGet))
  exact hMisread.2 (by rw [hAt, Option.map_some]; exact congrArg some hAge.symm)

/-- Torn files of records with distinct ids are never read as data just where no position of fewer
records is misread. -/
theorem never_read_torn (records : List DogRecord) (hIds : (records.map (·.id)).Nodup) :
    NeverReadTorn records ↔ ∀ count < records.length, ∀ position < count,
      ¬Misread records count position := by
  have hEntries : (entriesOf records).length = records.length := List.length_map ..
  constructor
  · exact fun h count hCount position hPosition hMisread =>
      not_neverReadTorn hIds hCount hPosition hMisread h
  unfold NeverReadTorn Misread
  rw [buildImage_eq]
  · intro h edges path len d plan hLen hFile
    have hRun : Method.wp (openStore records edges path : Method Unit DurabilityError MmapAgeStore)
        () d _ _ _ :=
      wp_openStore_torn hIds hLen hFile
    have hCalm := @calm_openStore Unit path records edges ⟨(), d, plan⟩
    cases hEnd : (openStore records edges path : Method Unit DurabilityError MmapAgeStore)
        ⟨(), d, plan⟩ with
    | error e p =>
      rintro rfl
      exact hCalm p hEnd
    | ok s p =>
      intro r hr
      obtain ⟨position, hAt⟩ := List.mem_iff_getElem?.mp hr
      have hCount : (len - HEADER_LEN) / RECORD_STRIDE ≤ records.length := by
        rw [length_image, hEntries] at hLen
        exact Nat.div_le_of_le_mul (by rw [Nat.mul_comm]; omega)
      rw [hRun.of_ok hEnd position r hAt]
      generalize (len - HEADER_LEN) / RECORD_STRIDE = count at hCount ⊢
      have hOwn : recovered (image (entriesOf records)) count position r.age = r.age := by
        rcases hCount.lt_or_eq with hFewer | rfl
        · rw [recovered]
          split
          next hTaken =>
            have hSame := h count hFewer position hTaken.1
            rw [not_and, not_not, hAt, Option.map_some] at hSame
            exact (Option.some.inj (hSame hTaken.2)).symm
          next => rfl
        · have hEntry : (entriesOf records)[position]? = some (r.id, r.age) := by
            rw [entriesOf, List.getElem?_map, hAt, Option.map_some]
          rw [← hEntries]
          exact recovered_whole hEntry
      rw [hOwn]

end Opening

theorem two_dogs_never_read_torn :
    NeverReadTorn [⟨Uuid.ofNat 7, "beagle", 5⟩, ⟨Uuid.ofNat 8, "collie", 3⟩] :=
  (never_read_torn _ (by decide)).mpr (by decide)

/-- The second id has the marker's byte where the marker of a single record is looked for, and the
first dog gets an age that is read from the front of that id. -/
theorem two_dogs_misread :
    ([⟨Uuid.ofNat 7, "beagle", 5⟩, ⟨Uuid.ofNat (256 ^ 4), "collie", 3⟩].map DogRecord.id).Nodup ∧
      ¬NeverReadTorn [⟨Uuid.ofNat 7, "beagle", 5⟩, ⟨Uuid.ofNat (256 ^ 4), "collie", 3⟩] :=
  ⟨by decide,
    not_neverReadTorn (by decide) (show 1 < 2 by decide) (show 0 < 1 by decide) (by decide)⟩

end MmapAgeStore

end MultimodalDb
