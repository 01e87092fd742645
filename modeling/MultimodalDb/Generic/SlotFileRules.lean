import MultimodalDb.Generic.SlotFileImage

/-!
# Rules for slot files

What each operation on a slot file does to the list of slots. In-place stores set one slot. An
append adds whole slots behind the last byte, so on a file without a partial tail it adds them to
the list, and the positions it reports count on from the last whole slot
(`wp_appendCommittedSlots`). Replacing the file leaves the old slots or the new ones, whatever stops
it (`wp_rewrite`).
-/

namespace MultimodalDb

open Bytes

namespace SlotFile

variable {Id V : Type} [MmapFieldValue Id] [MmapFieldValue V]

/-! ## Stores in place -/

section InPlace

variable {ε : Type} {f : SlotFile Id V} {d : Disk} {slots : List (Slot Id V)} {tail : Bytes}
variable {position : Nat} {slot : Slot Id V} {path : Path}
variable {Q : Unit → SlotFile Id V → Disk → Prop} {A C : Stop ε → SlotFile Id V → Disk → Prop}

/-- The file and its mapping show one list of slots. -/
def Shows (f : SlotFile Id V) (d : Disk) (path : Path) (slots : List (Slot Id V)) (tail : Bytes) :
    Prop :=
  f = ⟨⟨image slots tail, some path⟩, path⟩ ∧ d path = some (image slots tail)

theorem wp_storeAt {start : Nat} {bytes new : Bytes} (h : Shows f d path slots tail)
    (hRoom : start + bytes.length ≤ (image slots tail).length)
    (hNew : splice (image slots tail) start bytes = new)
    (hOk : Q () ⟨⟨new, some path⟩, path⟩ (Function.update d path (some new)))
    (hStop : ∀ d', Disk.AgreeOff [path] d d' → C .crash f d') :
    Method.wp (storeAt start bytes) f d Q A C := by
  obtain ⟨rfl, hFile⟩ := h
  have hWrite : ∀ bytes, d.overwrite path start bytes =
      Function.update d path (some (splice (image slots tail) start bytes)) := fun bytes => by
    rw [Disk.overwrite, hFile, Option.map_some]
  refine Method.wp_bind (Method.wp_self (Method.wp_bind (Method.wp_store rfl hRoom ?_ fun n => ?_)))
  · rw [hWrite, hNew]
    exact Method.wp_modifySelf hOk
  · rw [hWrite]
    exact hStop _ ((Disk.AgreeOff.refl _ d).update (List.mem_singleton_self path) _)

theorem wp_writeValue {value : V} (h : Shows f d path slots tail)
    (hSlot : slots[position]? = some slot)
    (hOk : ∀ f' d', Shows f' d' path (slots.set position { slot with value := value }) tail →
      Disk.AgreeOff [path] d d' → Q () f' d')
    (hStop : ∀ d', Disk.AgreeOff [path] d d' → C .crash f d') :
    Method.wp (writeValue position value) f d Q A C := by
  have hEnd := slot_end hSlot
  refine wp_storeAt h ?_ (splice_image_value hSlot value) (hOk _ _ ⟨rfl, ?_⟩ ?_) hStop
  · have hWidth : slotWidth Id V = idWidth Id + valueWidth V + 1 := rfl
    rw [MmapFieldValue.length_writeLe, length_image]
    show HEADER_LEN + position * slotWidth Id V + idWidth Id + valueWidth V ≤ _
    omega
  · rw [Function.update_self]
  · exact (Disk.AgreeOff.refl _ d).update (List.mem_singleton_self path) _

theorem wp_clearMarker (h : Shows f d path slots tail) (hSlot : slots[position]? = some slot)
    (hOk : ∀ f' d', Shows f' d' path (slots.set position { slot with marker := 0 }) tail →
      Disk.AgreeOff [path] d d' → Q () f' d')
    (hStop : ∀ d', Disk.AgreeOff [path] d d' → C .crash f d') :
    Method.wp (clearMarker position) f d Q A C := by
  have hEnd := slot_end hSlot
  refine wp_storeAt h ?_ (splice_image_marker hSlot 0) (hOk _ _ ⟨rfl, ?_⟩ ?_) hStop
  · have hWidth : slotWidth Id V = idWidth Id + valueWidth V + 1 := rfl
    rw [List.length_singleton, length_image, slotOffset]
    omega
  · rw [Function.update_self]
  · exact (Disk.AgreeOff.refl _ d).update (List.mem_singleton_self path) _

end InPlace

/-! ## A new file -/

section Create

variable {S : Type} {s : S} {d d₀ : Disk} {path : Path}

/-- A store that replaces the middle of a mapped file. -/
theorem wp_store_middle {ε : Type} {front old new back : Bytes} {Q : Mapping → S → Disk → Prop}
    {A C : Stop ε → S → Disk → Prop} {start : Nat} (hFile : d path = some (front ++ (old ++ back)))
    (hAgree : Disk.AgreeOff [path] d₀ d) (hStart : start = front.length)
    (hLen : new.length = old.length)
    (hOk : ∀ d', d' path = some (front ++ (new ++ back)) → Disk.AgreeOff [path] d₀ d' →
      Q ⟨front ++ (new ++ back), some path⟩ s d')
    (hStop : ∀ e d', Disk.AgreeOff [path] d₀ d' → C e s d') :
    Method.wp (Method.store ⟨front ++ (old ++ back), some path⟩ start new) s d Q A C := by
  have hMem : path ∈ [path] := List.mem_singleton_self path
  subst hStart
  refine Method.wp_store rfl ?_ ?_ (fun n => hStop _ _ (hAgree.update hMem _))
  · rw [List.length_append, List.length_append]
    omega
  · rw [splice_middle _ _ _ hLen]
    refine hOk _ ?_ (hAgree.update hMem _)
    rw [Disk.overwrite_self, hFile, Option.map_some, splice_middle _ _ _ hLen]

variable {Q : Mapping → S → Disk → Prop} {A C : Stop DurabilityError → S → Disk → Prop}

theorem image_tail (slots : List (Slot Id V)) (tail : Bytes) :
    image slots tail = image slots [] ++ tail := by
  simp [image, List.append_assoc]

theorem image_snoc (slots : List (Slot Id V)) (s : Slot Id V) (tail : Bytes) :
    image (slots ++ [s]) tail = image slots (s.bytes ++ tail) := by
  simp [image, List.append_assoc]

theorem exists_append_of_length_le {bs : Bytes} {n : Nat} (h : n ≤ bs.length) :
    ∃ front back, bs = front ++ back ∧ front.length = n :=
  ⟨bs.take n, bs.drop n, (List.take_append_drop n bs).symm, List.length_take_of_le h⟩

/-- The loop body of `create`: the slot lands at the front of what is not written yet. -/
theorem wp_writeSlotInto {slots : List (Slot Id V)} {old rest : Bytes} {id : Id} {value : V}
    (hFile : d path = some (image slots (old ++ rest))) (hOld : old.length = slotWidth Id V)
    (hAgree : Disk.AgreeOff [path] d₀ d)
    (hOk : ∀ d', d' path = some (image (slots ++ [.commit (id, value)]) rest) →
      Disk.AgreeOff [path] d₀ d' →
      Q ⟨image (slots ++ [.commit (id, value)]) rest, some path⟩ s d')
    (hStop : ∀ e d', Disk.AgreeOff [path] d₀ d' → C e s d') :
    Method.wp (writeSlotInto ⟨image slots (old ++ rest), some path⟩ slots.length id value)
      s d Q A C := by
  obtain ⟨oldId, old, rfl, hOldId⟩ := exists_append_of_length_le
    (by rw [hOld, slotWidth]; omega : idWidth Id ≤ old.length)
  rw [List.length_append, hOldId, slotWidth] at hOld
  obtain ⟨oldValue, oldMarker, rfl, hOldValue⟩ := exists_append_of_length_le
    (by omega : valueWidth V ≤ old.length)
  rw [List.length_append, hOldValue] at hOld
  have hFront : (image slots []).length = slotOffset Id V slots.length := by
    rw [length_image, List.length_nil, Nat.add_zero, slotOffset]
  have hIdLen := MmapFieldValue.length_writeLe id
  have hValueLen := MmapFieldValue.length_writeLe value
  -- the three parts of the old slot, each behind what is already written
  have hStart : image slots (oldId ++ (oldValue ++ oldMarker) ++ rest) =
      image slots [] ++ (oldId ++ (oldValue ++ (oldMarker ++ rest))) := by
    rw [image_tail]
    simp only [List.append_assoc]
  have hAfterId : image slots [] ++
      (MmapFieldValue.writeLe id ++ (oldValue ++ (oldMarker ++ rest))) =
      image slots [] ++ MmapFieldValue.writeLe id ++ (oldValue ++ (oldMarker ++ rest)) := by
    rw [List.append_assoc]
  have hAfterValue : image slots [] ++ MmapFieldValue.writeLe id ++
      (MmapFieldValue.writeLe value ++ (oldMarker ++ rest)) =
      image slots [] ++ MmapFieldValue.writeLe id ++ MmapFieldValue.writeLe value ++
        (oldMarker ++ rest) := by
    rw [List.append_assoc (_ ++ _)]
  have hDone : image slots [] ++ MmapFieldValue.writeLe id ++ MmapFieldValue.writeLe value ++
      ([COMMITTED] ++ rest) = image (slots ++ [.commit (id, value)]) rest := by
    rw [image_snoc, image_tail slots (_ ++ _), Slot.bytes]
    simp only [Slot.commit, List.append_assoc]
  rw [hStart] at hFile ⊢
  refine Method.wp_bind (wp_store_middle hFile hAgree hFront.symm (hIdLen.trans hOldId.symm)
    (fun d₁ hFile₁ hAgree₁ => ?_) hStop)
  rw [hAfterId] at hFile₁ ⊢
  refine Method.wp_bind (wp_store_middle hFile₁ hAgree₁ ?_ (hValueLen.trans hOldValue.symm)
    (fun d₂ hFile₂ hAgree₂ => ?_) hStop)
  · rw [List.length_append, hFront, hIdLen]
  rw [hAfterValue] at hFile₂ ⊢
  refine wp_store_middle hFile₂ hAgree₂ ?_ (by rw [List.length_singleton]; omega)
    (fun d₃ hFile₃ hAgree₃ => ?_) hStop
  · rw [List.length_append, List.length_append, hFront, hIdLen, hValueLen]
  rw [hDone] at hFile₃ ⊢
  exact hOk d₃ hFile₃ hAgree₃

/-- The loop of `create`, from any position on. -/
theorem wp_writeSlots {pairs : List (Id × V)} {slots : List (Slot Id V)} {rest : Bytes}
    (hFile : d path = some (image slots rest))
    (hRest : rest.length = pairs.length * slotWidth Id V) (hAgree : Disk.AgreeOff [path] d₀ d)
    (hOk : ∀ d', d' path = some (image (slots ++ pairs.map .commit) []) →
      Disk.AgreeOff [path] d₀ d' → Q ⟨image (slots ++ pairs.map .commit) [], some path⟩ s d')
    (hStop : ∀ e d', Disk.AgreeOff [path] d₀ d' → C e s d') :
    Method.wp (writeSlots ⟨image slots rest, some path⟩ slots.length pairs) s d Q A C := by
  induction pairs generalizing slots rest d with
  | nil =>
    rw [List.length_nil, Nat.zero_mul] at hRest
    obtain rfl := List.eq_nil_of_length_eq_zero hRest
    rw [List.map_nil, List.append_nil] at hOk
    exact Method.wp_pure (hOk d hFile hAgree)
  | cons pair pairs ih =>
    rw [List.length_cons, Nat.succ_mul] at hRest
    obtain ⟨old, rest, rfl, hOld⟩ := exists_append_of_length_le
      (by omega : slotWidth Id V ≤ rest.length)
    rw [List.length_append, hOld] at hRest
    refine Method.wp_bind (wp_writeSlotInto hFile hOld hAgree (fun d' hFile' hAgree' => ?_) hStop)
    have hLen : slots.length + 1 = (slots ++ [Slot.commit pair]).length := by
      rw [List.length_append, List.length_singleton]
    rw [hLen]
    refine ih hFile' (by omega) hAgree' (fun d'' hFile'' hAgree'' => ?_)
    rw [List.append_assoc] at hFile'' ⊢
    exact hOk d'' hFile'' hAgree''

theorem wp_writeHeader {old rest : Bytes} (hFile : d path = some (old ++ rest))
    (hOld : old.length = HEADER_LEN) (hAgree : Disk.AgreeOff [path] d₀ d)
    (hOk : ∀ d', d' path = some (image ([] : List (Slot Id V)) rest) → Disk.AgreeOff [path] d₀ d' →
      Q ⟨image ([] : List (Slot Id V)) rest, some path⟩ s d')
    (hStop : ∀ e d', Disk.AgreeOff [path] d₀ d' → C e s d') :
    Method.wp (writeHeader ⟨old ++ rest, some path⟩) s d Q A C := by
  obtain ⟨oldMagic, oldVersion, rfl, hOldMagic⟩ := exists_append_of_length_le
    (by rw [hOld]; decide : 8 ≤ old.length)
  rw [List.length_append, hOldMagic] at hOld
  have hOldVersion : oldVersion.length = 4 := Nat.add_left_cancel hOld
  have hImage : image ([] : List (Slot Id V)) rest = MAGIC ++ (ofU32 SCHEMA_VERSION ++ rest) := by
    simp [image, header, List.append_assoc]
  rw [List.append_assoc, ← List.nil_append (oldMagic ++ _)] at hFile ⊢
  refine Method.wp_bind (wp_store_middle hFile hAgree rfl (hOldMagic ▸ rfl)
    (fun d₁ hFile₁ hAgree₁ => ?_) hStop)
  rw [List.nil_append] at hFile₁ ⊢
  refine wp_store_middle hFile₁ hAgree₁ rfl ((length_ofU32 _).trans hOldVersion.symm)
    (fun d₂ hFile₂ hAgree₂ => ?_) hStop
  rw [← hImage] at hFile₂ ⊢
  exact hOk d₂ hFile₂ hAgree₂

/-- **A created file** holds one committed slot for each pair, in order. -/
theorem wp_create {pairs : List (Id × V)} {Q : SlotFile Id V → S → Disk → Prop}
    (hOk : ∀ f d', Shows f d' path (pairs.map .commit) [] → Disk.AgreeOff [path] d d' → Q f s d')
    (hStop : ∀ e d', Disk.AgreeOff [path] d d' → C e s d') :
    Method.wp (create path pairs) s d Q A C := by
  have hMem : path ∈ [path] := List.mem_singleton_self path
  have hSame : Disk.AgreeOff [path] d d := .refl _ d
  refine Method.wp_bind (Method.wp_createDirAll ?_ fun e => hStop e d hSame)
  refine Method.wp_bind (Method.wp_createFile ?_ fun e => hStop e d hSame)
  have hEmpty := hSame.update hMem (some [])
  refine Method.wp_bind (Method.wp_setLen ?_ fun e => hStop e _ hEmpty)
  rw [Function.update_self, Option.map_some, Function.update_idem]
  obtain ⟨zeros, hZeros⟩ : ∃ zeros : Bytes, zeros =
      [].take (HEADER_LEN + pairs.length * slotWidth Id V) ++
      List.replicate (HEADER_LEN + pairs.length * slotWidth Id V - ([] : Bytes).length) 0 :=
        ⟨_, rfl⟩
  have hLen : zeros.length = HEADER_LEN + pairs.length * slotWidth Id V := by
    simp [hZeros]
  rw [← hZeros]
  have hGrown := hSame.update hMem (some zeros)
  refine Method.wp_bind (Method.wp_mapFile ?_ fun e => hStop e _ hGrown)
  rw [Function.update_self, Option.getD_some]
  obtain ⟨front, rest, rfl, hFront⟩ := exists_append_of_length_le
    (by rw [hLen]; exact Nat.le_add_right .. : HEADER_LEN ≤ zeros.length)
  rw [List.length_append, hFront] at hLen
  refine Method.wp_bind (wp_writeHeader (Function.update_self ..) hFront hGrown
    (fun d₁ (hFile₁ : d₁ path = some (image ([] : List (Slot Id V)) rest)) hAgree₁ => ?_) hStop)
  refine Method.wp_bind (wp_writeSlots hFile₁ (Nat.add_left_cancel hLen) hAgree₁
    (fun d₂ hFile₂ hAgree₂ => ?_) hStop)
  rw [List.nil_append] at hFile₂ ⊢
  exact Method.wp_bind (Method.wp_sync (Method.wp_pure (hOk _ d₂ ⟨rfl, hFile₂⟩ hAgree₂))
    fun e => hStop e d₂ hAgree₂)

end Create

/-! ## Opening -/

section Open

variable {S : Type} {s : S} {d : Disk} {path : Path}
variable {Q : SlotFile Id V → S → Disk → Prop} {A C : Stop DurabilityError → S → Disk → Prop}

/-- Opening a file shows it as a list of slots and a tail, or refuses it. -/
theorem wp_openAt
    (hOk : ∀ f slots tail, Shows f d path slots tail → tail.length < slotWidth Id V → Q f s d)
    (hRefused : ∀ e, (∀ slots tail, d path ≠ some (image (slots : List (Slot Id V)) tail)) →
      A (.error e) s d)
    (hStop : ∀ e, C e s d) : Method.wp (openAt path) s d Q A C := by
  refine Method.wp_bind (Method.wp_openFile (fun bytes hFile => ?_) (fun hNone => ?_) hStop)
  · refine Method.wp_bind (Method.wp_mapFile ?_ hStop)
    rw [hFile, Option.getD_some]
    refine Method.wp_bind (Method.wp_ofExcept (fun _ hHeader => ?_) (fun e hHeader => ?_))
    · obtain ⟨slots, tail, rfl, hTail⟩ := @exists_image Id V _ _ _ hHeader
      exact Method.wp_pure (hOk _ slots tail ⟨rfl, hFile⟩ hTail)
    · refine hRefused e fun slots tail hImage => ?_
      rw [hFile] at hImage
      rw [Option.some.inj hImage, readHeader_image] at hHeader
      cases hHeader
  · refine hRefused _ fun slots tail hImage => ?_
    cases hNone.symm.trans hImage

end Open

/-! ## Appending -/

section Append

variable {S : Type} {s : S} {d : Disk} {path : Path} {A C : Stop DurabilityError → S → Disk → Prop}

/-- The loop of an append: each slot lands behind the last byte, and its position is the number of
whole slots there were before it. Stopped, it has only added to the file. -/
theorem wp_appendEachSlot {pairs : List (Id × V)} {file : Bytes} {count partialLen : Nat}
    {Q : List Nat → S → Disk → Prop} (hFile : d path = some file)
    (hLen : file.length = HEADER_LEN + (count * slotWidth Id V + partialLen))
    (hPart : partialLen < slotWidth Id V)
    (hOk : Q (List.range' count pairs.length) s (Function.update d path
      (some (file ++ Column.flat Slot.bytes (pairs.map .commit)))))
    (hStop : ∀ e bytes, C e s (Function.update d path (some (file ++ bytes)))) :
    Method.wp (appendEachSlot path pairs) s d Q A C := by
  induction pairs generalizing d file count Q with
  | nil =>
    rw [List.map_nil, Column.flat_nil, List.append_nil, ← hFile, Function.update_eq_self] at hOk
    exact Method.wp_pure hOk
  | cons pair pairs ih =>
    have hSlotLen : (slotBuffer pair.1 pair.2).length = slotWidth Id V :=
      Slot.length_bytes (.commit pair)
    have hExtend : ∀ bytes, d.extend path bytes = Function.update d path (some (file ++ bytes)) :=
      fun bytes => by rw [Disk.extend, hFile, Option.map_some]
    refine Method.wp_bind (Method.wp_bind (Method.wp_appendAll ?_ fun n e => ?_))
    · rw [hExtend]
      refine Method.wp_bind (Method.wp_fileLen ?_ fun e => hStop e _)
      have hNewLen : (file ++ slotBuffer pair.1 pair.2).length =
          HEADER_LEN + ((count + 1) * slotWidth Id V + partialLen) := by
        rw [List.length_append, hLen, hSlotLen, Nat.succ_mul]
        omega
      have hPosition : (HEADER_LEN + ((count + 1) * slotWidth Id V + partialLen) - HEADER_LEN) /
          slotWidth Id V - 1 = count := by
        rw [Nat.add_sub_cancel_left, Nat.mul_comm, Nat.mul_add_div (slotWidth_pos Id V),
          Nat.div_eq_of_lt hPart]
        rfl
      rw [Function.update_self, Option.getD_some, hNewLen, hPosition]
      refine Method.wp_pure (Method.wp_bind (ih (Function.update_self ..) hNewLen
        (Method.wp_pure ?_) fun e bytes => ?_))
      · rw [Function.update_idem, List.append_assoc]
        exact hOk
      · rw [Function.update_idem, List.append_assoc]
        exact hStop e _
    · rw [hExtend]
      exact hStop e _

/-- **An append** behind whole slots adds them to the list; the positions count on. -/
theorem wp_appendCommittedSlots {f : SlotFile Id V} {pairs : List (Id × V)}
    {slots : List (Slot Id V)} {tail : Bytes} {Q : List Nat → SlotFile Id V → Disk → Prop}
    {C : Stop DurabilityError → SlotFile Id V → Disk → Prop}
    {A : Stop DurabilityError → SlotFile Id V → Disk → Prop} (hPath : f.path = path)
    (hFile : d path = some (image slots tail)) (hTail : tail.length < slotWidth Id V)
    (hOk : ∀ bytes, bytes = image slots tail ++ Column.flat Slot.bytes (pairs.map .commit) →
      Q (List.range' slots.length pairs.length) ⟨⟨bytes, some path⟩, path⟩
        (Function.update d path (some bytes)))
    (hStop : ∀ e d', Disk.AgreeOff [path] d d' → C e f d') :
    Method.wp (appendCommittedSlots pairs) f d Q A C := by
  subst hPath
  have hSame : ∀ e, C e f d := fun e => hStop e d (.refl _ d)
  refine Method.wp_bind (Method.wp_self (Method.wp_bind (Method.wp_openFile (fun _ _ => ?_)
    (fun hNone => nomatch hNone.symm.trans hFile) hSame)))
  have hGrown : ∀ e bytes, C e f (Function.update d f.path (some (image slots tail ++ bytes))) :=
    fun e _ => hStop e _ ((Disk.AgreeOff.refl _ d).update (List.mem_singleton_self _) _)
  refine Method.wp_bind (wp_appendEachSlot hFile (length_image slots tail) hTail ?_ hGrown)
  refine Method.wp_bind (Method.wp_openFile (fun _ _ => ?_) (fun hNone => ?_) fun e => hGrown e _)
  · refine Method.wp_bind (Method.wp_mapFile ?_ fun e => hGrown e _)
    rw [Function.update_self, Option.getD_some]
    exact Method.wp_bind (Method.wp_modifySelf (Method.wp_pure (hOk _ rfl)))
  · rw [Function.update_self] at hNone
    cases hNone

end Append

/-! ## Replacing -/

section Replacing

variable {f : SlotFile Id V} {d : Disk} {path : Path} {pairs : List (Id × V)}
variable {A C : Stop DurabilityError → SlotFile Id V → Disk → Prop}

/-- `rewrite` up to the point where the old mapping is released. -/
def stage (slots : List (Id × V)) :
    Method (SlotFile Id V) DurabilityError (SlotFile Id V × Mapping) := do
  let f ← Method.self
  let _fresh : SlotFile Id V ← create (f.path ++ COMPACT_SUFFIX) slots
  let placeholder ← Method.mapAnon .io 1
  return (f, placeholder)

/-- `rewrite` from there on. -/
def install (f : SlotFile Id V) (placeholder : Mapping) :
    Method (SlotFile Id V) DurabilityError Unit := do
  Method.modifySelf (fun f => { f with mmap := placeholder })
  Method.rename .io (f.path ++ COMPACT_SUFFIX) f.path
  Method.openFile .io f.path
  let mmap ← Method.mapFile .io f.path
  Method.modifySelf (fun f => { f with mmap := mmap })

theorem rewrite_eq (slots : List (Id × V)) :
    rewrite slots = stage slots >>= fun staged => install staged.1 staged.2 := by
  simp only [rewrite, stage, install, bind_assoc, pure_bind]

/-- The fresh slots are staged beside the file. -/
theorem wp_stage {Q : SlotFile Id V × Mapping → SlotFile Id V → Disk → Prop} (hPath : f.path = path)
    (hOk : ∀ d', d' (path ++ COMPACT_SUFFIX) = some (image (pairs.map .commit) []) →
      Disk.AgreeOff [path ++ COMPACT_SUFFIX] d d' → Q (f, ⟨[0], none⟩) f d')
    (hStop : ∀ e d', Disk.AgreeOff [path ++ COMPACT_SUFFIX] d d' → C e f d') :
    Method.wp (stage pairs) f d Q A C := by
  subst hPath
  refine Method.wp_bind (Method.wp_self
    (Method.wp_bind (wp_create (fun fresh d₁ hShows hAgree => ?_) fun e d' h => hStop e d' h)))
  exact Method.wp_bind (Method.wp_mapAnon (Method.wp_pure (hOk d₁ hShows.2 hAgree)) fun e =>
    hStop e d₁ hAgree)

/-- What is stopped behind the release of the old mapping leaves the placeholder. -/
theorem wp_install {Q : Unit → SlotFile Id V → Disk → Prop} (hPath : f.path = path)
    (hStaged : d (path ++ COMPACT_SUFFIX) = some (image (pairs.map .commit) []))
    (hOk : ∀ f' d', Shows f' d' path (pairs.map .commit) [] →
      Disk.AgreeOff [path, path ++ COMPACT_SUFFIX] d d' → Q () f' d')
    (hStop : ∀ e d', d' path = d path ∨ d' path = some (image (pairs.map .commit) []) →
      Disk.AgreeOff [path, path ++ COMPACT_SUFFIX] d d' → C e { f with mmap := ⟨[0], none⟩ } d') :
    Method.wp (install f ⟨[0], none⟩) f d Q A C := by
  subst hPath
  have hNe : f.path ≠ f.path ++ COMPACT_SUFFIX := (append_suffix_ne (by decide) f.path).symm
  refine Method.wp_bind (Method.wp_modifySelf ?_)
  refine Method.wp_bind (Method.wp_rename ?_ fun e => hStop e d (Or.inl rfl) (.refl _ d))
  -- from here on the new slots are in place
  have hMoved : d.move (f.path ++ COMPACT_SUFFIX) f.path f.path =
      some (image (pairs.map .commit) []) := by
    rw [Disk.move, Function.update_of_ne hNe, Function.update_self, hStaged]
  have hAgree : Disk.AgreeOff [f.path, f.path ++ COMPACT_SUFFIX] d
      (d.move (f.path ++ COMPACT_SUFFIX) f.path) :=
    ((Disk.AgreeOff.refl _ d).update (List.mem_cons_self ..) _).update (by simp) _
  have hNew : ∀ e, C e { f with mmap := ⟨[0], none⟩ } (d.move (f.path ++ COMPACT_SUFFIX) f.path) :=
    fun e => hStop e _ (Or.inr hMoved) hAgree
  refine Method.wp_bind (Method.wp_openFile (fun _ _ => ?_) (fun hNone => ?_) fun e => hNew e)
  · refine Method.wp_bind (Method.wp_mapFile ?_ fun e => hNew e)
    rw [hMoved, Option.getD_some]
    exact Method.wp_modifySelf (hOk _ _ ⟨rfl, hMoved⟩ hAgree)
  · cases hNone.symm.trans hMoved

/-- **The slots are replaced whole or not at all.** Only the staging file can be left behind. What
is stopped before the old mapping is released leaves the store as it was; what is stopped behind it
leaves the placeholder. -/
theorem wp_rewrite {Q : Unit → SlotFile Id V → Disk → Prop} (hPath : f.path = path)
    (hOk : ∀ f' d', Shows f' d' path (pairs.map .commit) [] →
      Disk.AgreeOff [path, path ++ COMPACT_SUFFIX] d d' → Q () f' d')
    (hStop : ∀ e f' d', f' = f ∧ d' path = d path ∨
        f' = { f with mmap := ⟨[0], none⟩ } ∧
          (d' path = d path ∨ d' path = some (image (pairs.map .commit) [])) →
      Disk.AgreeOff [path, path ++ COMPACT_SUFFIX] d d' → C e f' d') :
    Method.wp (rewrite pairs) f d Q A C := by
  have hNe : path ≠ path ++ COMPACT_SUFFIX := (append_suffix_ne (by decide) path).symm
  have hSub : [path ++ COMPACT_SUFFIX] ⊆ [path, path ++ COMPACT_SUFFIX] := by simp
  have hSame : ∀ d', Disk.AgreeOff [path ++ COMPACT_SUFFIX] d d' → d' path = d path :=
    fun d' h => h _ (by simpa using hNe)
  rw [rewrite_eq]
  refine Method.wp_bind (wp_stage hPath (fun d₁ hStaged hAgree => ?_) fun e d' h =>
    hStop e f d' (Or.inl ⟨rfl, hSame d' h⟩) (h.mono hSub))
  refine wp_install hPath hStaged (fun f' d' hShows h =>
    hOk f' d' hShows ((hAgree.mono hSub).trans h))
    fun e d' hLeft h => hStop e _ d' (Or.inr ⟨rfl, ?_⟩) ((hAgree.mono hSub).trans h)
  rwa [← hSame d₁ hAgree]

end Replacing

end SlotFile

end MultimodalDb
