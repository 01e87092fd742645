import MultimodalDb.Generic.SlotFileRules

/-!
# Slot files behind their disk

A store keeps the mapping it has when an append fails: the file on disk may be longer than what is
mapped, by part of a slot or by whole slots that nobody took. `Behind` is what holds of a mapping in
every state between two calls. In-place stores change one slot of what is mapped, and an append maps
the whole file again, so that the slots there were stay where they are, what was left behind them
comes into view, and the new positions lie behind all of it (`Extended`).
-/

namespace MultimodalDb

open Bytes

namespace SlotFile

variable {Id V : Type} [MmapFieldValue Id] [MmapFieldValue V]

/-- The mapping shows slots and a tail, and the file on disk goes on behind them. -/
def Behind (f : SlotFile Id V) (d : Disk) (path : Path) (slots : List (Slot Id V)) (tail : Bytes) :
    Prop :=
  f = ⟨⟨image slots tail, some path⟩, path⟩ ∧ ∃ rest, d path = some (image slots tail ++ rest)

variable {f : SlotFile Id V} {d d' : Disk} {path : Path} {slots : List (Slot Id V)} {tail : Bytes}

theorem Shows.behind (h : Shows f d path slots tail) : Behind f d path slots tail :=
  ⟨h.1, [], by rw [h.2, List.append_nil]⟩

/-- A file that is shown, under the slots its mapping is known by. -/
theorem Shows.behind_of {slots' : List (Slot Id V)} {tail' : Bytes}
    (hShows : Shows f d path slots' tail')
    (h : f = ⟨⟨image slots tail, some path⟩, path⟩) : Behind f d path slots tail := by
  refine ⟨h, [], ?_⟩
  have hSame := hShows.1.symm.trans h
  simp only [SlotFile.mk.injEq, Mapping.mk.injEq] at hSame
  rw [List.append_nil, ← hSame.1.1, hShows.2]

/-- The other files do not matter. -/
theorem Behind.frame (h : Behind f d path slots tail) (hSame : d' path = d path) :
    Behind f d' path slots tail := by
  obtain ⟨hFile, rest, hDisk⟩ := h
  exact ⟨hFile, rest, hSame.trans hDisk⟩

theorem Behind.extend (h : Behind f d path slots tail) (bytes : Bytes) :
    Behind f (d.extend path bytes) path slots tail := by
  obtain ⟨hFile, rest, hDisk⟩ := h
  refine ⟨hFile, rest ++ bytes, ?_⟩
  rw [Disk.extend_self, hDisk, Option.map_some, List.append_assoc]

/-! ## Stores in place -/

section InPlace

variable {ε : Type} {position : Nat} {slot : Slot Id V}
variable {Q : Unit → SlotFile Id V → Disk → Prop} {A C : Stop ε → SlotFile Id V → Disk → Prop}

theorem wp_storeBehind {start : Nat} {bytes : Bytes} {slots' : List (Slot Id V)}
    (h : Behind f d path slots tail) (hRoom : start + bytes.length ≤ (image slots tail).length)
    (hNew : splice (image slots tail) start bytes = image slots' tail)
    (hOk : ∀ f' d', Behind f' d' path slots' tail → Q () f' d') (hCrash : ∀ d', C .crash f d') :
    Method.wp (storeAt start bytes) f d Q A C := by
  obtain ⟨rfl, rest, hFile⟩ := h
  refine Method.wp_bind (Method.wp_self
    (Method.wp_bind (Method.wp_store rfl hRoom ?_ fun n => hCrash _)))
  rw [hNew]
  refine Method.wp_modifySelf (hOk _ _ ⟨rfl, rest, ?_⟩)
  rw [Disk.overwrite_self, hFile, Option.map_some, splice_append_left _ hRoom, hNew]

theorem wp_writeValueBehind {value : V} (h : Behind f d path slots tail)
    (hSlot : slots[position]? = some slot)
    (hOk : ∀ f' d', Behind f' d' path (slots.set position { slot with value := value }) tail →
      Q () f' d')
    (hCrash : ∀ d', C .crash f d') : Method.wp (writeValue position value) f d Q A C := by
  refine wp_storeBehind h ?_ (splice_image_value hSlot value) hOk hCrash
  have hEnd := slot_end hSlot
  have hWidth : slotWidth Id V = idWidth Id + valueWidth V + 1 := rfl
  rw [MmapFieldValue.length_writeLe, length_image]
  show HEADER_LEN + position * slotWidth Id V + idWidth Id + valueWidth V ≤ _
  omega

theorem wp_clearMarkerBehind (h : Behind f d path slots tail) (hSlot : slots[position]? = some slot)
    (hOk : ∀ f' d', Behind f' d' path (slots.set position { slot with marker := 0 }) tail →
      Q () f' d')
    (hCrash : ∀ d', C .crash f d') : Method.wp (clearMarker position) f d Q A C := by
  refine wp_storeBehind h ?_ (splice_image_marker hSlot 0) hOk hCrash
  have hEnd := slot_end hSlot
  have hWidth : slotWidth Id V = idWidth Id + valueWidth V + 1 := rfl
  rw [List.length_singleton, length_image, slotOffset]
  omega

end InPlace

/-! ## Appends -/

/-- What an append makes of the slots and the tail: the old slots stay in front, and the new
positions, from `first` on, are whole slots behind them. `stray` bytes came into view that are not
of this append; when there are none, and there was no tail, the new slots follow the old ones. -/
structure Extended (slots : List (Slot Id V)) (tail : Bytes) (pairs : List (Id × V)) (first : Nat)
    (slots' : List (Slot Id V)) (tail' : Bytes) : Prop where
  kept : slots <+: slots'
  behind : slots.length ≤ first
  whole : first + pairs.length ≤ slots'.length
  short : tail'.length < slotWidth Id V
  size : ∃ stray, slots'.length * slotWidth Id V + tail'.length =
      slots.length * slotWidth Id V + tail.length + (pairs.length * slotWidth Id V + stray) ∧
    (stray = 0 → tail = [] → first = slots.length ∧ slots' = slots ++ pairs.map .commit)

theorem image_split (slots more : List (Slot Id V)) (tail : Bytes) :
    image slots (Column.flat Slot.bytes more ++ tail) = image (slots ++ more) tail := by
  simp [image, List.append_assoc]

/-- Bytes behind a mapping, and an append behind these, as slots and a tail. -/
theorem exists_extended (slots : List (Slot Id V)) (tail rest : Bytes) (pairs : List (Id × V)) :
    ∃ slots' tail', image slots tail ++ rest ++ Column.flat Slot.bytes (pairs.map .commit) =
        image slots' tail' ∧
      Extended slots tail pairs (slots.length + (tail ++ rest).length / slotWidth Id V)
        slots' tail' := by
  have hWidth := slotWidth_pos Id V
  have hBytes : image slots tail ++ rest ++ Column.flat Slot.bytes (pairs.map Slot.commit) =
      image slots (tail ++ rest ++ Column.flat Slot.bytes (pairs.map Slot.commit)) := by
    simp only [image, List.append_assoc]
  by_cases hNone : tail ++ rest = []
  · obtain ⟨rfl, rfl⟩ := List.append_eq_nil_iff.mp hNone
    refine ⟨slots ++ pairs.map .commit, [], ?_, List.prefix_append ..,
      by simp, by simp, hWidth, 0, ?_, fun _ _ => ⟨by simp, rfl⟩⟩
    · rw [hBytes, ← image_split, List.append_nil, List.append_nil, List.nil_append]
    · rw [List.length_append, List.length_map, Nat.add_mul]
      simp
  · obtain ⟨more, tail', hMore, hTail'⟩ := Column.exists_flat hWidth (@Slot.exists_bytes Id V _ _)
      (tail ++ rest ++ Column.flat Slot.bytes (pairs.map Slot.commit))
    have hLen : (tail ++ rest).length + pairs.length * slotWidth Id V =
        more.length * slotWidth Id V + tail'.length := by
      have hBoth := congrArg List.length hMore
      rwa [@List.length_append _ (tail ++ rest), @List.length_append _ (Column.flat _ more),
        length_flat, length_flat, List.length_map] at hBoth
    have hCount : more.length = (tail ++ rest).length / slotWidth Id V + pairs.length := by
      have hDiv : more.length =
          ((tail ++ rest).length + pairs.length * slotWidth Id V) / slotWidth Id V := by
        rw [hLen, Nat.mul_comm, Nat.mul_add_div hWidth, Nat.div_eq_of_lt hTail', Nat.add_zero]
      rw [hDiv, Nat.add_mul_div_right _ _ hWidth]
    refine ⟨slots ++ more, tail', ?_, List.prefix_append .., Nat.le_add_right .., ?_, hTail',
      rest.length, ?_, fun hRest hTail => ?_⟩
    · rw [hBytes, hMore, image_split]
    · rw [@List.length_append _ slots]
      omega
    · rw [List.length_append, Nat.add_mul]
      rw [List.length_append] at hLen
      omega
    · rw [hTail, List.length_eq_zero_iff.mp hRest] at hNone
      exact (hNone rfl).elim

section Append

variable {pairs : List (Id × V)} {Q : List Nat → SlotFile Id V → Disk → Prop}
variable {A C : Stop DurabilityError → SlotFile Id V → Disk → Prop}

/-- **An append under a mapping.** One that returns maps all there is, with its slots at the
positions it reports; one that fails leaves the mapping as it was. -/
theorem wp_appendBehind (h : Behind f d path slots tail)
    (hOk : ∀ f' d' first slots' tail', Behind f' d' path slots' tail' →
      Extended slots tail pairs first slots' tail' → Q (List.range' first pairs.length) f' d')
    (hStop : ∀ e d', Behind f d' path slots tail → C e f d') :
    Method.wp (appendCommittedSlots pairs) f d Q A C := by
  obtain ⟨rest, hDisk⟩ := h.2
  have hPath : f.path = path := by rw [h.1]
  subst hPath
  have hSame : ∀ e, C e f d := fun e => hStop e d h
  have hWidth := slotWidth_pos Id V
  obtain ⟨slots', tail', hImage, hExtended⟩ := exists_extended slots tail rest pairs
  refine Method.wp_bind (Method.wp_self (Method.wp_bind (Method.wp_openFile (fun _ _ => ?_)
    (fun hNone => nomatch hNone.symm.trans hDisk) hSame)))
  have hLen : (image slots tail ++ rest).length = HEADER_LEN +
      ((slots.length + (tail ++ rest).length / slotWidth Id V) * slotWidth Id V +
        (tail ++ rest).length % slotWidth Id V) := by
    have hDiv := Nat.div_add_mod' (tail ++ rest).length (slotWidth Id V)
    rw [List.length_append, length_image, Nat.add_mul]
    rw [List.length_append] at hDiv ⊢
    omega
  have hGrown : ∀ bytes, Behind f
      (Function.update d f.path (some (image slots tail ++ rest ++ bytes)))
      f.path slots tail := fun bytes => by
    have hMore := h.extend bytes
    rwa [Disk.extend, hDisk, Option.map_some] at hMore
  refine Method.wp_bind (wp_appendEachSlot hDisk hLen (Nat.mod_lt _ hWidth) ?_ fun e bytes =>
    hStop e _ (hGrown bytes))
  have hFull := hGrown (Column.flat Slot.bytes (pairs.map .commit))
  rw [hImage] at hFull ⊢
  refine Method.wp_bind (Method.wp_openFile (fun _ _ => ?_) (fun hNone => ?_) fun e =>
    hStop e _ hFull)
  · refine Method.wp_bind (Method.wp_mapFile ?_ fun e => hStop e _ hFull)
    rw [Function.update_self, Option.getD_some]
    refine Method.wp_bind (Method.wp_modifySelf
      (Method.wp_pure (hOk _ _ _ slots' tail' ?_ hExtended)))
    exact ⟨rfl, [], by rw [Function.update_self, List.append_nil]⟩
  · rw [Function.update_self] at hNone
    cases hNone

end Append

end SlotFile

end MultimodalDb
