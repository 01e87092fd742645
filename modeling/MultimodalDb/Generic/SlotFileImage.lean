import MultimodalDb.Generic.SlotFile
import Mathlib.Data.List.Induction

/-!
# Slot files as lists of slots

A file with a valid header is the image of a list of slots and a tail shorter than a slot, and every
such file is one (`exists_image`). On an image the byte arithmetic of the slot file is arithmetic on
the list: `readValue` is a lookup by position, overwriting a value or a marker is `List.set`, and
the committed pairs give the last committed slot of each id (`lookup_pairsBefore`).
-/

namespace MultimodalDb

open Bytes

variable {Id V : Type}

namespace Slot

/-- A committed slot. -/
def commit (pair : Id × V) : Slot Id V := ⟨pair.1, pair.2, SlotFile.COMMITTED⟩

variable [MmapFieldValue Id] [MmapFieldValue V]

def bytes (s : Slot Id V) : Bytes :=
  MmapFieldValue.writeLe s.id ++ (MmapFieldValue.writeLe s.value ++ [s.marker])

@[simp] theorem length_bytes (s : Slot Id V) : s.bytes.length = SlotFile.slotWidth Id V := by
  simp [bytes, SlotFile.slotWidth, SlotFile.idWidth, SlotFile.valueWidth]
  omega

/-- Every byte string as long as a slot spells one. -/
theorem exists_bytes (bs : Bytes) (h : bs.length = SlotFile.slotWidth Id V) :
    ∃ s : Slot Id V, s.bytes = bs := by
  obtain ⟨idBytes, hId⟩ : ∃ idBytes, idBytes = bs.take (SlotFile.idWidth Id) := ⟨_, rfl⟩
  obtain ⟨rest, hRest⟩ : ∃ rest, rest = bs.drop (SlotFile.idWidth Id) := ⟨_, rfl⟩
  have hIdLen : idBytes.length = SlotFile.idWidth Id := by
    rw [hId, List.length_take, h, SlotFile.slotWidth]
    omega
  have hRestLen : rest.length = SlotFile.valueWidth V + 1 := by
    rw [hRest, List.length_drop, h, SlotFile.slotWidth]
    omega
  have hValueLen : (rest.take (SlotFile.valueWidth V)).length = SlotFile.valueWidth V :=
    List.length_take_of_le (by omega)
  obtain ⟨marker, hMarker⟩ := List.length_eq_one_iff.mp
    (by rw [List.length_drop, hRestLen]; omega : (rest.drop (SlotFile.valueWidth V)).length = 1)
  refine ⟨⟨MmapFieldValue.readLe idBytes,
    MmapFieldValue.readLe (rest.take (SlotFile.valueWidth V)), marker⟩, ?_⟩
  rw [bytes, MmapFieldValue.writeLe_readLe _ hIdLen, MmapFieldValue.writeLe_readLe _ hValueLen,
    ← hMarker, List.take_append_drop, hId, hRest, List.take_append_drop]

theorem slice_id (s : Slot Id V) :
    slice s.bytes 0 (SlotFile.idWidth Id) = MmapFieldValue.writeLe s.id := by
  have h :=
    slice_middle [] (MmapFieldValue.writeLe s.id) (MmapFieldValue.writeLe s.value ++ [s.marker])
  rwa [MmapFieldValue.length_writeLe] at h

theorem slice_value (s : Slot Id V) :
    slice s.bytes (SlotFile.idWidth Id) (SlotFile.valueWidth V) =
      MmapFieldValue.writeLe s.value := by
  have h := slice_middle (MmapFieldValue.writeLe s.id) (MmapFieldValue.writeLe s.value) [s.marker]
  rwa [MmapFieldValue.length_writeLe, MmapFieldValue.length_writeLe] at h

theorem splice_value (s : Slot Id V) (value : V) :
    splice s.bytes (SlotFile.idWidth Id) (MmapFieldValue.writeLe value) =
      ({ s with value := value } : Slot Id V).bytes := by
  have h := splice_middle (MmapFieldValue.writeLe s.id) (MmapFieldValue.writeLe s.value) [s.marker]
    ((MmapFieldValue.length_writeLe value).trans (MmapFieldValue.length_writeLe s.value).symm)
  rwa [MmapFieldValue.length_writeLe] at h

theorem splice_marker (s : Slot Id V) (marker : UInt8) :
    splice s.bytes (SlotFile.idWidth Id + SlotFile.valueWidth V) [marker] =
      ({ s with marker := marker } : Slot Id V).bytes := by
  have h := splice_middle (MmapFieldValue.writeLe s.id ++ MmapFieldValue.writeLe s.value) [s.marker]
    [] (rfl : [marker].length = [s.marker].length)
  rw [List.length_append, MmapFieldValue.length_writeLe, MmapFieldValue.length_writeLe] at h
  simpa only [bytes, List.append_nil, List.append_assoc] using h

theorem getElem?_marker (s : Slot Id V) :
    s.bytes[SlotFile.idWidth Id + SlotFile.valueWidth V]? = some s.marker := by
  rw [bytes, ← List.append_assoc, List.getElem?_append_right (by simp)]
  simp

end Slot

namespace SlotFile

/-! ## The last committed slot of an id -/

/-- Slot `position` is the last committed one that carries `id`, and holds `value`. -/
def LastCommitted (slots : List (Slot Id V)) (id : Id) (position : Nat) (value : V) : Prop :=
  slots[position]? = some ⟨id, value, COMMITTED⟩ ∧
    ∀ q s, position < q → slots[q]? = some s → s.marker = COMMITTED → s.id ≠ id

/-- No committed slot carries `id`. -/
def Unclaimed (slots : List (Slot Id V)) (id : Id) : Prop :=
  ∀ s ∈ slots, s.marker = COMMITTED → s.id ≠ id

theorem LastCommitted.unique {slots : List (Slot Id V)} {id : Id} {p q : Nat} {v w : V}
    (h : LastCommitted slots id p v) (h' : LastCommitted slots id q w) : p = q ∧ v = w := by
  have hLe : ∀ {p q v w}, LastCommitted slots id p v → LastCommitted slots id q w → q ≤ p := by
    intro p q v w h h'
    by_contra hLt
    exact h.2 q _ (by omega) h'.1 rfl rfl
  obtain rfl := Nat.le_antisymm (hLe h' h) (hLe h h')
  have hSlot := h.1.symm.trans h'.1
  simp only [Option.some.injEq, Slot.mk.injEq, true_and, and_true] at hSlot
  exact ⟨rfl, hSlot⟩

theorem LastCommitted.not_unclaimed {slots : List (Slot Id V)} {id : Id} {p : Nat} {v : V}
    (h : LastCommitted slots id p v) : ¬ Unclaimed slots id := fun hNone =>
  hNone _ (List.mem_of_getElem? h.1) rfl rfl

/-- A committed slot at the end is the last one of its id. -/
theorem lastCommitted_snoc_self (slots : List (Slot Id V)) (pair : Id × V) :
    LastCommitted (slots ++ [.commit pair]) pair.1 slots.length pair.2 := by
  refine ⟨by simp [Slot.commit], fun q s hq hs => ?_⟩
  have hLen := (List.getElem?_eq_some_iff.mp hs).1
  rw [List.length_append, List.length_singleton] at hLen
  omega

/-- A slot at the end changes nothing for an id it does not commit. -/
theorem LastCommitted.snoc {slots : List (Slot Id V)} {id : Id} {p : Nat} {v : V}
    (h : LastCommitted slots id p v) {s : Slot Id V} (hs : s.marker = COMMITTED → s.id ≠ id) :
    LastCommitted (slots ++ [s]) id p v := by
  have hp : p < slots.length := (List.getElem?_eq_some_iff.mp h.1).1
  refine ⟨by rw [List.getElem?_append_left hp, h.1], fun q t hq ht hMark => ?_⟩
  by_cases hIn : q < slots.length
  · rw [List.getElem?_append_left hIn] at ht
    exact h.2 q t hq ht hMark
  · have hLen := (List.getElem?_eq_some_iff.mp ht).1
    rw [List.length_append, List.length_singleton] at hLen
    obtain rfl : q = slots.length := by omega
    rw [List.getElem?_concat_length] at ht
    cases ht
    exact hs hMark

theorem Unclaimed.snoc {slots : List (Slot Id V)} {id : Id} (h : Unclaimed slots id)
    {s : Slot Id V} (hs : s.marker = COMMITTED → s.id ≠ id) : Unclaimed (slots ++ [s]) id := by
  intro t ht
  rcases List.mem_append.mp ht with ht | ht
  · exact h t ht
  · obtain rfl := List.mem_singleton.mp ht
    exact hs

theorem lastCommitted_or_unclaimed (slots : List (Slot Id V)) (id : Id) :
    (∃ p v, LastCommitted slots id p v) ∨ Unclaimed slots id := by
  induction slots using List.reverseRecOn with
  | nil => exact Or.inr fun s hs => nomatch hs
  | append_singleton slots s ih =>
    by_cases hs : s.marker = COMMITTED → s.id ≠ id
    · rcases ih with ⟨p, v, h⟩ | h
      · exact Or.inl ⟨p, v, h.snoc hs⟩
      · exact Or.inr (h.snoc hs)
    · push Not at hs
      obtain ⟨hMark, rfl⟩ := hs
      refine Or.inl ⟨slots.length, s.value, ?_⟩
      have h := lastCommitted_snoc_self slots (s.id, s.value)
      rwa [show Slot.commit (s.id, s.value) = s from by rw [Slot.commit, ← hMark]] at h

/-- Overwriting the value of the last slot. -/
theorem LastCommitted.set_value {slots : List (Slot Id V)} {id : Id} {p : Nat} {v : V}
    (h : LastCommitted slots id p v) (w : V) :
    LastCommitted (slots.set p ⟨id, w, COMMITTED⟩) id p w := by
  have hp : p < slots.length := (List.getElem?_eq_some_iff.mp h.1).1
  refine ⟨List.getElem?_set_self hp, fun q s hq hs => ?_⟩
  rw [List.getElem?_set_ne (by omega)] at hs
  exact h.2 q s hq hs

/-- Overwriting another slot, which does not commit this id. -/
theorem LastCommitted.set {slots : List (Slot Id V)} {id : Id} {p q : Nat} {v : V}
    (h : LastCommitted slots id p v) (hNe : q ≠ p) {t : Slot Id V}
    (ht : t.marker = COMMITTED → t.id ≠ id) : LastCommitted (slots.set q t) id p v := by
  refine ⟨by rw [List.getElem?_set_ne hNe, h.1], fun n s hn hs hMark => ?_⟩
  by_cases hnq : q = n
  · subst hnq
    have hIn := (List.getElem?_eq_some_iff.mp hs).1
    rw [List.length_set] at hIn
    rw [List.getElem?_set_self hIn] at hs
    cases hs
    exact ht hMark
  · rw [List.getElem?_set_ne hnq] at hs
    exact h.2 n s hn hs hMark

/-- Overwriting the slot of another id. -/
theorem LastCommitted.set_other {slots : List (Slot Id V)} {id other : Id} {p q : Nat} {v w : V}
    (h : LastCommitted slots id p v) (hOther : LastCommitted slots other q w) (hNe : id ≠ other)
    {t : Slot Id V} (ht : t.id = other) : LastCommitted (slots.set q t) id p v := by
  refine h.set (fun hEq => ?_) (fun _ hId => hNe (hId.symm.trans ht))
  have hSlot := hOther.1.symm.trans (hEq ▸ h.1)
  simp only [Option.some.injEq, Slot.mk.injEq] at hSlot
  exact hNe hSlot.1.symm

/-- Slots of other ids behind the list change nothing. -/
theorem LastCommitted.append {slots : List (Slot Id V)} {id : Id} {p : Nat} {v : V}
    (h : LastCommitted slots id p v) {pairs : List (Id × V)} (hNot : id ∉ pairs.map Prod.fst) :
    LastCommitted (slots ++ pairs.map .commit) id p v := by
  induction pairs using List.reverseRecOn with
  | nil => simpa using h
  | append_singleton pairs pair ih =>
    rw [List.map_append, List.mem_append, not_or, List.map_singleton, List.mem_singleton] at hNot
    rw [List.map_append, ← List.append_assoc]
    exact (ih hNot.1).snoc fun _ => Ne.symm hNot.2

/-- Committed slots of distinct ids behind the list are the last ones of theirs. -/
theorem lastCommitted_append (slots : List (Slot Id V)) {pairs : List (Id × V)}
    (hIds : (pairs.map Prod.fst).Nodup) {i : Nat} {id : Id} {v : V}
    (hi : pairs[i]? = some (id, v)) :
    LastCommitted (slots ++ pairs.map .commit) id (slots.length + i) v := by
  induction pairs using List.reverseRecOn with
  | nil => cases hi
  | append_singleton pairs pair ih =>
    rw [List.map_append, List.map_singleton, List.nodup_append] at hIds
    obtain ⟨hFront, -, hNew⟩ := hIds
    rw [List.map_append, ← List.append_assoc]
    by_cases hIn : i < pairs.length
    · rw [List.getElem?_append_left hIn] at hi
      refine (ih hFront hi).snoc fun _ => Ne.symm ?_
      exact hNew _ (List.mem_map_of_mem (List.mem_of_getElem? hi)) _ (List.mem_singleton_self _)
    · have hEnd := (List.getElem?_eq_some_iff.mp hi).1
      rw [List.length_append, List.length_singleton] at hEnd
      obtain rfl : i = pairs.length := by omega
      rw [List.getElem?_concat_length] at hi
      cases hi
      have h := lastCommitted_snoc_self (slots ++ pairs.map .commit) (id, v)
      rwa [List.length_append, List.length_map] at h

variable [MmapFieldValue Id] [MmapFieldValue V]

theorem slotWidth_pos (Id V : Type) [MmapFieldValue Id] [MmapFieldValue V] :
    0 < slotWidth Id V :=
  Nat.succ_pos _

def header : Bytes := MAGIC ++ ofU32 SCHEMA_VERSION

theorem length_header : header.length = HEADER_LEN := by
  rw [header, List.length_append, length_ofU32]
  rfl

/-- The bytes of a slot file: the header, whole slots, and a tail that is not one. -/
def image (slots : List (Slot Id V)) (tail : Bytes) : Bytes :=
  header ++ (Column.flat Slot.bytes slots ++ tail)

theorem length_flat (slots : List (Slot Id V)) :
    (Column.flat Slot.bytes slots).length = slots.length * slotWidth Id V :=
  Column.length_flat Slot.length_bytes slots

@[simp] theorem length_image (slots : List (Slot Id V)) (tail : Bytes) :
    (image slots tail).length = HEADER_LEN + (slots.length * slotWidth Id V + tail.length) := by
  rw [image, List.length_append, List.length_append, length_header, length_flat]

theorem image_append (slots more : List (Slot Id V)) :
    image slots [] ++ Column.flat Slot.bytes more = image (slots ++ more) [] := by
  simp [image, List.append_assoc]

/-! ## The header -/

@[simp] theorem readHeader_image (slots : List (Slot Id V)) (tail : Bytes) :
    readHeader (image slots tail) = .ok () := by
  have hMagic : slice (image slots tail) 0 8 = MAGIC := by
    rw [image, header, List.append_assoc]
    rfl
  have hVersion : slice (image slots tail) 8 4 = ofU32 SCHEMA_VERSION := by
    have h := slice_middle MAGIC (ofU32 SCHEMA_VERSION) (Column.flat Slot.bytes slots ++ tail)
    rw [image, header, List.append_assoc]
    exact h
  unfold readHeader
  rw [hMagic, hVersion, toU32_ofU32, if_neg (by simp), if_neg (by simp)]

/-- Every file with a valid header is an image. -/
theorem exists_image {bytes : Bytes} (h : readHeader bytes = .ok ()) :
    ∃ (slots : List (Slot Id V)) (tail : Bytes),
      bytes = image slots tail ∧ tail.length < slotWidth Id V := by
  unfold readHeader at h
  split at h
  · cases h
  · next hMagic =>
    rw [not_or, not_lt, not_not] at hMagic
    obtain ⟨hLong, hMagic⟩ := hMagic
    dsimp only at h
    split at h
    · cases h
    · next hVersion =>
      rw [not_not] at hVersion
      have hField : (slice bytes 8 4).length = 4 := length_slice hLong
      have hHeader : bytes.take HEADER_LEN = header := by
        have hSplit : bytes.take HEADER_LEN = slice bytes 0 8 ++ slice bytes 8 4 := by
          unfold slice HEADER_LEN
          rw [List.drop_zero, ← List.take_add]
        rw [hSplit, hMagic, ← ofU32_toU32 hField, hVersion, header]
      obtain ⟨slots, tail, hBody, hTail⟩ := Column.exists_flat (slotWidth_pos Id V)
        (@Slot.exists_bytes Id V _ _) (bytes.drop HEADER_LEN)
      refine ⟨slots, tail, ?_, hTail⟩
      rw [image, ← hHeader, ← hBody, List.take_append_drop]

/-! ## Reading and overwriting one slot -/

section OneSlot

variable {slots : List (Slot Id V)} {tail : Bytes} {position : Nat} {s : Slot Id V}

theorem slot_end (h : slots[position]? = some s) :
    position * slotWidth Id V + slotWidth Id V ≤ slots.length * slotWidth Id V := by
  rw [← Nat.succ_mul]
  exact Nat.mul_le_mul_right _ (List.getElem?_eq_some_iff.mp h).1

/-- A window inside a slot is a window of that slot's bytes. -/
theorem slice_image (h : slots[position]? = some s) {offset len : Nat}
    (hIn : offset + len ≤ slotWidth Id V) :
    slice (image slots tail) (slotOffset Id V position + offset) len =
      slice s.bytes offset len := by
  have hEnd := slot_end h
  rw [image, slotOffset, Nat.add_assoc, slice_append_right _ _ (by rw [length_header]; omega),
    length_header, Nat.add_sub_cancel_left, slice_append_left _ (by rw [length_flat]; omega),
    Column.slice_flat Slot.length_bytes h hIn]

theorem splice_image (h : slots[position]? = some s) {s' : Slot Id V} {offset : Nat}
    {bytes : Bytes} (hIn : offset + bytes.length ≤ slotWidth Id V)
    (hSlot : splice s.bytes offset bytes = s'.bytes) :
    splice (image slots tail) (slotOffset Id V position + offset) bytes =
      image (slots.set position s') tail := by
  have hEnd := slot_end h
  rw [image, slotOffset, Nat.add_assoc, splice_append_right _ _ (by rw [length_header]; omega),
    length_header, Nat.add_sub_cancel_left, splice_append_left _ (by rw [length_flat]; omega),
    Column.splice_flat Slot.length_bytes h hIn hSlot, image]

theorem readValue_image (h : slots[position]? = some s) (path : Option Path) (at_ : Path) :
    readValue (⟨⟨image slots tail, path⟩, at_⟩ : SlotFile Id V) position = .ok s.value := by
  have hEnd := slot_end h
  have hIn : idWidth Id + valueWidth V ≤ slotWidth Id V := Nat.le_succ _
  have hRoom : slotOffset Id V position + idWidth Id + valueWidth V ≤
      (image slots tail).length := by
    rw [length_image, slotOffset]
    omega
  unfold readValue
  rw [window, if_pos hRoom, slice_image h hIn, Slot.slice_value]
  simp

theorem isCommitted_image (h : slots[position]? = some s) :
    isCommitted Id V (image slots tail) position = decide (s.marker = COMMITTED) := by
  have hIn : idWidth Id + valueWidth V + 1 ≤ slotWidth Id V := le_rfl
  have hMarker : ∀ (bs : Bytes) (n : Nat), bs[n]? = (slice bs n 1)[0]? := fun bs n => by
    simp [slice, List.getElem?_drop]
  unfold isCommitted
  rw [Nat.add_assoc, hMarker, slice_image h hIn, ← hMarker, Slot.getElem?_marker]
  simp

/-- The marker is the last byte, so only it decides whether a store into it commits. -/
theorem splice_image_value (h : slots[position]? = some s) (value : V) :
    splice (image slots tail) (slotOffset Id V position + idWidth Id)
        (MmapFieldValue.writeLe value) =
      image (slots.set position { s with value := value }) tail := by
  refine splice_image h ?_ (Slot.splice_value s value)
  rw [MmapFieldValue.length_writeLe]
  exact Nat.le_succ _

theorem splice_image_marker (h : slots[position]? = some s) (marker : UInt8) :
    splice (image slots tail) (slotOffset Id V position + idWidth Id + valueWidth V) [marker] =
      image (slots.set position { s with marker := marker }) tail := by
  rw [Nat.add_assoc]
  exact splice_image h le_rfl (Slot.splice_marker s marker)

end OneSlot

/-! ## Counting slots -/

section Counts

variable (slots : List (Slot Id V)) (tail : Bytes) (path : Option Path) (at_ : Path)

theorem bodyLen_image : bodyLen (⟨⟨image slots tail, path⟩, at_⟩ : SlotFile Id V) =
    .ok (slots.length * slotWidth Id V + tail.length) := by
  unfold bodyLen
  rw [length_image, if_pos (Nat.le_add_right ..), Nat.add_sub_cancel_left]

theorem slotCount_image (hTail : tail.length < slotWidth Id V) :
    slotCount (⟨⟨image slots tail, path⟩, at_⟩ : SlotFile Id V) = .ok slots.length := by
  unfold slotCount
  rw [bodyLen_image]
  refine congrArg Except.ok ?_
  rw [Nat.mul_comm, Nat.mul_add_div (slotWidth_pos Id V), Nat.div_eq_of_lt hTail, Nat.add_zero]

theorem trailingPartialBytes_image (hTail : tail.length < slotWidth Id V) :
    trailingPartialBytes (⟨⟨image slots tail, path⟩, at_⟩ : SlotFile Id V) = .ok tail.length := by
  unfold trailingPartialBytes
  rw [bodyLen_image]
  refine congrArg Except.ok ?_
  rw [Nat.add_comm, Nat.add_mul_mod_self_right, Nat.mod_eq_of_lt hTail]

theorem isGapless_image (liveCount : Nat) :
    isGapless (⟨⟨image slots [], path⟩, at_⟩ : SlotFile Id V) liveCount =
      .ok (decide (liveCount = slots.length)) := by
  unfold isGapless
  rw [bodyLen_image, List.length_nil, Nat.add_zero]
  refine congrArg Except.ok (decide_eq_decide.mpr ?_)
  exact Nat.mul_left_inj (slotWidth_pos Id V).ne'

theorem slotBytes_image : slotBytes (⟨⟨image slots tail, path⟩, at_⟩ : SlotFile Id V) =
    .ok (Column.flat Slot.bytes slots ++ tail) := by
  unfold slotBytes
  rw [length_image, if_pos (Nat.le_add_right ..), image, ← length_header, List.drop_left]

end Counts

/-! ## Behind a tail -/

/-- What is read at the position of a slot appended behind a tail: a window that starts in the
tail. -/
theorem readValue_behind (slots : List (Slot Id V)) (tail : Bytes) (slot : Slot Id V)
    (file : Option Path) (at_ : Path) :
    readValue (⟨⟨image slots tail ++ slot.bytes, file⟩, at_⟩ : SlotFile Id V) slots.length =
      .ok (MmapFieldValue.readLe (slice (tail ++ slot.bytes) (idWidth Id) (valueWidth V))) := by
  have hFront : (header ++ Column.flat Slot.bytes slots).length = slotOffset Id V slots.length := by
    rw [List.length_append, length_header, length_flat, slotOffset]
  have hBytes : image slots tail ++ slot.bytes =
      (header ++ Column.flat Slot.bytes slots) ++ (tail ++ slot.bytes) := by
    simp only [image, List.append_assoc]
  have hRoom : idWidth Id + valueWidth V ≤ (tail ++ slot.bytes).length := by
    rw [List.length_append, Slot.length_bytes]
    exact Nat.le_add_left_of_le (Nat.le_succ _)
  unfold readValue
  rw [hBytes, ← hFront, window_append_right, window_eq_some hRoom]

/-- The last byte of the value is outside that window. -/
theorem slice_behind {tail : Bytes} (hTail : tail ≠ []) (id : Id) {front : Bytes}
    (hFront : front.length + 1 = valueWidth V) (rest : Bytes) :
    slice (tail ++ (MmapFieldValue.writeLe id ++ (front ++ rest))) (idWidth Id) (valueWidth V) =
      slice (tail ++ (MmapFieldValue.writeLe id ++ front)) (idWidth Id) (valueWidth V) := by
  have hPos : 0 < tail.length := List.length_pos_iff.mpr hTail
  have hBytes : tail ++ (MmapFieldValue.writeLe id ++ (front ++ rest)) =
      (tail ++ (MmapFieldValue.writeLe id ++ front)) ++ rest := by
    simp only [List.append_assoc]
  rw [hBytes, slice_append_left]
  rw [List.length_append, List.length_append, MmapFieldValue.length_writeLe]
  show MmapFieldValue.byteWidth Id + _ ≤ _
  omega

/-! ## The committed pairs -/

/-- **The pairs found in a file** are the last committed slots among those looked at. -/
theorem lookup_pairsBefore [DecidableEq Id] (slots : List (Slot Id V)) (tail : Bytes) {n : Nat}
    (hn : n ≤ slots.length) (id : Id) :
    match (pairsBefore (image slots tail) n).lookup id with
    | some (position, value) => LastCommitted (slots.take n) id position value
    | none => Unclaimed (slots.take n) id := by
  induction n with
  | zero =>
    rw [List.take_zero]
    exact fun s hs => nomatch hs
  | succ n ih =>
    have ih := ih (by omega)
    have hSlot : slots[n]? = some slots[n] := List.getElem?_eq_getElem hn
    have hLen : (slots.take n).length = n := List.length_take_of_le (by omega)
    obtain ⟨s, hs⟩ : ∃ s, s = slots[n] := ⟨_, rfl⟩
    rw [← hs] at hSlot
    have hTake : slots.take (n + 1) = slots.take n ++ [s] := by
      rw [List.take_add_one, hSlot]
      rfl
    have hFold : (pairsBefore (image slots tail) (n + 1) : AList fun _ : Id => Nat × V) =
        if s.marker = COMMITTED then
          (pairsBefore (image slots tail) n).insert s.id (n, s.value)
        else pairsBefore (image slots tail) n := by
      have hId : slice (image slots tail) (slotOffset Id V n) (idWidth Id) =
          MmapFieldValue.writeLe s.id := by
        have h : 0 + idWidth Id ≤ slotWidth Id V := by rw [slotWidth]; omega
        exact (slice_image hSlot h).trans (Slot.slice_id s)
      have hValue : slice (image slots tail) (slotOffset Id V n + idWidth Id) (valueWidth V) =
          MmapFieldValue.writeLe s.value :=
        (slice_image hSlot (Nat.le_succ _)).trans (Slot.slice_value s)
      rw [pairsBefore, List.range_succ, List.foldl_append, ← pairsBefore, List.foldl_cons,
        List.foldl_nil, isCommitted_image hSlot]
      simp only [hId, hValue, MmapFieldValue.readLe_writeLe, decide_eq_true_eq]
    rw [hFold, hTake]
    by_cases hMark : s.marker = COMMITTED
    · rw [if_pos hMark]
      by_cases hId : id = s.id
      · subst hId
        rw [AList.lookup_insert]
        have hLast := lastCommitted_snoc_self (slots.take n) (s.id, s.value)
        rw [hLen] at hLast
        have hCommit : Slot.commit (s.id, s.value) = s := by
          rw [Slot.commit, ← hMark]
        rwa [hCommit] at hLast
      · rw [AList.lookup_insert_ne hId]
        have hNe : s.marker = COMMITTED → s.id ≠ id := fun _ => Ne.symm hId
        split <;> next h => rw [h] at ih; exact ih.snoc hNe
    · rw [if_neg hMark]
      have hNe : s.marker = COMMITTED → s.id ≠ id := fun h => absurd h hMark
      split <;> next h => rw [h] at ih; exact ih.snoc hNe

end SlotFile

end MultimodalDb
