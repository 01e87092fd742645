import MultimodalDb.Lib.Bytes
import Mathlib.Data.Option.Basic
import Mathlib.Data.List.Lex

/-!
# The codec

Every on-disk and on-wire encoding of the crate goes through one `bincode` configuration: fixed
width little-endian integers, a `u64` element count before a sequence, a one-byte tag before an
option, a `u32` index before an enum's fields, nothing before a struct's, and no trailing bytes
accepted. `Serde` is what deriving `Serialize` and `Deserialize` gives a type under it: an encoder,
a decoder of a value at the front of a byte string, and the two laws that make them inverse.

The instances are assembled from two parts: `fixedBytes`, a fixed number of raw bytes, and `refine`,
which carries an encoding along a conversion one side of which may refuse. An integer, a `bool`, a
`Uuid`, an enum and a struct are all a `refine` of something simpler.
-/

namespace MultimodalDb

open Bytes

/-- The derived encoding of a type. -/
class Serde (α : Type) where
  put : α → Option Bytes
  get : Bytes → Option (α × Bytes)
  get_put : ∀ {a bs}, put a = some bs → ∀ rest, get (bs ++ rest) = some (a, rest)
  put_get : ∀ {bs a rest}, get bs = some (a, rest) → ∃ front, put a = some front ∧
    bs = front ++ rest

namespace Codec

variable {α β : Type}

/-! ## The two entry points -/

def encode [Serde α] (value : α) : Option Bytes := Serde.put value

/-- Decode a value from exactly these bytes; anything left over is an error. -/
def decode [Serde α] (bytes : Bytes) : Option α :=
  match Serde.get bytes with
  | some (value, []) => some value
  | _ => none

/-- **What decodes to a value is its encoding, and nothing else.** -/
theorem decode_eq_some [Serde α] {bytes : Bytes} {value : α} :
    decode bytes = some value ↔ encode value = some bytes := by
  unfold decode encode
  constructor
  · intro h
    split at h
    · next found hGet =>
      cases h
      obtain ⟨front, hPut, hBytes⟩ := Serde.put_get hGet
      rw [hPut, hBytes, List.append_nil]
    · cases h
  · intro h
    have hGet := Serde.get_put h []
    rw [List.append_nil] at hGet
    rw [hGet]

theorem encode_injective [Serde α] {a b : α} {bytes : Bytes} (ha : encode a = some bytes)
    (hb : encode b = some bytes) : a = b := by
  rw [← decode_eq_some] at ha hb
  rw [ha] at hb
  exact Option.some.inj hb

/-! ## Parts -/

/-- A fixed number of raw bytes. -/
@[reducible] def fixedBytes (width : Nat) : Serde { bs : Bytes // bs.length = width } where
  put b := some b.val
  get bs := if h : width ≤ bs.length then
    some (⟨bs.take width, List.length_take_of_le h⟩, bs.drop width) else none
  get_put := by
    rintro ⟨b, hb⟩ bs h rest
    cases h
    rw [dif_pos (by rw [List.length_append, hb]; omega)]
    simp only [Option.some.injEq, Prod.mk.injEq, Subtype.mk.injEq]
    exact ⟨by rw [← hb, List.take_left], by rw [← hb, List.drop_left]⟩
  put_get := by
    intro bs a rest h
    split at h
    · cases h
      exact ⟨_, rfl, (List.take_append_drop width bs).symm⟩
    · cases h

/-- The encoding of `f a`, for a conversion `f` undone by `g` where `g` accepts. -/
@[reducible] def refine [Serde β] (f : α → β) (g : β → Option α)
    (hfg : ∀ {a b}, g b = some a ↔ f a = b) :
    Serde α where
  put a := Serde.put (f a)
  get bs := (Serde.get bs).bind fun (b, rest) => (g b).map (·, rest)
  get_put := by
    intro a bs h rest
    rw [Serde.get_put h rest]
    simp [hfg.mpr rfl]
  put_get := by
    intro bs a rest h
    cases hGet : Serde.get (α := β) bs with
    | none => simp [hGet] at h
    | some found =>
      obtain ⟨b, rest'⟩ := found
      simp only [hGet, Option.bind_some, Option.map_eq_some_iff, Prod.mk.injEq] at h
      obtain ⟨a', ha', rfl, rfl⟩ := h
      rw [hfg.mp ha']
      exact Serde.put_get hGet

/-- An integer of `width` bytes, given by its value as a natural number. -/
@[reducible] def fixedInt (width : Nat) (toNat : α → Nat) (ofNat : Nat → α)
    (hlt : ∀ a, toNat a < 256 ^ width)
    (hof : ∀ a, ofNat (toNat a) = a) (hto : ∀ n, n < 256 ^ width → toNat (ofNat n) = n) :
    Serde α :=
  letI := fixedBytes width
  refine (fun a => (⟨leBytes width (toNat a), length_leBytes ..⟩ : { bs // bs.length = width }))
    (fun b => some (ofNat (leValue b.val))) (by
      rintro a ⟨b, hb⟩
      simp only [Option.some.injEq, Subtype.mk.injEq]
      constructor
      · rintro rfl
        rw [hto _ (hb ▸ leValue_lt b), leBytes_leValue hb]
      · rintro rfl
        rw [leValue_leBytes (hlt a), hof])

/-! ## Integers -/

instance : Serde UInt8 :=
  fixedInt 1 UInt8.toNat UInt8.ofNat (fun a => a.toNat_lt) (fun a => UInt8.ofNat_toNat)
    (fun n h => by rw [UInt8.toNat_ofNat']; omega)

instance : Serde UInt16 :=
  fixedInt 2 UInt16.toNat UInt16.ofNat (fun a => a.toNat_lt) (fun a => UInt16.ofNat_toNat)
    (fun n h => by rw [UInt16.toNat_ofNat']; omega)

instance : Serde UInt32 :=
  fixedInt 4 UInt32.toNat UInt32.ofNat (fun a => a.toNat_lt) (fun a => UInt32.ofNat_toNat)
    (fun n h => by rw [UInt32.toNat_ofNat']; omega)

instance : Serde UInt64 :=
  fixedInt 8 UInt64.toNat UInt64.ofNat (fun a => a.toNat_lt) (fun a => UInt64.ofNat_toNat)
    (fun n h => by rw [UInt64.toNat_ofNat']; omega)

/-- An `i64` is its two's complement as a `u64`. -/
instance : Serde Int64 :=
  refine Int64.toUInt64 (fun u => some (Int64.ofUInt64 u)) (by
    rintro ⟨a⟩ b
    simp only [Option.some.injEq, Int64.ofUInt64.injEq]
    exact eq_comm)

instance : Serde Bool :=
  refine (fun b => if b then (1 : UInt8) else 0)
    (fun u => if u = 0 then some false else if u = 1 then some true else none) (by
      rintro (_ | _) u
      · by_cases h0 : u = 0
        · simp [h0]
        · by_cases h1 : u = 1 <;> simp [h0, h1, eq_comm]
      · by_cases h0 : u = 0
        · simp [h0]
        · by_cases h1 : u = 1 <;> simp [h0, h1, eq_comm])

/-- A `usize`, as a `u64`. One that eight bytes do not hold has no encoding. -/
instance : Serde Nat where
  put n := if n < 256 ^ 8 then some (leBytes 8 n) else none
  get bs := if 8 ≤ bs.length then some (leValue (bs.take 8), bs.drop 8) else none
  get_put := by
    intro n bs h rest
    split at h
    · next hn =>
      cases h
      rw [if_pos (by simp), List.take_left' (length_leBytes ..),
        List.drop_left' (length_leBytes ..), leValue_leBytes hn]
    · cases h
  put_get := by
    intro bs n rest h
    split at h
    · next hLong =>
      cases h
      have hTake : (bs.take 8).length = 8 := List.length_take_of_le hLong
      refine ⟨bs.take 8, ?_, (List.take_append_drop 8 bs).symm⟩
      have hLt := leValue_lt (bs.take 8)
      rw [hTake] at hLt
      rw [if_pos hLt, leBytes_leValue hTake]
    · cases h

/-- The variant index of an enum without fields: its place in the list of variants. -/
@[reducible] def enumIndex [DecidableEq α] (variants : List α) (hAll : ∀ a, a ∈ variants)
    (hNodup : variants.Nodup) (hFew : variants.length < 2 ^ 32) : Serde α :=
  refine (fun a => UInt32.ofNat (variants.idxOf a)) (fun u => variants[u.toNat]?) (by
    intro a u
    have hIdx : variants.idxOf a < variants.length := List.idxOf_lt_length_of_mem (hAll a)
    have hNat : (UInt32.ofNat (variants.idxOf a)).toNat = variants.idxOf a := by
      rw [UInt32.toNat_ofNat']
      omega
    constructor
    · intro h
      obtain ⟨hu, rfl⟩ := List.getElem?_eq_some_iff.mp h
      rw [hNodup.idxOf_getElem, UInt32.ofNat_toNat]
    · rintro rfl
      rw [hNat, List.getElem?_eq_getElem hIdx, List.getElem_idxOf])

/-- An enum whose variants have fields: the variant's index as a `u32`, then its fields. -/
@[reducible] def variants {count : Nat} (Fields : Fin count → Type) [∀ i, Serde (Fields i)]
    (hFew : count < 2 ^ 32) : Serde ((i : Fin count) × Fields i) where
  put v := do
    let front ← Serde.put (UInt32.ofNat v.1)
    let rest ← Serde.put v.2
    some (front ++ rest)
  get bs := do
    let (index, rest) ← (Serde.get bs : Option (UInt32 × Bytes))
    if h : index.toNat < count then
      let (fields, rest) ← (Serde.get rest : Option (Fields ⟨index.toNat, h⟩ × Bytes))
      some (⟨⟨index.toNat, h⟩, fields⟩, rest)
    else
      none
  get_put := by
    rintro ⟨i, fields⟩ bs h rest
    obtain ⟨front, hFront, tail, hTail, rfl⟩ : ∃ front, Serde.put (UInt32.ofNat i) = some front ∧
        ∃ tail, Serde.put fields = some tail ∧ front ++ tail = bs := by
      simpa [Option.bind_eq_some_iff] using h
    have hIndex : (UInt32.ofNat i).toNat = i := by
      rw [UInt32.toNat_ofNat']
      omega
    rw [List.append_assoc, Serde.get_put hFront]
    simp only [Option.bind_eq_bind, Option.bind_some]
    have hSame : ∀ j : Fin count, (UInt32.ofNat i).toNat = j → j = i := by
      intro j hj
      ext
      omega
    rw [dif_pos (by rw [hIndex]; exact i.isLt)]
    generalize hj : (⟨(UInt32.ofNat i).toNat, by rw [hIndex]; exact i.isLt⟩ : Fin count) = j
    obtain rfl := hSame j (congrArg Fin.val hj)
    rw [Serde.get_put hTail]
    rfl
  put_get := by
    rintro bs ⟨i, fields⟩ rest h
    simp only [Option.bind_eq_bind, Option.bind_eq_some_iff, Prod.exists] at h
    obtain ⟨index, mid, hIndex, h⟩ := h
    split at h
    · simp only [Option.bind_eq_some_iff, Prod.exists] at h
      obtain ⟨fields', rest', hFields, hEq⟩ := h
      cases hEq
      obtain ⟨front, hFront, rfl⟩ := Serde.put_get hIndex
      obtain ⟨tail, hTail, rfl⟩ := Serde.put_get hFields
      exact ⟨front ++ tail, by simp [hFront, hTail], by rw [List.append_assoc]⟩
    · cases h

/-! ## Structs, options and sequences -/

/-- Fields follow one another. -/
instance [Serde α] [Serde β] : Serde (α × β) where
  put p := do
    let a ← Serde.put p.1
    let b ← Serde.put p.2
    some (a ++ b)
  get bs := do
    let (a, rest) ← Serde.get bs
    let (b, rest) ← Serde.get rest
    some ((a, b), rest)
  get_put := by
    rintro ⟨a, b⟩ bs h rest
    obtain ⟨as, ha, bs', hb, rfl⟩ : ∃ as, Serde.put a = some as ∧ ∃ bs', Serde.put b = some bs' ∧
        as ++ bs' = bs := by
      simpa [Option.bind_eq_some_iff] using h
    rw [List.append_assoc]
    simp [Serde.get_put ha, Serde.get_put hb]
  put_get := by
    rintro bs ⟨a, b⟩ rest h
    simp only [Option.bind_eq_bind, Option.bind_eq_some_iff, Option.some.injEq, Prod.mk.injEq,
      Prod.exists] at h
    obtain ⟨a', mid, ha, b', rest', hb, ⟨rfl, rfl⟩, rfl⟩ := h
    obtain ⟨fa, hfa, rfl⟩ := Serde.put_get ha
    obtain ⟨fb, hfb, rfl⟩ := Serde.put_get hb
    exact ⟨fa ++ fb, by simp [hfa, hfb], by rw [List.append_assoc]⟩

/-- A byte `0`, or a byte `1` and the value. -/
instance [Serde α] : Serde (Option α) where
  put o := o.elim (some [0]) fun a => (Serde.put a).map (1 :: ·)
  get bs := match bs with
    | [] => none
    | tag :: rest => if tag = 0 then some (none, rest)
      else if tag = 1 then (Serde.get rest).map fun (a, rest) => (some a, rest) else none
  get_put := by
    intro o bs h rest
    cases o with
    | none => cases h; rfl
    | some a =>
      obtain ⟨front, hFront, rfl⟩ := Option.map_eq_some_iff.mp h
      simp [Serde.get_put hFront]
  put_get := by
    intro bs o rest h
    cases bs with
    | nil => cases h
    | cons tag bs =>
      dsimp only at h
      split at h
      · next hTag => cases h; exact ⟨[0], rfl, by rw [hTag]; rfl⟩
      · split at h
        · next hTag =>
          obtain ⟨⟨a, rest'⟩, hGet, hEq⟩ := Option.map_eq_some_iff.mp h
          cases hEq
          obtain ⟨front, hFront, rfl⟩ := Serde.put_get hGet
          exact ⟨1 :: front, by simp [hFront], by rw [hTag]; rfl⟩
        · cases h

def putAll [Serde α] : List α → Option Bytes
  | [] => some []
  | a :: as => do
    let front ← Serde.put a
    let rest ← putAll as
    some (front ++ rest)

def getAll [Serde α] : Nat → Bytes → Option (List α × Bytes)
  | 0, bs => some ([], bs)
  | count + 1, bs => do
    let (a, rest) ← Serde.get bs
    let (as, rest) ← getAll count rest
    some (a :: as, rest)

theorem getAll_putAll [Serde α] {as : List α} {bs : Bytes} (h : putAll as = some bs)
    (rest : Bytes) : getAll as.length (bs ++ rest) = some (as, rest) := by
  induction as generalizing bs with
  | nil => cases h; rfl
  | cons a as ih =>
    obtain ⟨front, ha, more, has, rfl⟩ : ∃ front, Serde.put a = some front ∧ ∃ more,
        putAll as = some more ∧ front ++ more = bs := by
      simpa [putAll, Option.bind_eq_some_iff] using h
    rw [List.append_assoc]
    simp [getAll, Serde.get_put ha, ih has]

theorem putAll_getAll [Serde α] {count : Nat} {bs rest : Bytes} {as : List α}
    (h : getAll count bs = some (as, rest)) :
    as.length = count ∧ ∃ front, putAll as = some front ∧ bs = front ++ rest := by
  induction count generalizing bs as with
  | zero =>
    cases h
    exact ⟨rfl, [], rfl, rfl⟩
  | succ count ih =>
    simp only [getAll, Option.bind_eq_bind, Option.bind_eq_some_iff, Option.some.injEq,
      Prod.mk.injEq, Prod.exists] at h
    obtain ⟨a, mid, ha, as', rest', has, rfl, rfl⟩ := h
    obtain ⟨hLen, more, hMore, rfl⟩ := ih has
    obtain ⟨front, hFront, rfl⟩ := Serde.put_get ha
    exact ⟨by simp [hLen], front ++ more, by simp [putAll, hFront, hMore],
      by rw [List.append_assoc]⟩

/-- A sequence is its length as a `u64`, then its elements. -/
instance [Serde α] : Serde (List α) where
  put as := if as.length < 256 ^ 8 then (putAll as).map (leBytes 8 as.length ++ ·) else none
  get bs := if 8 ≤ bs.length then getAll (leValue (bs.take 8)) (bs.drop 8) else none
  get_put := by
    intro as bs h rest
    split at h
    · next hLen =>
      obtain ⟨body, hBody, rfl⟩ := Option.map_eq_some_iff.mp h
      have hCount : (leBytes 8 as.length ++ body ++ rest).take 8 = leBytes 8 as.length := by
        rw [List.append_assoc]
        exact List.take_left' (length_leBytes ..)
      have hElems : (leBytes 8 as.length ++ body ++ rest).drop 8 = body ++ rest := by
        rw [List.append_assoc]
        exact List.drop_left' (length_leBytes ..)
      rw [if_pos (by simp only [List.length_append, length_leBytes]; omega), hCount, hElems,
        leValue_leBytes hLen, getAll_putAll hBody]
    · cases h
  put_get := by
    intro bs as rest h
    split at h
    · next hLong =>
      obtain ⟨hLen, body, hBody, hDrop⟩ := putAll_getAll h
      have hTake : (bs.take 8).length = 8 := List.length_take_of_le hLong
      refine ⟨leBytes 8 as.length ++ body, ?_, ?_⟩
      · have hCount := leValue_lt (bs.take 8)
        rw [hTake, ← hLen] at hCount
        rw [if_pos hCount, hBody]
        rfl
      · rw [hLen, leBytes_leValue hTake, List.append_assoc, ← hDrop, List.take_append_drop]
    · cases h

theorem putAll_bytes (bs : Bytes) : putAll bs = some bs := by
  induction bs with
  | nil => rfl
  | cons b bs ih =>
    have hByte : Serde.put b = some [b] := by
      change some (leBytes 1 b.toNat) = some [b]
      simp [leBytes]
    simp [putAll, hByte, ih]

/-- Valid UTF-8 is the form of one string. -/
theorem fromUTF8?_eq_some {s : String} {bs : Bytes} :
    String.fromUTF8? ⟨bs.toArray⟩ = some s ↔ s.toByteArray.data.toList = bs := by
  unfold String.fromUTF8?
  constructor
  · intro h
    split at h
    · cases h
      rfl
    · cases h
  · rintro rfl
    rw [dif_pos s.isValidUTF8]
    rfl

/-- The bytes of a string's UTF-8 form, after their number. -/
instance : Serde String :=
  refine (fun s => s.toByteArray.data.toList) (fun bs => String.fromUTF8? ⟨bs.toArray⟩)
    fromUTF8?_eq_some

/-- `encode` of a record set fails only on an element or on a length past the `u64` prefix. -/
theorem encode_list_isSome [Serde α] {as : List α} (hLen : as.length < 256 ^ 8)
    (hElems : ∀ a ∈ as, (encode a).isSome) : (encode as).isSome := by
  have hBody : (putAll as).isSome := by
    clear hLen
    induction as with
    | nil => rfl
    | cons a as ih =>
      obtain ⟨front, hFront⟩ := Option.isSome_iff_exists.mp (hElems a List.mem_cons_self)
      obtain ⟨rest, hRest⟩ := Option.isSome_iff_exists.mp
        (ih (fun b hb => hElems b (List.mem_cons_of_mem _ hb)))
      rw [encode] at hFront
      simp [putAll, hFront, hRest]
  change (if as.length < 256 ^ 8 then (putAll as).map (leBytes 8 as.length ++ ·)
    else none).isSome
  rw [if_pos hLen, Option.isSome_map]
  exact hBody

theorem length_lt_of_encode [Serde α] {as : List α} (h : (encode as).isSome) :
    as.length < 256 ^ 8 := by
  change (if as.length < 256 ^ 8 then (putAll as).map (leBytes 8 as.length ++ ·)
    else none).isSome at h
  split at h
  · next hLen => exact hLen
  · cases h

theorem encode_mem_isSome [Serde α] {as : List α} (h : (encode as).isSome) :
    ∀ a ∈ as, (encode a).isSome := by
  change (if as.length < 256 ^ 8 then (putAll as).map (leBytes 8 as.length ++ ·)
    else none).isSome at h
  split at h
  · next hLen =>
    clear hLen
    rw [Option.isSome_map] at h
    induction as with
    | nil => simp
    | cons a as ih =>
      obtain ⟨bs, hbs⟩ := Option.isSome_iff_exists.mp h
      obtain ⟨front, ha, more, has, -⟩ : ∃ front, Serde.put a = some front ∧ ∃ more,
          putAll as = some more ∧ front ++ more = bs := by
        simpa [putAll, Option.bind_eq_some_iff] using hbs
      intro b hb
      rcases List.mem_cons.mp hb with rfl | hb
      · simp [encode, ha]
      · exact ih (by simp [has]) b hb
  · cases h

end Codec

/-! ## `Uuid` -/

/-- The sixteen bytes of an id. -/
structure Uuid where
  bytes : Bytes
  length_bytes : bytes.length = 16
  deriving DecidableEq

namespace Uuid

/-- The id whose first bytes spell a number, for examples. -/
def ofNat (n : Nat) : Uuid := ⟨leBytes 16 n, length_leBytes ..⟩

/-- A length-prefixed byte string that must have sixteen bytes. -/
instance : Serde Uuid :=
  Codec.refine Uuid.bytes (fun bs => if h : bs.length = 16 then some ⟨bs, h⟩ else none) (by
    rintro ⟨a, ha⟩ b
    split
    · simp [eq_comm]
    · next hb => simp only [reduceCtorEq, false_iff]; rintro rfl; exact hb ha)

/-- The bytes of an id as numbers. Ids are ordered by them. -/
def key (id : Uuid) : List Nat := id.bytes.map UInt8.toNat

theorem key_injective : Function.Injective key := by
  rintro ⟨a, ha⟩ ⟨b, hb⟩ h
  rw [Uuid.mk.injEq]
  exact List.map_injective_iff.mpr (fun _ _ hEq => UInt8.toNat_inj.mp hEq) h

instance : LinearOrder Uuid where
  le a b := a.key ≤ b.key
  lt a b := a.key < b.key
  le_refl a := le_refl a.key
  le_trans a _ _ := le_trans (a := a.key)
  lt_iff_le_not_ge a _ := lt_iff_le_not_ge (a := a.key)
  le_antisymm _ _ h h' := key_injective (le_antisymm h h')
  le_total a b := le_total a.key b.key
  toDecidableLE a b := inferInstanceAs (Decidable (a.key ≤ b.key))
  toDecidableEq := inferInstance
  toDecidableLT a b := inferInstanceAs (Decidable (a.key < b.key))

end Uuid

end MultimodalDb
