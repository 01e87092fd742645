import MultimodalDb.Python.Specs

/-!
# What the walker writes and reads

A well typed value has an encoding, which is read back as the value; and whatever bytes are read as
a value are the encoding of a well typed one. Where a read raises, it raises a `CodecError`.
-/

namespace MultimodalDb.Python

open Bytes Unpack

variable {bs : Bytes}

/-- The exceptions that a read may raise. -/
def IsCodecError (e : Error) : Prop := ∃ cause, e = .codec cause

theorem isCodecError (cause : CodecError) : IsCodecError (.codec cause) := ⟨cause, rfl⟩

/-! ## The parts -/

theorem gives_take {n : Nat} (h : bs.length = n) : Gives (Reader.take n) bs bs :=
  Unpack.gives_take _ h

theorem yields_take (n : Nat) :
    Yields IsCodecError (Reader.take n) fun bs taken => bs = taken ∧ bs.length = n :=
  Unpack.yields_take (fun _ _ _ => isCodecError _) n

theorem Writer.unsigned_int {width n : Nat} (h : n < 256 ^ width) :
    Writer.unsigned width (.int n) = .ok (leBytes width n) := by
  have hRange : (0 : Int) ≤ n ∧ (n : Int) < 256 ^ width :=
    ⟨Int.natCast_nonneg n, by exact_mod_cast h⟩
  rw [Writer.unsigned, Value.index?]
  dsimp only
  rw [if_pos hRange, Int.toNat_natCast]

theorem gives_unsigned (width : Nat) {n : Nat} (h : n < 256 ^ width) :
    Gives (Reader.unsigned width) (leBytes width n) n := by
  have hTake := gives_take (length_leBytes width n)
  have hRead := hTake.map (g := leValue)
  rwa [leValue_leBytes h] at hRead

theorem yields_unsigned (width : Nat) :
    Yields IsCodecError (Reader.unsigned width) fun n bs =>
      n < 256 ^ width ∧ bs = leBytes width n :=
  Yields.map ((yields_take width).mono fun bs taken h => by
    obtain ⟨rfl, rfl⟩ := h
    exact ⟨leValue_lt bs, (leBytes_leValue rfl).symm⟩)

theorem Writer.i64_int {n : Int} (h : -2 ^ 63 ≤ n ∧ n < 2 ^ 63) :
    Writer.i64 (.int n) = .ok (leBytes 8 (Int64.ofInt n).toUInt64.toNat) := by
  rw [Writer.i64, Value.index?]
  exact if_pos h

theorem gives_i64 {n : Int} (h : -2 ^ 63 ≤ n ∧ n < 2 ^ 63) :
    Gives Reader.i64 (leBytes 8 (Int64.ofInt n).toUInt64.toNat) n := by
  have hRead := (gives_unsigned 8 (n := (Int64.ofInt n).toUInt64.toNat) (UInt64.toNat_lt _)).map
    (g := fun n => (Int64.ofUInt64 (UInt64.ofNat n)).toInt)
  have hBack : (Int64.ofUInt64 (UInt64.ofNat (Int64.ofInt n).toUInt64.toNat)).toInt = n := by
    rw [UInt64.ofNat_toNat]
    exact Int64.toInt_ofInt_of_le h.1 h.2
  rwa [hBack] at hRead

theorem yields_i64 : Yields IsCodecError Reader.i64 fun n bs =>
    (-2 ^ 63 ≤ n ∧ n < 2 ^ 63) ∧ bs = leBytes 8 (Int64.ofInt n).toUInt64.toNat :=
  Yields.map ((yields_unsigned 8).mono fun n bs h => by
    refine ⟨⟨Int64.le_toInt _, Int64.toInt_lt _⟩, ?_⟩
    rw [Int64.ofInt_toInt, h.2]
    exact congrArg _ (UInt64.toNat_ofNat_of_lt' h.1).symm)

theorem gives_f64 (bits : UInt64) : Gives Reader.f64 (leBytes 8 bits.toNat) bits := by
  have hRead := (gives_unsigned 8 bits.toNat_lt).map (g := UInt64.ofNat)
  rwa [UInt64.ofNat_toNat] at hRead

theorem yields_f64 : Yields IsCodecError Reader.f64 fun bits bs => bs = leBytes 8 bits.toNat :=
  Yields.map ((yields_unsigned 8).mono fun n bs h => by
    rw [UInt64.toNat_ofNat_of_lt' h.1]
    exact h.2)

theorem Writer.bool_bool (b : Bool) :
    Writer.bool (.bool b) = .ok (leBytes 1 (if b then 1 else 0)) := by
  cases b <;> rfl

theorem gives_bool (b : Bool) : Gives Reader.bool (leBytes 1 (if b then 1 else 0)) b := by
  have hByte : (if b then 1 else 0) < 256 ^ 1 := by cases b <;> decide
  have hRead := (gives_unsigned _ hByte).bind (f := fun n => if n = 0 ∨
      n = 1 then pure (decide (n = 1)) else
    throw (.codec (.boolByte n))) (show Gives _ [] b by cases b <;> exact gives_pure _)
  rwa [List.append_nil] at hRead

theorem yields_bool : Yields IsCodecError Reader.bool fun b bs =>
  bs = leBytes 1 (if b then 1 else 0) := by
  refine (yields_unsigned 1).bind fun n bs h => ?_
  split
  · next hByte =>
    refine yields_pure ?_
    rw [List.append_nil, h.2]
    obtain rfl | rfl := hByte <;> rfl
  · exact yields_throw (isCodecError _)

theorem Writer.string_str {s : String} (h : s.toByteArray.data.toList.length < 2 ^ 64) :
    Writer.string (.str s) =
      .ok (leBytes 8 s.toByteArray.data.toList.length ++ s.toByteArray.data.toList) := by
  unfold Writer.string Writer.u64
  dsimp only
  rw [Writer.unsigned_int (by omega)]
  rfl

theorem gives_string {s : String} (h : s.toByteArray.data.toList.length < 2 ^ 64) :
    Gives Reader.string (leBytes 8 s.toByteArray.data.toList.length ++ s.toByteArray.data.toList)
      s := by
  refine (gives_unsigned _ (by omega)).bind ?_
  rw [← List.append_nil s.toByteArray.data.toList]
  refine (gives_take (by rw [List.append_nil])).bind ?_
  rw [Codec.fromUTF8?_eq_some.mpr rfl]
  exact gives_pure s

theorem yields_string : Yields IsCodecError Reader.string fun s bs =>
    s.toByteArray.data.toList.length < 2 ^ 64 ∧
      bs = leBytes 8 s.toByteArray.data.toList.length ++ s.toByteArray.data.toList := by
  refine (yields_unsigned 8).bind fun n bs h => (yields_take n).bind fun data taken hData => ?_
  obtain ⟨hRange, rfl⟩ := h
  obtain ⟨rfl, rfl⟩ := hData
  split
  · next s hText =>
    rw [Codec.fromUTF8?_eq_some] at hText
    subst hText
    exact yields_pure ⟨by omega, by rw [List.append_nil]⟩
  · exact yields_throw (isCodecError _)

theorem Writer.uuid_uuid (u : Uuid) : Writer.uuid (.uuid u) = .ok (leBytes 8 16 ++ u.bytes) := rfl

theorem gives_uuid (u : Uuid) : Gives Reader.uuid (leBytes 8 16 ++ u.bytes) u := by
  refine (gives_unsigned _ (by decide)).bind ?_
  have hBytes := (gives_take u.length_bytes).bind (f := fun bytes => if h : bytes.length = 16 then
    pure (⟨bytes, h⟩ : Uuid) else throw .illTyped) (by
      rw [dif_pos u.length_bytes]; exact gives_pure u)
  rw [List.append_nil] at hBytes
  exact hBytes

theorem yields_uuid : Yields IsCodecError Reader.uuid fun u bs => bs = leBytes 8 16 ++ u.bytes := by
  refine (yields_unsigned 8).bind fun n bs h => ?_
  split
  · exact yields_throw (isCodecError _)
  · next hSixteen =>
    refine (yields_take 16).bind fun data taken hData => ?_
    obtain ⟨rfl, hLength⟩ := hData
    rw [dif_pos hLength]
    refine yields_pure ?_
    rw [List.append_nil, h.2, not_not.mp hSixteen]

/-! ## Attributes -/

/-- What is read for the attributes of an object. -/
def rawFields : Fields → List (String × Value) → List (String × Value)
  | .cons name sub _ rest, (_, v) :: attributes => (name, raw sub v) :: rawFields rest attributes
  | _, _ => []

theorem TypedVariant.mem_classes {cls : String} {attributes : List (String × Value)} :
    ∀ {variants : Variants}, TypedVariant variants cls attributes → cls ∈ variants.classes
  | .cons _ _ _ _, .here _ => List.mem_cons_self
  | .cons _ _ _ _, .there h => List.mem_cons_of_mem _ h.mem_classes

theorem Typed.ne_none {s : Spec} {v : Value} (h : Typed s v) (hOpt : s.isOpt = false) :
    v ≠ .none := by
  cases h with
  | optNone => cases hOpt
  | optSome h => cases hOpt
  | _ => simp

theorem raw_opt {sub : Spec} {v : Value} (h : v ≠ .none) : raw (.opt sub) v = raw sub v := by
  cases v with
  | none => exact absurd rfl h
  | _ => rfl

theorem encodeValue_opt {sub : Spec} {v : Value} (h : v ≠ .none) : encodeValue (.opt sub) v = (do
    let tag ← Writer.u8 (.int 1)
    let payload ← encodeValue sub v
    return tag ++ payload) := by
  cases v with
  | none => exact absurd rfl h
  | _ => rfl

theorem raw_flat : ∀ {s : Spec} {v : Value}, s.flat = true → Typed s v → raw s v = v
  | .opt _, _, _, .optNone => rfl
  | .opt sub, v, hFlat, .optSome h => by
    by_cases hNone : v = .none
    · rw [hNone, raw]
    · rw [raw_opt hNone, raw_flat (s := sub) hFlat h]
  | .tuple first second, _, hFlat, .tuple ha hb => by
    obtain ⟨hFirst, hSecond⟩ := Bool.and_eq_true_iff.mp hFlat
    rw [raw, raw_flat (s := first) hFirst ha, raw_flat (s := second) hSecond hb]
  | .u16, _, _, _ | .u32, _, _, _ | .u64, _, _, _ | .i64, _, _, _ | .f64, _, _, _ | .bool, _, _, _
  | .str, _, _, _
  | .uuid, _, _, _ | .intEnum _ _, _, _, _ | .struct _ _, _, _, _ | .family _, _, _, _ =>
    by simp only [raw]

theorem apply_items {post : Post} {f : Value → Value} {items : List Value}
    (h : ∀ v ∈ items, post.apply (f v) = .ok v) : (items.map f).mapM post.apply = .ok items := by
  induction items with
  | nil => rfl
  | cons v items ih =>
    obtain ⟨hHead, hTail⟩ := List.forall_mem_cons.mp h
    rw [List.map_cons, List.mapM_cons, hHead, ih hTail]
    rfl

/-- A class holds the value that was written, and not what was read for it. -/
theorem apply_raw : ∀ {post : Post} {s : Spec} {v : Value}, s.fits post = true → Typed s v →
    post.apply (raw s v) = .ok v
  | .keep, s, v, hFits, h => by
    have hFlat : s.flat = true := by cases s <;> exact hFits
    rw [Post.apply, raw_flat hFlat h]
  | .tuple each, .vec sub, _, hFits, .vec _ hItems => by
    rw [raw, Post.apply, Value.items?]
    dsimp only
    rw [apply_items fun v hv => @apply_raw each sub v hFits (hItems v hv)]
    rfl
  | .tuple .keep, .tuple first second, _, hFits, .tuple ha hb => by
    obtain ⟨hFirst, hSecond⟩ := Bool.and_eq_true_iff.mp hFits
    rw [raw, raw_flat (s := first) hFirst ha, raw_flat (s := second) hSecond hb]
    rfl
  | .pair p q, .tuple first second, _, hFits, .tuple ha hb => by
    obtain ⟨hFirst, hSecond⟩ := Bool.and_eq_true_iff.mp hFits
    rw [raw, Post.apply, Value.items?]
    dsimp only
    rw [@apply_raw p first _ hFirst ha, @apply_raw q second _ hSecond hb]
    rfl

theorem construct_rawFields :
    ∀ {fields : Fields} {attributes : List (String × Value)}, fields.sound = true →
    TypedFields fields attributes → construct fields (rawFields fields attributes) = .ok attributes
  | .nil, _, _, .nil => rfl
  | .cons name sub post rest, _, hSound, .cons hv hRest => by
    simp only [Fields.sound, Bool.and_eq_true] at hSound
    obtain ⟨⟨⟨-, -⟩, hFits⟩, hMore⟩ := hSound
    rw [rawFields, construct, apply_raw hFits hv, construct_rawFields hMore hRest]
    rfl

/-- A field is found behind an attribute of another name. -/
theorem encodeFields_cons {name : String} {v : Value} {attributes : List (String × Value)} :
    ∀ {fields : Fields}, name ∉ fields.names →
      encodeFields fields ((name, v) :: attributes) = encodeFields fields attributes
  | .nil, _ => rfl
  | .cons other sub post rest, hFresh => by
    rw [Fields.names, List.mem_cons, not_or] at hFresh
    obtain ⟨hNe, hRest⟩ := hFresh
    have hLookup : ((name, v) :: attributes).lookup other = attributes.lookup other := by
      rw [List.lookup_cons, beq_false_of_ne (Ne.symm hNe)]
    rw [encodeFields, encodeFields, hLookup, encodeFields_cons hRest]

/-! ## Writing and reading back -/

/-- Typed items are written one after the other. -/
theorem encodes_items {sub : Spec} (h : ∀ {v}, Typed sub v →
    ∃ bs, encodeValue sub v = .ok bs ∧ Gives (decodeValue sub) bs (raw sub v)) {items : List Value}
    (hItems : ∀ v ∈ items, Typed sub v) : ∃ pairs : List (Bytes × Value),
      items.mapM (encodeValue sub) = .ok (pairs.map (·.1)) ∧ pairs.map (·.2) = items.map (raw sub) ∧
        pairs.length = items.length ∧ ∀ p ∈ pairs, Gives (decodeValue sub) p.1 p.2 := by
  induction items with
  | nil => exact ⟨[], rfl, rfl, rfl, List.forall_mem_nil _⟩
  | cons v items ih =>
    obtain ⟨hHead, hTail⟩ := List.forall_mem_cons.mp hItems
    obtain ⟨bs, hWritten, hGives⟩ := h hHead
    obtain ⟨pairs, hRest, hRaw, hLength, hPairs⟩ := ih hTail
    refine ⟨(bs, raw sub v) :: pairs, ?_, ?_, ?_, List.forall_mem_cons.mpr ⟨hGives, hPairs⟩⟩
    · rw [List.mapM_cons, hWritten, hRest]
      rfl
    · rw [List.map_cons, hRaw, List.map_cons]
    · rw [List.length_cons, List.length_cons, hLength]

mutual

/-- **What is written of a well typed value is read back.** -/
theorem encodes : ∀ {s : Spec} {v : Value}, s.sound = true → Typed s v →
    ∃ bs, encodeValue s v = .ok bs ∧ Gives (decodeValue s) bs (raw s v)
  | .u16, _, _, .u16 (n := n) h => by
    have hRange : n < 256 ^ 2 := by omega
    refine ⟨leBytes 2 n, ?_, ?_⟩
    · rw [encodeValue, Writer.u16, Writer.unsigned_int hRange]
    · rw [decodeValue, raw_flat rfl (.u16 h)]
      exact (gives_unsigned _ hRange).map (g := fun n : Nat => Value.int n)
  | .u32, _, _, .u32 (n := n) h => by
    have hRange : n < 256 ^ 4 := by omega
    refine ⟨leBytes 4 n, ?_, ?_⟩
    · rw [encodeValue, Writer.u32, Writer.unsigned_int hRange]
    · rw [decodeValue, raw_flat rfl (.u32 h)]
      exact (gives_unsigned _ hRange).map (g := fun n : Nat => Value.int n)
  | .u64, _, _, .u64 (n := n) h => by
    have hRange : n < 256 ^ 8 := by omega
    refine ⟨leBytes 8 n, ?_, ?_⟩
    · rw [encodeValue, Writer.u64, Writer.unsigned_int hRange]
    · rw [decodeValue, raw_flat rfl (.u64 h)]
      exact (gives_unsigned _ hRange).map (g := fun n : Nat => Value.int n)
  | .i64, _, _, .i64 h => ⟨_, Writer.i64_int h, (gives_i64 h).map⟩
  | .f64, _, _, .f64 bits => ⟨_, rfl, (gives_f64 bits).map⟩
  | .bool, _, _, .bool b => ⟨_, Writer.bool_bool b, (gives_bool b).map⟩
  | .str, _, _, .str h => ⟨_, Writer.string_str h, (gives_string h).map⟩
  | .uuid, _, _, .uuid u => ⟨_, Writer.uuid_uuid u, (gives_uuid u).map⟩
  | .opt sub, _, _, .optNone => by
    refine ⟨_, rfl, ?_⟩
    have hTag : Gives Reader.u8 (leBytes 1 0) 0 := gives_unsigned _ (by decide)
    have hNone : Gives (pure Value.none : Unpacking Value) [] .none := gives_pure _
    exact hTag.bind hNone
  | .opt sub, v, hSound, .optSome h => by
    rw [Spec.sound, Bool.and_eq_true, Bool.not_eq_true'] at hSound
    obtain ⟨bs, hWritten, hGives⟩ := encodes hSound.1 h
    have hSome := h.ne_none hSound.2
    have hTag : Gives Reader.u8 (leBytes 1 1) 1 := gives_unsigned _ (by decide)
    refine ⟨leBytes 1 1 ++ bs, ?_, ?_⟩
    · rw [encodeValue_opt hSome, hWritten]
      rfl
    · rw [raw_opt hSome]
      exact hTag.bind hGives
  | .vec sub, .tuple items, hSound, .vec hLength hItems => by
    rw [Spec.sound] at hSound
    obtain ⟨pairs, hWritten, hRaw, hCount, hPairs⟩ :=
      encodes_items (fun h => encodes hSound h) hItems
    have hRange : items.length < 256 ^ 8 := by omega
    refine ⟨leBytes 8 items.length ++ (pairs.map (·.1)).flatten, ?_, ?_⟩
    · rw [encodeValue, Value.items?]
      dsimp only
      rw [Writer.u64, Writer.unsigned_int hRange, hWritten]
      rfl
    · rw [raw, ← hRaw, decodeValue]
      rw [← hCount] at hRange ⊢
      exact (gives_unsigned _ hRange).bind (gives_replicate hPairs).map
  | .tuple first second, _, hSound, .tuple ha hb => by
    rw [Spec.sound, Bool.and_eq_true] at hSound
    obtain ⟨as, hFirst, hGivesFirst⟩ := encodes hSound.1 ha
    obtain ⟨bs, hSecond, hGivesSecond⟩ := encodes hSound.2 hb
    refine ⟨as ++ bs, ?_, hGivesFirst.bind hGivesSecond.map⟩
    rw [encodeValue, Value.items?]
    dsimp only
    rw [hFirst, hSecond]
    rfl
  | .intEnum name members, _, hSound, .intEnum (i := i) h => by
    rw [Spec.sound, decide_eq_true_iff] at hSound
    have hIndex : i < 256 ^ 4 := by omega
    have hSame : encodeValue (.intEnum name members) (.member name i) =
      Writer.unsigned 4 (.int i) := rfl
    refine ⟨leBytes 4 i, hSame.trans (Writer.unsigned_int hIndex), ?_⟩
    have hMember : Gives (if i < members.length then pure (Value.member name i) else
        throw (.codec (.enumIndex name i)) : Unpacking Value) [] (.member name i) := by
      rw [if_pos h]
      exact gives_pure _
    have hRead := (gives_unsigned _ hIndex).bind (f := fun i => if i < members.length
        then pure (Value.member name i) else
      throw (.codec (.enumIndex name i))) hMember
    rwa [List.append_nil] at hRead
  | .struct cls fields, _, hSound, .struct h => by
    rw [Spec.sound] at hSound
    obtain ⟨bs, hWritten, hGives⟩ := encodesFields hSound h
    refine ⟨bs, hWritten, ?_⟩
    have hObject := hGives.bind (f := fun attributes => (do
      let attributes ← construct fields attributes
      return Value.object cls attributes : Unpacking Value)) (show Gives _ [] (.object cls _) by
        rw [construct_rawFields hSound h]
        exact gives_pure _)
    rwa [List.append_nil] at hObject
  | .family variants, _, hSound, .family h => by
    rw [Spec.sound, Bool.and_eq_true, decide_eq_true_iff] at hSound
    obtain ⟨k, bs, hWithin, hWritten, hGives⟩ := encodesVariant hSound.1 h
    rw [Nat.zero_add] at hWritten
    refine ⟨leBytes 4 k ++ bs, ?_, ?_⟩
    · rw [encodeValue, hWritten, Writer.u32, Writer.unsigned_int (by omega)]
      rfl
    · refine (gives_unsigned _ (by omega)).bind ?_
      rw [if_neg (not_le.mpr hWithin)]
      exact hGives

theorem encodesFields : ∀ {fields : Fields} {attributes : List (String × Value)},
    fields.sound = true → TypedFields fields attributes →
    ∃ bs, encodeFields fields attributes = .ok bs ∧
      Gives (decodeFields fields) bs (rawFields fields attributes)
  | .nil, _, _, .nil => ⟨[], rfl, gives_pure _⟩
  | .cons name sub post rest, (_, v) :: attributes, hSound, .cons hv hRest => by
    simp only [Fields.sound, Bool.and_eq_true, Bool.not_eq_true', List.contains_eq_mem,
      decide_eq_false_iff_not]
      at hSound
    obtain ⟨⟨⟨hFresh, hSub⟩, -⟩, hMore⟩ := hSound
    obtain ⟨bs, hWritten, hGives⟩ := encodes hSub hv
    obtain ⟨cs, hWrittenRest, hGivesRest⟩ := encodesFields hMore hRest
    refine ⟨bs ++ cs, ?_, hGives.bind hGivesRest.map⟩
    rw [encodeFields, List.lookup_cons_self]
    dsimp only
    rw [hWritten, encodeFields_cons hFresh, hWrittenRest]
    rfl

/-- A value of a variant class is written under the index of its variant. -/
theorem encodesVariant :
    ∀ {variants : Variants} {first : Nat} {cls : String} {attributes : List (String × Value)},
    variants.soundFrom first = true → TypedVariant variants cls attributes →
    ∃ k bs, k < variants.length ∧
      encodeVariant variants cls attributes = (do
        let front ← Writer.u32 (.int (first + k : Nat))
        return front ++ bs) ∧
      Gives (decodeVariant variants k) bs (.object cls attributes)
  | .cons name index fields rest, first, _, attributes, hSound, .here h => by
    simp only [Variants.soundFrom, Bool.and_eq_true, beq_iff_eq] at hSound
    obtain ⟨⟨⟨rfl, -⟩, hFields⟩, -⟩ := hSound
    obtain ⟨bs, hWritten, hGives⟩ := encodesFields hFields h
    refine ⟨0, bs, Nat.succ_pos _, ?_, ?_⟩
    · rw [encodeVariant, if_pos rfl, hWritten]
      rfl
    · have hObject := hGives.bind (f := fun attributes => (do
        let attributes ← construct fields attributes
        return Value.object name attributes : Unpacking Value))
            (show Gives _ [] (.object name attributes) by
          rw [construct_rawFields hFields h]
          exact gives_pure _)
      rwa [List.append_nil] at hObject
  | .cons name index fields rest, first, cls, attributes, hSound, .there h => by
    simp only [Variants.soundFrom, Bool.and_eq_true, Bool.not_eq_true', List.contains_eq_mem,
      decide_eq_false_iff_not] at hSound
    obtain ⟨⟨⟨-, hFresh⟩, -⟩, hRest⟩ := hSound
    obtain ⟨k, bs, hWithin, hWritten, hGives⟩ := encodesVariant hRest h
    refine ⟨k + 1, bs, Nat.succ_lt_succ hWithin, ?_, hGives⟩
    have hOther : cls ≠ name := by
      rintro rfl
      exact hFresh h.mem_classes
    rw [encodeVariant, if_neg hOther, hWritten, Nat.add_right_comm, Nat.add_assoc]

end

/-! ## Reading and writing back -/

theorem yields_int {width : Nat} {s : Spec} (hRaw : ∀ n, raw s (.int n) = .int n)
    (hWritten : ∀ n, encodeValue s (.int n) = Writer.unsigned width (.int n))
    (hTyped : ∀ n : Nat, n < 256 ^ width → Typed s (.int n)) :
    Yields IsCodecError (Reader.unsigned width >>= fun n => pure (Value.int n)) fun w bs =>
      ∃ v, Typed s v ∧ w = raw s v ∧ encodeValue s v = .ok bs :=
  Yields.map ((yields_unsigned width).mono fun n bs h => by
    refine ⟨.int n, hTyped n h.1, (hRaw n).symm, ?_⟩
    rw [hWritten, Writer.unsigned_int h.1, h.2])

/-- The bytes of read items are what the items are written as. -/
theorem encodes_of_pairs {sub : Spec} {pairs : List (Bytes × Value)}
    (h : ∀ p ∈ pairs, ∃ v, Typed sub v ∧ p.2 = raw sub v ∧ encodeValue sub v = .ok p.1) :
    ∃ items : List Value, items.length = pairs.length ∧ (∀ v ∈ items, Typed sub v) ∧
      pairs.map (·.2) = items.map (raw sub) ∧
        items.mapM (encodeValue sub) = .ok (pairs.map (·.1)) := by
  induction pairs with
  | nil => exact ⟨[], rfl, List.forall_mem_nil _, rfl, rfl⟩
  | cons p pairs ih =>
    obtain ⟨⟨v, hTyped, hRaw, hWritten⟩, hTail⟩ := List.forall_mem_cons.mp h
    obtain ⟨items, hLength, hItems, hRaws, hRest⟩ := ih hTail
    refine ⟨v :: items, ?_, List.forall_mem_cons.mpr ⟨hTyped, hItems⟩, ?_, ?_⟩
    · rw [List.length_cons, List.length_cons, hLength]
    · rw [List.map_cons, List.map_cons, hRaw, hRaws]
    · rw [List.mapM_cons, hWritten, hRest]
      rfl

/-- An object is built of the attributes that were read. -/
theorem yields_object {fields : Fields} (hSound : fields.sound = true)
    {attributes : List (String × Value)}
    (h : TypedFields fields attributes) (cls : String) {P : Value → Bytes → Prop}
    (hP : P (.object cls attributes) []) :
    Yields IsCodecError (do
      let attributes ← construct fields (rawFields fields attributes)
      return Value.object cls attributes) P := by
  rw [construct_rawFields hSound h]
  exact yields_pure hP

mutual

/-- **What is read is what a well typed value is written as**, and where nothing is read the client
raises a `CodecError`. -/
theorem decodes : ∀ {s : Spec}, s.sound = true → Yields IsCodecError (decodeValue s) fun w bs =>
    ∃ v, Typed s v ∧ w = raw s v ∧ encodeValue s v = .ok bs
  | .u16, _ => by
    rw [decodeValue]
    exact yields_int (fun n => rfl) (fun n => rfl) fun n h => .u16 (by omega)
  | .u32, _ => by
    rw [decodeValue]
    exact yields_int (fun n => rfl) (fun n => rfl) fun n h => .u32 (by omega)
  | .u64, _ => by
    rw [decodeValue]
    exact yields_int (fun n => rfl) (fun n => rfl) fun n h => .u64 (by omega)
  | .i64, _ => by
    rw [decodeValue]
    refine Yields.map (yields_i64.mono fun n bs h => ⟨.int n, .i64 h.1, rfl, ?_⟩)
    rw [encodeValue, Writer.i64_int h.1, h.2]
  | .f64, _ => by
    rw [decodeValue]
    refine Yields.map (yields_f64.mono fun bits bs h => ⟨.float bits, .f64 bits, rfl, ?_⟩)
    rw [h]
    rfl
  | .bool, _ => by
    rw [decodeValue]
    refine Yields.map (yields_bool.mono fun b bs h => ⟨.bool b, .bool b, rfl, ?_⟩)
    rw [encodeValue, Writer.bool_bool, h]
  | .str, _ => by
    rw [decodeValue]
    refine Yields.map (yields_string.mono fun s bs h => ⟨.str s, .str h.1, rfl, ?_⟩)
    rw [encodeValue, Writer.string_str h.1, h.2]
  | .uuid, _ => by
    rw [decodeValue]
    refine Yields.map (yields_uuid.mono fun u bs h => ⟨.uuid u, .uuid u, rfl, ?_⟩)
    rw [encodeValue, Writer.uuid_uuid, h]
  | .opt sub, hSound => by
    rw [Spec.sound, Bool.and_eq_true, Bool.not_eq_true'] at hSound
    rw [decodeValue]
    refine (yields_unsigned 1).bind fun tag bs hTag => ?_
    obtain ⟨-, rfl⟩ := hTag
    split
    · next hNone =>
      refine yields_pure ⟨.none, .optNone, rfl, ?_⟩
      rw [hNone]
      rfl
    · split
      · next hSome =>
        refine (decodes hSound.1).mono fun w cs h => ?_
        obtain ⟨v, hTyped, hRaw, hWritten⟩ := h
        have hPresent := hTyped.ne_none hSound.2
        refine ⟨v, .optSome hTyped, by rw [hRaw, raw_opt hPresent], ?_⟩
        rw [encodeValue_opt hPresent, hWritten, hSome]
        rfl
      · exact yields_throw (isCodecError _)
  | .vec sub, hSound => by
    rw [Spec.sound] at hSound
    rw [decodeValue]
    refine (yields_unsigned 8).bind fun n bs hCount =>
      Yields.map ((yields_replicate (decodes hSound) n).mono fun ws cs h => ?_)
    obtain ⟨hRange, rfl⟩ := hCount
    obtain ⟨pairs, hLength, rfl, rfl, hPairs⟩ := h
    obtain ⟨items, hItemsLength, hItems, hRaw, hWritten⟩ := encodes_of_pairs hPairs
    rw [hLength] at hItemsLength
    refine ⟨.tuple items, .vec (by omega) hItems, by rw [raw, hRaw], ?_⟩
    rw [encodeValue, Value.items?]
    dsimp only
    rw [hItemsLength, Writer.u64, Writer.unsigned_int hRange, hWritten]
    rfl
  | .tuple first second, hSound => by
    rw [Spec.sound, Bool.and_eq_true] at hSound
    rw [decodeValue]
    refine (decodes hSound.1).bind fun wa as hFirst =>
      Yields.map ((decodes hSound.2).mono fun wb bs hSecond => ?_)
    obtain ⟨a, hTypedFirst, rfl, hWrittenFirst⟩ := hFirst
    obtain ⟨b, hTypedSecond, rfl, hWrittenSecond⟩ := hSecond
    refine ⟨.tuple [a, b], .tuple hTypedFirst hTypedSecond, rfl, ?_⟩
    rw [encodeValue, Value.items?]
    dsimp only
    rw [hWrittenFirst, hWrittenSecond]
    rfl
  | .intEnum name members, _ => by
    rw [decodeValue]
    refine (yields_unsigned 4).bind fun i bs h => ?_
    split
    · next hWithin =>
      refine yields_pure ⟨.member name i, .intEnum hWithin, rfl, ?_⟩
      have hSame : encodeValue (.intEnum name members) (.member name i) =
        Writer.unsigned 4 (.int i) := rfl
      rw [hSame, Writer.unsigned_int h.1, List.append_nil, h.2]
    · exact yields_throw (isCodecError _)
  | .struct cls fields, hSound => by
    rw [Spec.sound] at hSound
    rw [decodeValue]
    refine (decodesFields hSound).bind fun ws bs h => ?_
    obtain ⟨attributes, hTyped, rfl, hWritten⟩ := h
    refine yields_object hSound hTyped cls ⟨.object cls attributes, .struct hTyped, rfl, ?_⟩
    rw [encodeValue, List.append_nil, hWritten]
  | .family variants, hSound => by
    rw [Spec.sound, Bool.and_eq_true] at hSound
    rw [decodeValue]
    refine (yields_unsigned 4).bind fun k bs hIndex => ?_
    obtain ⟨hRange, rfl⟩ := hIndex
    split
    · exact yields_throw (isCodecError _)
    · next hWithin =>
      refine (decodesVariant hSound.1 (not_le.mp hWithin)).mono fun w cs h => ?_
      obtain ⟨cls, attributes, hTyped, rfl, hWritten⟩ := h
      refine ⟨.object cls attributes, .family hTyped, rfl, ?_⟩
      rw [encodeValue, hWritten, Nat.zero_add, Writer.u32, Writer.unsigned_int hRange]
      rfl

theorem decodesFields : ∀ {fields : Fields}, fields.sound = true →
    Yields IsCodecError (decodeFields fields)
    fun ws bs => ∃ attributes, TypedFields fields attributes ∧ ws = rawFields fields attributes ∧
      encodeFields fields attributes = .ok bs
  | .nil, _ => yields_pure ⟨[], .nil, rfl, rfl⟩
  | .cons name sub post rest, hSound => by
    simp only [Fields.sound, Bool.and_eq_true, Bool.not_eq_true', List.contains_eq_mem,
      decide_eq_false_iff_not]
      at hSound
    obtain ⟨⟨⟨hFresh, hSub⟩, -⟩, hMore⟩ := hSound
    rw [decodeFields]
    refine (decodes hSub).bind fun w bs hFirst =>
      Yields.map ((decodesFields hMore).mono fun ws cs hRest => ?_)
    obtain ⟨v, hTyped, rfl, hWritten⟩ := hFirst
    obtain ⟨attributes, hTypedRest, rfl, hWrittenRest⟩ := hRest
    refine ⟨(name, v) :: attributes, .cons hTyped hTypedRest, rfl, ?_⟩
    rw [encodeFields, List.lookup_cons_self]
    dsimp only
    rw [hWritten, encodeFields_cons hFresh, hWrittenRest]
    rfl

theorem decodesVariant : ∀ {variants : Variants} {first k : Nat}, variants.soundFrom first = true →
    k < variants.length → Yields IsCodecError (decodeVariant variants k) fun w bs =>
      ∃ cls attributes, TypedVariant variants cls attributes ∧ w = .object cls attributes ∧
        encodeVariant variants cls attributes = (do
          let front ← Writer.u32 (.int (first + k : Nat))
          return front ++ bs)
  | .nil, _, _, _, hWithin => (Nat.not_lt_zero _ hWithin).elim
  | .cons cls index fields rest, first, 0, hSound, _ => by
    simp only [Variants.soundFrom, Bool.and_eq_true, beq_iff_eq] at hSound
    obtain ⟨⟨⟨rfl, -⟩, hFields⟩, -⟩ := hSound
    rw [decodeVariant]
    refine (decodesFields hFields).bind fun ws bs h => ?_
    obtain ⟨attributes, hTyped, rfl, hWritten⟩ := h
    refine yields_object hFields hTyped cls ⟨cls, attributes, .here hTyped, rfl, ?_⟩
    rw [encodeVariant, if_pos rfl, hWritten, List.append_nil]
    rfl
  | .cons cls index fields rest, first, k + 1, hSound, hWithin => by
    simp only [Variants.soundFrom, Bool.and_eq_true, Bool.not_eq_true', List.contains_eq_mem,
      decide_eq_false_iff_not] at hSound
    obtain ⟨⟨⟨-, hFresh⟩, -⟩, hRest⟩ := hSound
    rw [decodeVariant]
    refine (decodesVariant hRest (Nat.lt_of_succ_lt_succ hWithin)).mono fun w bs h => ?_
    obtain ⟨other, attributes, hTyped, rfl, hWritten⟩ := h
    refine ⟨other, attributes, .there hTyped, rfl, ?_⟩
    have hOther : other ≠ cls := by
      rintro rfl
      exact hFresh hTyped.mem_classes
    rw [encodeVariant, if_neg hOther, hWritten, Nat.add_right_comm, Nat.add_assoc]

end

end MultimodalDb.Python
