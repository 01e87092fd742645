import MultimodalDb.Python.Codec

/-!
# Type specs

Each class of the client's protocol module lists its fields with their type specs, and one function
walks the specs to write a value and one to read it.

A class that is given a list for a field makes a tuple of it (`Post`). What is read of a spec is
therefore not yet what an attribute holds: `raw` is the value that is read where `Typed` is the
value that is held.
-/

namespace MultimodalDb.Python

open Bytes

/-- What `__post_init__` makes of an attribute: nothing new, a tuple of its items, or a pair of its
two. -/
inductive Post where
  | keep
  | tuple (each : Post)
  | pair (first second : Post)

/-- What an attribute holds after `__post_init__`. -/
def Post.apply : Post → Value → Except Error Value
  | .keep, v => .ok v
  | .tuple each, v =>
    match v.items? with
    | none => .error .illTyped
    | some items => (items.mapM each.apply).map .tuple
  | .pair first second, v =>
    match v.items? with
    | some [a, b] => do
      let a ← first.apply a
      let b ← second.apply b
      return .tuple [a, b]
    | _ => .error .illTyped

mutual

/-- A type spec. -/
inductive Spec where
  | u16
  | u32
  | u64
  | i64
  | f64
  | bool
  | str
  | uuid
  | opt (sub : Spec)
  | vec (sub : Spec)
  | tuple (first second : Spec)
  /-- An `IntEnum` whose members are numbered from zero. -/
  | intEnum (name : String) (members : List String)
  | struct (cls : String) (fields : Fields)
  /-- An enum family: its variant classes in index order. -/
  | family (variants : Variants)

/-- The `_spec` of a class, with what its `__post_init__` makes of each field. -/
inductive Fields where
  | nil
  | cons (name : String) (sub : Spec) (post : Post) (rest : Fields)

/-- Variant classes, each with its `_index`. -/
inductive Variants where
  | nil
  | cons (cls : String) (index : Nat) (fields : Fields) (rest : Variants)

end

def Fields.ofList (fields : List (String × Spec × Post)) : Fields :=
  fields.foldr (fun f rest => .cons f.1 f.2.1 f.2.2 rest) .nil

def Variants.ofList (variants : List (String × Nat × Fields)) : Variants :=
  variants.foldr (fun v rest => .cons v.1 v.2.1 v.2.2 rest) .nil

def Variants.length : Variants → Nat
  | .nil => 0
  | .cons _ _ _ rest => rest.length + 1

/-! ## The walker -/

mutual

/-- `_encode_value`. -/
def encodeValue : Spec → Value → Except Error Bytes
  | .u16, v => Writer.u16 v
  | .u32, v => Writer.u32 v
  | .u64, v => Writer.u64 v
  | .i64, v => Writer.i64 v
  | .f64, v => Writer.f64 v
  | .bool, v => Writer.bool v
  | .str, v => Writer.string v
  | .uuid, v => Writer.uuid v
  | .opt _, .none => Writer.u8 (.int 0)
  | .opt sub, v => do
    let tag ← Writer.u8 (.int 1)
    let payload ← encodeValue sub v
    return tag ++ payload
  | .vec sub, v =>
    match v.items? with
    | none => .error .illTyped
    | some items => do
      let count ← Writer.u64 (.int items.length)
      let written ← items.mapM (encodeValue sub)
      return count ++ written.flatten
  | .tuple first second, v =>
    match v.items? with
    | none => .error .illTyped
    | some [] => .ok []
    | some [a] => encodeValue first a
    | some (a :: b :: _) => do
      let front ← encodeValue first a
      let back ← encodeValue second b
      return front ++ back
  | .intEnum _ _, v =>
    match v.int? with
    | none => .error .illTyped
    | some n => Writer.u32 (.int n)
  | .struct _ fields, .object _ attributes => encodeFields fields attributes
  | .struct _ _, _ => .error .illTyped
  | .family variants, .object cls attributes => encodeVariant variants cls attributes
  | .family _, _ => .error .illTyped

/-- `_encode_fields`. -/
def encodeFields : Fields → List (String × Value) → Except Error Bytes
  | .nil, _ => .ok []
  | .cons name sub _ rest, attributes =>
    match attributes.lookup name with
    | none => .error .illTyped
    | some v => do
      let front ← encodeValue sub v
      let back ← encodeFields rest attributes
      return front ++ back

/-- The variant of a family that a value's class is. -/
def encodeVariant : Variants → String → List (String × Value) → Except Error Bytes
  | .nil, _, _ => .error .illTyped
  | .cons name index fields rest, cls, attributes =>
    if cls = name then do
      let front ← Writer.u32 (.int index)
      let back ← encodeFields fields attributes
      return front ++ back
    else
      encodeVariant rest cls attributes

end

/-- A class called with its fields: `__init__` sets them, `__post_init__` converts them. -/
def construct : Fields → List (String × Value) → Except Error (List (String × Value))
  | .cons name _ post rest, (_, v) :: attributes => do
    let v ← post.apply v
    let attributes ← construct rest attributes
    return (name, v) :: attributes
  | _, _ => .ok []

mutual

/-- `_decode_value`. -/
def decodeValue : Spec → Unpacking Value
  | .u16 => do
    let n ← Reader.u16
    return .int n
  | .u32 => do
    let n ← Reader.u32
    return .int n
  | .u64 => do
    let n ← Reader.u64
    return .int n
  | .i64 => do
    let n ← Reader.i64
    return .int n
  | .f64 => do
    let bits ← Reader.f64
    return .float bits
  | .bool => do
    let b ← Reader.bool
    return .bool b
  | .str => do
    let s ← Reader.string
    return .str s
  | .uuid => do
    let u ← Reader.uuid
    return .uuid u
  | .opt sub => do
    let tag ← Reader.u8
    if tag = 0 then
      return .none
    else if tag = 1 then
      decodeValue sub
    else
      throw (.codec (.optionTag tag))
  | .vec sub => do
    let n ← Reader.u64
    let items ← Unpack.replicate (decodeValue sub) n
    return .list items
  | .tuple first second => do
    let a ← decodeValue first
    let b ← decodeValue second
    return .tuple [a, b]
  | .intEnum name members => do
    let index ← Reader.u32
    if index < members.length then
      return .member name index
    else
      throw (.codec (.enumIndex name index))
  | .struct cls fields => do
    let attributes ← decodeFields fields
    let attributes ← construct fields attributes
    return .object cls attributes
  | .family variants => do
    let index ← Reader.u32
    if variants.length ≤ index then
      throw (.codec (.variantIndex index variants.length))
    else
      decodeVariant variants index

/-- `_decode_fields`. -/
def decodeFields : Fields → Unpacking (List (String × Value))
  | .nil => return []
  | .cons name sub _ rest => do
    let v ← decodeValue sub
    let attributes ← decodeFields rest
    return (name, v) :: attributes

/-- The variant at an index. -/
def decodeVariant : Variants → Nat → Unpacking Value
  | .nil, _ => throw .illTyped
  | .cons cls _ fields _, 0 => do
    let attributes ← decodeFields fields
    let attributes ← construct fields attributes
    return .object cls attributes
  | .cons _ _ _ rest, index + 1 => decodeVariant rest index

end

/-! ## Well typed values -/

mutual

/-- A value of a spec, as an attribute holds it: integers are in range, and lengths fit their count.
-/
inductive Typed : Spec → Value → Prop where
  | u16 {n : Nat} (h : n < 2 ^ 16) : Typed .u16 (.int n)
  | u32 {n : Nat} (h : n < 2 ^ 32) : Typed .u32 (.int n)
  | u64 {n : Nat} (h : n < 2 ^ 64) : Typed .u64 (.int n)
  | i64 {n : Int} (h : -2 ^ 63 ≤ n ∧ n < 2 ^ 63) : Typed .i64 (.int n)
  | f64 (bits : UInt64) : Typed .f64 (.float bits)
  | bool (b : Bool) : Typed .bool (.bool b)
  | str {s : String} (h : s.toByteArray.data.toList.length < 2 ^ 64) : Typed .str (.str s)
  | uuid (u : Uuid) : Typed .uuid (.uuid u)
  | optNone {sub : Spec} : Typed (.opt sub) .none
  | optSome {sub : Spec} {v : Value} (h : Typed sub v) : Typed (.opt sub) v
  | vec {sub : Spec} {items : List Value} (hLength : items.length < 2 ^ 64)
    (hItems : ∀ v ∈ items, Typed sub v) :
    Typed (.vec sub) (.tuple items)
  | tuple {first second : Spec} {a b : Value} (ha : Typed first a) (hb : Typed second b) :
    Typed (.tuple first second) (.tuple [a, b])
  | intEnum {name : String} {members : List String} {i : Nat} (h : i < members.length) :
    Typed (.intEnum name members) (.member name i)
  | struct {cls : String} {fields : Fields} {attributes : List (String × Value)}
    (h : TypedFields fields attributes) :
    Typed (.struct cls fields) (.object cls attributes)
  | family {variants : Variants} {cls : String} {attributes : List (String × Value)}
    (h : TypedVariant variants cls attributes) : Typed (.family variants) (.object cls attributes)

inductive TypedFields : Fields → List (String × Value) → Prop where
  | nil : TypedFields .nil []
  | cons {name : String} {sub : Spec} {post : Post} {rest : Fields} {v : Value}
    {attributes : List (String × Value)} (hv : Typed sub v) (hRest : TypedFields rest attributes) :
    TypedFields (.cons name sub post rest) ((name, v) :: attributes)

inductive TypedVariant : Variants → String → List (String × Value) → Prop where
  | here {cls : String} {index : Nat} {fields : Fields} {rest : Variants}
    {attributes : List (String × Value)}
    (h : TypedFields fields attributes) : TypedVariant (.cons cls index fields rest) cls attributes
  | there {name cls : String} {index : Nat} {fields : Fields} {rest : Variants}
    {attributes : List (String × Value)}
    (h : TypedVariant rest cls attributes) :
      TypedVariant (.cons name index fields rest) cls attributes

end

/-- What is read for a value that an attribute holds: a list where it has a tuple of items. -/
def raw : Spec → Value → Value
  | .opt _, .none => .none
  | .opt sub, v => raw sub v
  | .vec sub, .tuple items => .list (items.map (raw sub))
  | .tuple first second, .tuple [a, b] => .tuple [raw first a, raw second b]
  | _, v => v

/-! ## Sound specs -/

/-- What is read of the spec is what an attribute holds. -/
def Spec.flat : Spec → Bool
  | .opt sub => sub.flat
  | .vec _ => false
  | .tuple first second => first.flat && second.flat
  | _ => true

/-- `__post_init__` turns what is read of the spec into what an attribute holds. -/
def Spec.fits : Spec → Post → Bool
  | .vec sub, .tuple each => sub.fits each
  | .tuple first second, .pair p q => first.fits p && second.fits q
  | .tuple first second, .tuple .keep => first.flat && second.flat
  | s, .keep => s.flat
  | _, _ => false

def Spec.isOpt : Spec → Bool
  | .opt _ => true
  | _ => false

def Fields.names : Fields → List String
  | .nil => []
  | .cons name _ _ rest => name :: rest.names

def Variants.classes : Variants → List String
  | .nil => []
  | .cons cls _ _ rest => cls :: rest.classes

mutual

/-- No option is directly in an option, no name stands twice, every class converts what is read for
it, and each variant's index is its place. -/
def Spec.sound : Spec → Bool
  | .opt sub => sub.sound && !sub.isOpt
  | .vec sub => sub.sound
  | .tuple first second => first.sound && second.sound
  | .intEnum _ members => members.length ≤ 2 ^ 32
  | .struct _ fields => fields.sound
  | .family variants => variants.soundFrom 0 && variants.length ≤ 2 ^ 32
  | _ => true

def Fields.sound : Fields → Bool
  | .nil => true
  | .cons name sub post rest =>
    !rest.names.contains name && sub.sound && sub.fits post && rest.sound

def Variants.soundFrom : Variants → Nat → Bool
  | .nil, _ => true
  | .cons cls index fields rest, i =>
    index == i && !rest.classes.contains cls && fields.sound && rest.soundFrom (i + 1)

end

end MultimodalDb.Python
