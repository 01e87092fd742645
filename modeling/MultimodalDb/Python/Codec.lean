import MultimodalDb.Codec
import MultimodalDb.Lib.Unpack

/-!
# The codec of the Python client

The values of the client at run time, and the parts that `Writer` and `Reader` write and read. A
writer is given by what it appends to its buffer.

A call may raise a `CodecError`, or another exception where a value is not of the type it should be.
`struct` takes a `bool` or a member of an `IntEnum` for an integer and an integer for a float, `int`
takes a float or a string as well, and anything has a truth value.
-/

namespace MultimodalDb.Python

open Bytes

/-- A value at run time. A float is given by its 64 bits, an object by its class and its attributes.
-/
inductive Value where
  | none
  | bool (value : Bool)
  | int (value : Int)
  | float (bits : UInt64)
  | str (value : String)
  | uuid (value : Uuid)
  | member (enum : String) (value : Nat)
  | list (items : List Value)
  | tuple (items : List Value)
  | object (cls : String) (attributes : List (String × Value))

namespace Value

/-- The integer that `struct` packs for a value. -/
def index? : Value → Option Int
  | bool b => some (if b then 1 else 0)
  | int n => some n
  | member _ i => some i
  | _ => Option.none

/-- The integer that is nearest to `a / 2 ^ k`, the even one of two. -/
def shiftToEven (a k : Nat) : Nat :=
  if 2 * (a % 2 ^ k) > 2 ^ k ∨ 2 * (a % 2 ^ k) = 2 ^ k ∧ a / 2 ^ k % 2 = 1 then a / 2 ^ k + 1
    else a / 2 ^ k

/-- The float that is nearest to an integer, unless the integer is too large. -/
def ofIndex? (n : Int) : Option UInt64 :=
  let a := n.natAbs
  let magnitude :=
    if a = 0 then
      0
    else if a.log2 ≤ 52 then
      (a.log2 + 1022) * 2 ^ 52 + a * 2 ^ (52 - a.log2)
    else
      -- a significand that rounds up to the next power of two adds one to the exponent
      (a.log2 + 1022) * 2 ^ 52 + shiftToEven a (a.log2 - 52)
  if magnitude < 2047 * 2 ^ 52 then
    some (UInt64.ofNat (magnitude + if n < 0 then 2 ^ 63 else 0))
  else
    Option.none

/-- The float that `struct` packs for a value. -/
def float? : Value → Option UInt64
  | float bits => some bits
  | v => v.index?.bind ofIndex?

/-- A float without its fraction; an infinity and a value that is no number have none. -/
def truncated (bits : UInt64) : Option Int :=
  let exponent := bits.toNat / 2 ^ 52 % 2 ^ 11
  let significand := 2 ^ 52 + bits.toNat % 2 ^ 52
  if exponent = 2047 then
    Option.none
  else
    let magnitude : Nat :=
      if exponent < 1075 then significand / 2 ^ (1075 - exponent)
        else significand * 2 ^ (exponent - 1075)
    some (if 2 ^ 63 ≤ bits.toNat then -(magnitude : Int) else magnitude)

/-- Digits behind others, with single underscores between them. -/
def digits : Nat → List Char → Option Nat
  | n, [] => some n
  | n, '_' :: c :: rest => if c.isDigit then digits (10 * n + (c.toNat - '0'.toNat)) rest
      else Option.none
  | n, c :: rest => if c.isDigit then digits (10 * n + (c.toNat - '0'.toNat)) rest else Option.none

def number : List Char → Option Nat
  | c :: rest => if c.isDigit then digits (c.toNat - '0'.toNat) rest else Option.none
  | [] => Option.none

/-- The number that a string spells, in the letters of ASCII. -/
def spelled (s : String) : Option Int :=
  let blank (c : Char) : Bool := c = ' ' || ('\t' ≤ c && c ≤ '\r') || ('\x1c' ≤ c && c ≤ '\x1f')
  match ((s.toList.dropWhile blank).reverse.dropWhile blank).reverse with
  | '-' :: rest => (number rest).map fun n => -(n : Int)
  | '+' :: rest => (number rest).map fun n => (n : Int)
  | rest => (number rest).map fun n => (n : Int)

/-- The integer that `int` makes of a value. -/
def int? : Value → Option Int
  | float bits => truncated bits
  | str s => spelled s
  | uuid u => some (leValue u.bytes.reverse)
  | v => v.index?

/-- The items of a sequence; those of a string are its characters. -/
def items? : Value → Option (List Value)
  | list items => some items
  | tuple items => some items
  | str s => some (s.toList.map fun c => str (String.singleton c))
  | _ => Option.none

/-- The truth value of a value. -/
def truthy : Value → Bool
  | none => false
  | bool b => b
  | int n => n ≠ 0
  | float bits => bits ≠ 0 ∧ bits ≠ 0x8000000000000000
  | str s => s ≠ ""
  | uuid _ => true
  | member _ i => i ≠ 0
  | list items => !items.isEmpty
  | tuple items => !items.isEmpty
  | object _ _ => true

end Value

/-- What a `CodecError` says. -/
inductive CodecError where
  | unexpectedEnd (need offset left : Nat)
  | trailing (count : Nat)
  | boolByte (byte : Nat)
  | notUtf8
  | uuidLength (length : Nat)
  | optionTag (tag : Nat)
  | variantIndex (index count : Nat)
  | enumIndex (enum : String) (index : Nat)
  deriving DecidableEq

/-- An exception: a `CodecError`, or that a value is not of the type it should be. -/
inductive Error where
  | codec (cause : CodecError)
  | illTyped
  deriving DecidableEq

/-! ## Writing -/

namespace Writer

/-- `struct.pack` of an unsigned integer of `width` bytes. -/
def unsigned (width : Nat) (v : Value) : Except Error Bytes :=
  match v.index? with
  | none => .error .illTyped
  | some n => if 0 ≤ n ∧ n < 256 ^ width then .ok (leBytes width n.toNat) else .error .illTyped

def u8 : Value → Except Error Bytes := unsigned 1

def u16 : Value → Except Error Bytes := unsigned 2

def u32 : Value → Except Error Bytes := unsigned 4

def u64 : Value → Except Error Bytes := unsigned 8

def i64 (v : Value) : Except Error Bytes :=
  match v.index? with
  | none => .error .illTyped
  | some n =>
    if -2 ^ 63 ≤ n ∧ n < 2 ^ 63 then .ok (leBytes 8 (Int64.ofInt n).toUInt64.toNat)
      else .error .illTyped

def f64 (v : Value) : Except Error Bytes :=
  match v.float? with
  | none => .error .illTyped
  | some bits => .ok (leBytes 8 bits.toNat)

def bool (v : Value) : Except Error Bytes := u8 (.int (if v.truthy then 1 else 0))

def string : Value → Except Error Bytes
  | .str s => do
    let data := s.toByteArray.data.toList
    let length ← u64 (.int data.length)
    return length ++ data
  | _ => .error .illTyped

def uuid : Value → Except Error Bytes
  | .uuid u => do
    let length ← u64 (.int 16)
    return length ++ u.bytes
  | _ => .error .illTyped

end Writer

/-! ## Reading -/

abbrev Unpacking (α : Type) := Unpack Error α

namespace Reader

def take (n : Nat) : Unpacking Bytes :=
  Unpack.take (fun need pos left => .codec (.unexpectedEnd need pos left)) n

def finish : Unpacking Unit := fun r =>
  if r.rest.length = 0 then .ok ((), r) else .error (.codec (.trailing r.rest.length))

/-- `struct.unpack` of an unsigned integer of `width` bytes. -/
def unsigned (width : Nat) : Unpacking Nat := do
  let bytes ← take width
  return leValue bytes

def u8 : Unpacking Nat := unsigned 1

def u16 : Unpacking Nat := unsigned 2

def u32 : Unpacking Nat := unsigned 4

def u64 : Unpacking Nat := unsigned 8

def i64 : Unpacking Int := do
  let n ← unsigned 8
  return (Int64.ofUInt64 (UInt64.ofNat n)).toInt

def f64 : Unpacking UInt64 := do
  let n ← unsigned 8
  return UInt64.ofNat n

def bool : Unpacking Bool := do
  let b ← u8
  if b = 0 ∨ b = 1 then
    return b = 1
  else
    throw (.codec (.boolByte b))

def string : Unpacking String := do
  let n ← u64
  let bytes ← take n
  match String.fromUTF8? ⟨bytes.toArray⟩ with
  | some s => return s
  | none => throw (.codec .notUtf8)

def uuid : Unpacking Uuid := do
  let n ← u64
  if n ≠ 16 then
    throw (.codec (.uuidLength n))
  else
    let bytes ← take 16
    if h : bytes.length = 16 then
      return ⟨bytes, h⟩
    else
      throw .illTyped

end Reader

end MultimodalDb.Python
