import Mathlib.Algebra.Order.Group.Nat
import Mathlib.Data.List.Basic
import Mathlib.Tactic.Ring

/-!
# Byte strings

Files are lists of bytes. This file has the two operations every fixed-layout file needs, reading
a window (`slice`) and overwriting one in place (`splice`), and the little-endian form of a natural
number in a fixed number of bytes. Nothing here knows what the bytes mean.
-/

namespace MultimodalDb

abbrev Bytes := List UInt8

namespace Bytes

/-! ## Windows -/

/-- The `len` elements from position `start` on, fewer when the list ends before. -/
def slice {α : Type*} (xs : List α) (start len : Nat) : List α := (xs.drop start).take len

/-- `xs` with the elements from position `start` on overwritten by `ys`. -/
def splice {α : Type*} (xs : List α) (start : Nat) (ys : List α) : List α :=
  xs.take start ++ ys ++ xs.drop (start + ys.length)

theorem length_slice {α : Type*} {xs : List α} {start len : Nat} (h : start + len ≤ xs.length) :
    (slice xs start len).length = len := by
  simp only [slice, List.length_take, List.length_drop]
  omega

@[simp] theorem slice_zero_length {α : Type*} (xs : List α) : slice xs 0 xs.length = xs := by
  simp [slice]

/-- A window inside the left part of a concatenation. -/
theorem slice_append_left {α : Type*} {xs : List α} (ys : List α) {start len : Nat}
    (h : start + len ≤ xs.length) : slice (xs ++ ys) start len = slice xs start len := by
  unfold slice
  rw [List.drop_append_of_le_length (by omega), List.take_append_of_le_length]
  rw [List.length_drop]
  omega

/-- A window inside the right part of a concatenation. -/
theorem slice_append_right {α : Type*} (xs ys : List α) {start len : Nat}
    (h : xs.length ≤ start) : slice (xs ++ ys) start len = slice ys (start - xs.length) len := by
  unfold slice
  rw [List.drop_append, List.drop_eq_nil_of_le h, List.nil_append]

theorem splice_append_left {α : Type*} {xs : List α} (ys : List α) {start : Nat} {zs : List α}
    (h : start + zs.length ≤ xs.length) :
    splice (xs ++ ys) start zs = splice xs start zs ++ ys := by
  unfold splice
  rw [List.take_append_of_le_length (by omega), List.drop_append_of_le_length h]
  simp only [List.append_assoc]

theorem splice_append_right {α : Type*} (xs ys : List α) {start : Nat} {zs : List α}
    (h : xs.length ≤ start) :
    splice (xs ++ ys) start zs = xs ++ splice ys (start - xs.length) zs := by
  unfold splice
  rw [List.take_append, List.take_of_length_le h, List.drop_append,
    List.drop_eq_nil_of_le (by omega), List.nil_append]
  simp only [List.append_assoc]
  congr 4
  omega

/-- Overwriting the middle of three parts by a part of the same length. -/
theorem splice_middle {α : Type*} (xs ys zs : List α) {ys' : List α}
    (h : ys'.length = ys.length) :
    splice (xs ++ (ys ++ zs)) xs.length ys' = xs ++ (ys' ++ zs) := by
  unfold splice
  rw [h, List.take_left, List.drop_append, List.drop_eq_nil_of_le (by omega), List.nil_append,
    Nat.add_sub_cancel_left, List.drop_left, List.append_assoc]

theorem slice_middle {α : Type*} (xs ys zs : List α) :
    slice (xs ++ (ys ++ zs)) xs.length ys.length = ys := by
  unfold slice
  rw [List.drop_left, List.take_left]

/-- The `len` elements from position `start` on, when all of them are there. -/
def window {α : Type*} (xs : List α) (start len : Nat) : Option (List α) :=
  if start + len ≤ xs.length then some (slice xs start len) else none

theorem window_eq_some {α : Type*} {xs : List α} {start len : Nat} (h : start + len ≤ xs.length) :
    window xs start len = some (slice xs start len) := if_pos h

theorem window_eq_none {α : Type*} {xs : List α} {start len : Nat} (h : xs.length < start + len) :
    window xs start len = none := if_neg (by omega)

theorem window_append_right {α : Type*} (xs ys : List α) (start len : Nat) :
    window (xs ++ ys) (xs.length + start) len = window ys start len := by
  unfold window
  rw [slice_append_right _ _ (by omega), Nat.add_sub_cancel_left, List.length_append]
  simp only [Nat.add_assoc, Nat.add_le_add_iff_left]

/-! ## Little-endian numbers -/

/-- The `width` little-endian bytes of `n`; higher bits are dropped. -/
def leBytes : Nat → Nat → Bytes
  | 0, _ => []
  | width + 1, n => UInt8.ofNat (n % 256) :: leBytes width (n / 256)

/-- The number whose little-endian bytes these are. -/
def leValue (bs : Bytes) : Nat := bs.foldr (fun b high => b.toNat + 256 * high) 0

@[simp] theorem leValue_nil : leValue [] = 0 := rfl

@[simp] theorem leValue_cons (b : UInt8) (bs : Bytes) :
    leValue (b :: bs) = b.toNat + 256 * leValue bs := rfl

@[simp] theorem length_leBytes (width n : Nat) : (leBytes width n).length = width := by
  induction width generalizing n with
  | zero => rfl
  | succ width ih => simp [leBytes, ih]

theorem leValue_leBytes {width n : Nat} (h : n < 256 ^ width) : leValue (leBytes width n) = n := by
  induction width generalizing n with
  | zero =>
    have hZero : n = 0 := by simpa using h
    simp [leBytes, hZero]
  | succ width ih =>
    have hHigh : n / 256 < 256 ^ width :=
      Nat.div_lt_of_lt_mul (by rwa [pow_succ, Nat.mul_comm] at h)
    have hLow : (UInt8.ofNat (n % 256)).toNat = n % 256 := by
      rw [UInt8.toNat_ofNat']
      omega
    simp only [leBytes, leValue_cons, ih hHigh, hLow]
    omega

/-- Every byte string is the little-endian form of its own value. -/
theorem leBytes_leValue {width : Nat} {bs : Bytes} (h : bs.length = width) :
    leBytes width (leValue bs) = bs := by
  induction bs generalizing width with
  | nil =>
    subst h
    rfl
  | cons b bs ih =>
    obtain rfl : bs.length + 1 = width := h
    have hByte : b.toNat < 256 := b.toNat_lt
    have hLow : (b.toNat + 256 * leValue bs) % 256 = b.toNat := by omega
    have hHigh : (b.toNat + 256 * leValue bs) / 256 = leValue bs := by omega
    simp only [leValue_cons, leBytes, hLow, hHigh, UInt8.ofNat_toNat, ih rfl]

theorem leValue_lt (bs : Bytes) : leValue bs < 256 ^ bs.length := by
  induction bs with
  | nil => simp
  | cons b bs ih =>
    have hByte : b.toNat < 256 := b.toNat_lt
    rw [leValue_cons, List.length_cons, pow_succ]
    omega

/-! ## Machine integers -/

def ofU32 (v : UInt32) : Bytes := leBytes 4 v.toNat

def toU32 (bs : Bytes) : UInt32 := UInt32.ofNat (leValue bs)

def ofU64 (v : UInt64) : Bytes := leBytes 8 v.toNat

def toU64 (bs : Bytes) : UInt64 := UInt64.ofNat (leValue bs)

@[simp] theorem length_ofU32 (v : UInt32) : (ofU32 v).length = 4 := length_leBytes ..

@[simp] theorem length_ofU64 (v : UInt64) : (ofU64 v).length = 8 := length_leBytes ..

@[simp] theorem toU32_ofU32 (v : UInt32) : toU32 (ofU32 v) = v := by
  rw [toU32, ofU32, leValue_leBytes v.toNat_lt, UInt32.ofNat_toNat]

@[simp] theorem toU64_ofU64 (v : UInt64) : toU64 (ofU64 v) = v := by
  rw [toU64, ofU64, leValue_leBytes v.toNat_lt, UInt64.ofNat_toNat]

theorem ofU32_toU32 {bs : Bytes} (h : bs.length = 4) : ofU32 (toU32 bs) = bs := by
  have hlt := leValue_lt bs
  rw [h] at hlt
  rw [ofU32, toU32, UInt32.toNat_ofNat', Nat.mod_eq_of_lt (by omega), leBytes_leValue h]

theorem ofU64_toU64 {bs : Bytes} (h : bs.length = 8) : ofU64 (toU64 bs) = bs := by
  have hlt := leValue_lt bs
  rw [h] at hlt
  rw [ofU64, toU64, UInt64.toNat_ofNat', Nat.mod_eq_of_lt (by omega), leBytes_leValue h]

end Bytes

end MultimodalDb
