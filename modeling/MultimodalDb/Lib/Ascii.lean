import Mathlib.Tactic.SplitIfs

/-!
# ASCII letters and digits

The ASCII classes as ranges of code points, and the two changes of case, neither of which is seen
through the other.
-/

namespace MultimodalDb.Ascii

theorem isDigit_iff {c : Char} : c.isDigit = true ↔ 48 ≤ c.toNat ∧ c.toNat ≤ 57 :=
  Char.isDigit_iff_toNat

theorem isAlpha_iff {c : Char} :
    c.isAlpha = true ↔ (65 ≤ c.toNat ∧ c.toNat ≤ 90) ∨ (97 ≤ c.toNat ∧ c.toNat ≤ 122) := by
  have hUpper : c.isUpper = decide (c.val ≥ 'A'.val ∧ c.val ≤ 'Z'.val) := rfl
  have hLower : c.isLower = (decide (c.val ≥ 'a'.val) && decide (c.val ≤ 'z'.val)) := rfl
  have hAlpha : c.isAlpha = (c.isUpper || c.isLower) := rfl
  rw [hAlpha, hUpper, hLower]
  simp [UInt32.le_iff_toNat_le]

theorem toNat_toLower (c : Char) :
    c.toLower.toNat = if 65 ≤ c.toNat ∧ c.toNat ≤ 90 then c.toNat + 32 else c.toNat := by
  unfold Char.toLower
  split
  · next h =>
    simp only [ge_iff_le, UInt32.le_iff_toNat_le, Char.toNat_val] at h
    have h' : 65 ≤ c.toNat ∧ c.toNat ≤ 90 := h
    rw [if_pos h']
    change (c.val + ('a'.val - 'A'.val)).toNat = _
    rw [UInt32.toNat_add, Char.toNat_val]
    exact Nat.mod_eq_of_lt (show c.toNat + 32 < 2 ^ 32 by omega)
  · next h =>
    simp only [ge_iff_le, UInt32.le_iff_toNat_le, Char.toNat_val] at h
    exact (if_neg h).symm

theorem toNat_toUpper (c : Char) :
    c.toUpper.toNat = if 97 ≤ c.toNat ∧ c.toNat ≤ 122 then c.toNat - 32 else c.toNat := by
  unfold Char.toUpper
  split
  · next h =>
    simp only [UInt32.le_iff_toNat_le, Char.toNat_val] at h
    have h' : 97 ≤ c.toNat ∧ c.toNat ≤ 122 := h
    rw [if_pos h']
    change (c.val + ('A'.val - 'a'.val)).toNat = _
    rw [UInt32.toNat_add, Char.toNat_val]
    change (c.toNat + 4294967264) % 4294967296 = _
    omega
  · next h =>
    simp only [UInt32.le_iff_toNat_le, Char.toNat_val] at h
    exact (if_neg h).symm

theorem toLower_toUpper (c : Char) : c.toUpper.toLower = c.toLower := by
  refine Char.ext (UInt32.toNat_inj.mp ?_)
  change c.toUpper.toLower.toNat = c.toLower.toNat
  rw [toNat_toLower, toNat_toUpper, toNat_toLower]
  split_ifs <;> omega

theorem toUpper_toLower (c : Char) : c.toLower.toUpper = c.toUpper := by
  refine Char.ext (UInt32.toNat_inj.mp ?_)
  change c.toLower.toUpper.toNat = c.toUpper.toNat
  rw [toNat_toUpper, toNat_toLower, toNat_toUpper]
  split_ifs <;> omega

end MultimodalDb.Ascii
