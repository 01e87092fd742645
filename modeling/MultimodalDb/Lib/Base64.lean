import MultimodalDb.Lib.Bytes
import Mathlib.Data.List.Basic

/-!
# Standard base64

What a base64 string stands for, group by group: four digits are three bytes, most significant
first, and a last group of two or three digits, padded to four, is one or two bytes, whose missing
bits are dropped (`StandsFor`). Every byte string has an encoding (`standsFor_encode`).
-/

namespace MultimodalDb

namespace Base64

def alphabet : Bytes :=
  "ABCDEFGHIJKLMNOPQRSTUVWXYZabcdefghijklmnopqrstuvwxyz0123456789+/".toUTF8.data.toList

/-- `=`. -/
def padding : UInt8 := 61

/-- The byte is the digit of the value. -/
def Digit (c : UInt8) (v : Nat) : Prop := alphabet[v]? = some c

inductive StandsFor : Bytes → Bytes → Prop where
  | nil : StandsFor [] []
  | four {c₀ c₁ c₂ c₃ b₀ b₁ b₂ : UInt8} {v₀ v₁ v₂ v₃ : Nat} {rest bytes : Bytes} :
    Digit c₀ v₀ → Digit c₁ v₁ → Digit c₂ v₂ → Digit c₃ v₃ →
    b₀.toNat * 256 ^ 2 + b₁.toNat * 256 + b₂.toNat = v₀ * 64 ^ 3 + v₁ * 64 ^ 2 + v₂ * 64 + v₃ →
    StandsFor rest bytes → StandsFor (c₀ :: c₁ :: c₂ :: c₃ :: rest) (b₀ :: b₁ :: b₂ :: bytes)
  | three {c₀ c₁ c₂ b₀ b₁ : UInt8} {v₀ v₁ v₂ : Nat} : Digit c₀ v₀ → Digit c₁ v₁ → Digit c₂ v₂ →
    b₀.toNat * 256 + b₁.toNat = (v₀ * 64 ^ 2 + v₁ * 64 + v₂) / 4 →
    StandsFor [c₀, c₁, c₂, padding] [b₀, b₁]
  | two {c₀ c₁ b₀ : UInt8} {v₀ v₁ : Nat} : Digit c₀ v₀ → Digit c₁ v₁ →
    b₀.toNat = (v₀ * 64 + v₁) / 16 → StandsFor [c₀, c₁, padding, padding] [b₀]

/-- The digit of a value below 64. -/
def digit (v : Nat) : UInt8 := alphabet.getD v 0

def encode : Bytes → Bytes
  | b₀ :: b₁ :: b₂ :: rest =>
    digit (b₀.toNat / 4) :: digit (b₀.toNat % 4 * 16 + b₁.toNat / 16) ::
      digit (b₁.toNat % 16 * 4 + b₂.toNat / 64) :: digit (b₂.toNat % 64) :: encode rest
  | [b₀, b₁] =>
    [digit (b₀.toNat / 4), digit (b₀.toNat % 4 * 16 + b₁.toNat / 16),
      digit (b₁.toNat % 16 * 4), padding]
  | [b₀] => [digit (b₀.toNat / 4), digit (b₀.toNat % 4 * 16), padding, padding]
  | [] => []

/-! ## Digits -/

theorem length_alphabet : alphabet.length = 64 := by decide

theorem Digit.lt {c : UInt8} {v : Nat} (h : Digit c v) : v < 64 := by
  have hLt := (List.getElem?_eq_some_iff.mp h).1
  rwa [length_alphabet] at hLt

theorem Digit.mem {c : UInt8} {v : Nat} (h : Digit c v) : c ∈ alphabet := List.mem_of_getElem? h

theorem Digit.ne_padding {c : UInt8} {v : Nat} (h : Digit c v) : c ≠ padding := by
  rintro rfl
  exact absurd h.mem (by decide)

theorem digit_spec {v : Nat} (h : v < 64) : Digit (digit v) v := by
  have hIn : v < alphabet.length := by rwa [length_alphabet]
  rw [Digit, digit, List.getD_eq_getElem?_getD, List.getElem?_eq_getElem hIn, Option.getD_some]

/-! ## Strings -/

theorem standsFor_encode (bytes : Bytes) : StandsFor (encode bytes) bytes := by
  induction bytes using encode.induct with
  | case1 b₀ b₁ b₂ rest ih =>
    have h₀ := b₀.toNat_lt
    have h₁ := b₁.toNat_lt
    have h₂ := b₂.toNat_lt
    exact .four (digit_spec (by omega)) (digit_spec (by omega)) (digit_spec (by omega))
      (digit_spec (by omega)) (by omega) ih
  | case2 b₀ b₁ =>
    have h₀ := b₀.toNat_lt
    have h₁ := b₁.toNat_lt
    exact .three (digit_spec (by omega)) (digit_spec (by omega)) (digit_spec (by omega)) (by omega)
  | case3 b₀ =>
    have h₀ := b₀.toNat_lt
    exact .two (digit_spec (by omega)) (digit_spec (by omega)) (by omega)
  | case4 => exact .nil

/-- A string has a length divisible by four, and at most two padding characters, all at its end. -/
theorem StandsFor.shape {s bytes : Bytes} (h : StandsFor s bytes) : s.length % 4 = 0 ∧
    ∃ digits n, s = digits ++ List.replicate n padding ∧ n ≤ 2 ∧ ∀ c ∈ digits, c ∈ alphabet := by
  induction h with
  | nil => exact ⟨rfl, [], 0, rfl, Nat.zero_le 2, by simp⟩
  | @four c₀ c₁ c₂ c₃ _ _ _ _ _ _ _ rest bytes h₀ h₁ h₂ h₃ _ _ ih =>
    obtain ⟨hLength, digits, n, rfl, hn, hDigits⟩ := ih
    refine ⟨by simp only [List.length_cons]; omega, c₀ :: c₁ :: c₂ :: c₃ :: digits, n, rfl, hn, ?_⟩
    simp only [List.forall_mem_cons]
    exact ⟨h₀.mem, h₁.mem, h₂.mem, h₃.mem, hDigits⟩
  | @three c₀ c₁ c₂ _ _ _ _ _ h₀ h₁ h₂ _ =>
    refine ⟨by simp, [c₀, c₁, c₂], 1, by simp, by omega, ?_⟩
    simp only [List.forall_mem_cons]
    exact ⟨h₀.mem, h₁.mem, h₂.mem, by simp⟩
  | @two c₀ c₁ _ _ _ h₀ h₁ _ =>
    refine ⟨by simp, [c₀, c₁], 2, by simp [List.replicate], le_rfl, ?_⟩
    simp only [List.forall_mem_cons]
    exact ⟨h₀.mem, h₁.mem, by simp⟩

end Base64

end MultimodalDb
