import Mathlib.Data.Nat.Digits.Lemmas

/-!
# Hexadecimal numbers

Numbers as they are printed in base 16: lower-case digits, the most significant
one first, and no leading zeros. A printed number can be read back, so different
numbers are printed differently.
-/

namespace Hexadecimal

/-- The character of a digit. -/
def hexDigit (digit : ℕ) : UInt8 :=
  if digit < 10 then UInt8.ofNat (48 + digit) else UInt8.ofNat (87 + digit)

/-- The digit that a character stands for. -/
def digitValue (character : UInt8) : ℕ :=
  if character.toNat < 58 then character.toNat - 48 else character.toNat - 87

/-- A number in base 16. -/
def hexDigits (number : ℕ) : List UInt8 :=
  if number = 0 then [hexDigit 0] else ((Nat.digits 16 number).map hexDigit).reverse

/-- The number that some characters stand for. -/
def readHexDigits (characters : List UInt8) : ℕ :=
  Nat.ofDigits 16 (characters.reverse.map digitValue)

theorem digitValue_hexDigit : ∀ digit < 16, digitValue (hexDigit digit) = digit := by
  decide

theorem hexDigit_ne_zero : ∀ digit < 16, hexDigit digit ≠ 0 := by
  decide

theorem readHexDigits_hexDigits (number : ℕ) : readHexDigits (hexDigits number) = number := by
  by_cases zero : number = 0
  · rw [hexDigits, if_pos zero, zero]
    rfl
  · rw [hexDigits, if_neg zero, readHexDigits, List.reverse_reverse, List.map_map]
    have values : (Nat.digits 16 number).map (digitValue ∘ hexDigit) =
        (Nat.digits 16 number).map id := by
      apply List.map_congr_left
      intro digit digit_mem
      exact digitValue_hexDigit digit (Nat.digits_lt_base (by norm_num) digit_mem)
    rw [values, List.map_id, Nat.ofDigits_digits]

theorem hexDigits_injective : Function.Injective hexDigits :=
  Function.LeftInverse.injective readHexDigits_hexDigits

theorem zero_notMem_hexDigits (number : ℕ) : (0 : UInt8) ∉ hexDigits number := by
  intro zero_mem
  by_cases zero : number = 0
  · rw [hexDigits, if_pos zero, List.mem_singleton] at zero_mem
    exact absurd zero_mem (by decide)
  · rw [hexDigits, if_neg zero, List.mem_reverse, List.mem_map] at zero_mem
    rcases zero_mem with ⟨digit, digit_mem, isZero⟩
    exact hexDigit_ne_zero digit (Nat.digits_lt_base (by norm_num) digit_mem) isZero

theorem length_hexDigits_le {number count : ℕ} (positive : 0 < count)
    (small : number < 16 ^ count) : (hexDigits number).length ≤ count := by
  by_cases zero : number = 0
  · rw [hexDigits, if_pos zero]
    exact positive
  · rw [hexDigits, if_neg zero, List.length_reverse, List.length_map]
    exact (Nat.digits_length_le_iff (by norm_num) number).mpr small

end Hexadecimal
