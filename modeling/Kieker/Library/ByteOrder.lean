import Mathlib.Algebra.Order.Ring.Nat
import Mathlib.Tactic.Ring
import Mathlib.Tactic.NormNum

/-!
# Byte order

Fixed-width encodings of natural numbers as bytes, in both byte orders, and the
byte swap that turns one into the other. An encoding keeps the low `8 * width`
bits of its argument, so encoding after decoding is exact and decoding after
encoding is the remainder modulo `256 ^ width`.
-/

namespace ByteOrder

/-- The `width` low bytes of a number, least significant first. -/
def littleEndian : ℕ → ℕ → List UInt8
  | 0, _ => []
  | width + 1, value => UInt8.ofNat (value % 256) :: littleEndian width (value / 256)

/-- The number whose bytes are listed least significant first. -/
def ofLittleEndian : List UInt8 → ℕ
  | [] => 0
  | byte :: bytes => byte.toNat + 256 * ofLittleEndian bytes

/-- The `width` low bytes of a number, most significant first. -/
def bigEndian (width value : ℕ) : List UInt8 :=
  (littleEndian width value).reverse

/-- The number whose bytes are listed most significant first. -/
def ofBigEndian (bytes : List UInt8) : ℕ :=
  ofLittleEndian bytes.reverse

/-- The number whose bytes are those of `value` in the opposite order. -/
def swapBytes (width value : ℕ) : ℕ :=
  ofLittleEndian (littleEndian width value).reverse

@[simp]
theorem length_littleEndian (width value : ℕ) : (littleEndian width value).length = width := by
  induction width generalizing value with
  | zero => rfl
  | succ width ih => simp [littleEndian, ih]

@[simp]
theorem length_bigEndian (width value : ℕ) : (bigEndian width value).length = width := by
  simp [bigEndian]

theorem ofLittleEndian_littleEndian (width value : ℕ) :
    ofLittleEndian (littleEndian width value) = value % 256 ^ width := by
  induction width generalizing value with
  | zero => simp [littleEndian, ofLittleEndian, Nat.mod_one]
  | succ width ih =>
      have lowByte : (UInt8.ofNat (value % 256)).toNat = value % 256 := by
        rw [UInt8.toNat_ofNat']
        exact Nat.mod_eq_of_lt (by omega)
      rw [littleEndian, ofLittleEndian, ih, lowByte, pow_succ', Nat.mod_mul]

theorem littleEndian_ofLittleEndian (bytes : List UInt8) :
    littleEndian bytes.length (ofLittleEndian bytes) = bytes := by
  induction bytes with
  | nil => rfl
  | cons byte bytes ih =>
      have byte_lt : byte.toNat < 256 := byte.toNat_lt
      rw [List.length_cons, littleEndian, ofLittleEndian, Nat.add_mul_mod_self_left,
        Nat.mod_eq_of_lt byte_lt, UInt8.ofNat_toNat, Nat.add_mul_div_left _ _ (by norm_num),
        Nat.div_eq_of_lt byte_lt, Nat.zero_add, ih]

theorem ofLittleEndian_lt (bytes : List UInt8) : ofLittleEndian bytes < 256 ^ bytes.length := by
  induction bytes with
  | nil => simp [ofLittleEndian]
  | cons byte bytes ih =>
      have byte_lt : byte.toNat < 256 := byte.toNat_lt
      rw [ofLittleEndian, List.length_cons, pow_succ]
      omega

theorem ofBigEndian_bigEndian (width value : ℕ) :
    ofBigEndian (bigEndian width value) = value % 256 ^ width := by
  simp [ofBigEndian, bigEndian, ofLittleEndian_littleEndian]

theorem bigEndian_ofBigEndian (bytes : List UInt8) :
    bigEndian bytes.length (ofBigEndian bytes) = bytes := by
  have reversed := littleEndian_ofLittleEndian bytes.reverse
  rw [List.length_reverse] at reversed
  simp [bigEndian, ofBigEndian, reversed]

theorem ofBigEndian_lt (bytes : List UInt8) : ofBigEndian bytes < 256 ^ bytes.length := by
  simpa [ofBigEndian] using ofLittleEndian_lt bytes.reverse

/--
Storing a byte-swapped number in little-endian order leaves the bytes of the
number itself in big-endian order.
-/
theorem littleEndian_swapBytes (width value : ℕ) :
    littleEndian width (swapBytes width value) = bigEndian width value := by
  have stored := littleEndian_ofLittleEndian (littleEndian width value).reverse
  rw [List.length_reverse, length_littleEndian] at stored
  exact stored

end ByteOrder
