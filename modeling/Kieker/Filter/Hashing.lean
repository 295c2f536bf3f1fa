import Kieker.Filter.Loading
import Mathlib.Data.List.Induction
import Mathlib.Tactic.Ring

/-!
# Every hash belongs to some signature

`kieker_adaptive_hash` reads a string as digits of base 33. Strings of 13 bytes are
enough to reach every 64-bit number, so what the filter answers for all signatures
determines what the binary search finds for all hashes.
-/

namespace Kieker

/-- `kieker_adaptive_hash` without the reduction to 64 bits, from a start value. -/
def unboundedHash (start : ℕ) (string : List UInt8) : ℕ :=
  string.foldl (fun hash byte => hash * 33 + byte.toNat) start

variable {string : List UInt8}

theorem shift_add_self (hash : UInt64) : (hash <<< 5) + hash = hash * 33 := by
  apply UInt64.toNat_inj.mp
  simp only [UInt64.toNat_add, UInt64.toNat_shiftLeft, UInt64.toNat_mul]
  change (hash.toNat <<< 5 % 2 ^ 64 + hash.toNat) % 2 ^ 64 = hash.toNat * 33 % 2 ^ 64
  rw [Nat.shiftLeft_eq]
  omega

theorem adaptiveHash_append (string : List UInt8) (byte : UInt8) :
    adaptiveHash (string ++ [byte]) = adaptiveHash string * 33 + byte.toUInt64 := by
  rw [adaptiveHash, List.foldl_append, List.foldl_cons, List.foldl_nil, shift_add_self, adaptiveHash]

@[simp]
theorem unboundedHash_append (start : ℕ) (string : List UInt8) (byte : UInt8) :
    unboundedHash start (string ++ [byte]) = unboundedHash start string * 33 + byte.toNat := by
  rw [unboundedHash, List.foldl_append, List.foldl_cons, List.foldl_nil, unboundedHash]

theorem toNat_adaptiveHash (string : List UInt8) :
    (adaptiveHash string).toNat = unboundedHash 5381 string % 2 ^ 64 := by
  induction string using List.reverseRecOn with
  | nil => rfl
  | append_singleton string byte ih =>
      rw [adaptiveHash_append, unboundedHash_append, UInt64.toNat_add, UInt64.toNat_mul, ih]
      change (_ * 33 % 2 ^ 64 + byte.toNat) % 2 ^ 64 = _
      omega

theorem unboundedHash_start (start : ℕ) (string : List UInt8) :
    unboundedHash start string = start * 33 ^ string.length + unboundedHash 0 string := by
  induction string using List.reverseRecOn with
  | nil => simp [unboundedHash]
  | append_singleton string byte ih =>
      rw [unboundedHash_append, unboundedHash_append, ih, List.length_append, List.length_singleton,
        Nat.pow_succ]
      ring

/-- The digits one to 33 reach as many successive numbers as there are strings of a length. -/
theorem exists_unboundedHash (length : ℕ) :
    ∃ least, ∀ value < 33 ^ length, ∃ string : CString, string.length = length ∧
      unboundedHash 0 string.bytes = least + value := by
  induction length with
  | zero =>
      refine ⟨0, fun value small => ⟨.literal "", rfl, ?_⟩⟩
      have none : value = 0 := by simpa using small
      rw [none]
      rfl
  | succ length ih =>
      rcases ih with ⟨least, reach⟩
      refine ⟨least * 33 + 1, fun value small => ?_⟩
      rw [Nat.pow_succ] at small
      rcases reach (value / 33) (by omega) with ⟨string, stringLength, stringValue⟩
      have digit : (UInt8.ofNat (value % 33 + 1)).toNat = value % 33 + 1 := by
        rw [UInt8.toNat_ofNat']
        omega
      have nonzero : (0 : UInt8) ≠ UInt8.ofNat (value % 33 + 1) := by
        intro same
        rw [← same] at digit
        simp at digit
      refine ⟨⟨string.bytes ++ [UInt8.ofNat (value % 33 + 1)], ?_⟩, ?_, ?_⟩
      · rw [List.mem_append, List.mem_singleton, not_or]
        exact ⟨string.nulFree, nonzero⟩
      · simpa [CString.length] using stringLength
      · rw [unboundedHash_append, stringValue, digit]
        omega

/-- Every 64-bit number is the hash of a string. -/
theorem exists_adaptiveHash_eq (hash : UInt64) :
    ∃ string : CString, adaptiveHash string.bytes = hash := by
  rcases exists_unboundedHash 13 with ⟨least, reach⟩
  have enough : (2 : ℕ) ^ 64 ≤ 33 ^ 13 := by norm_num
  have small := hash.toNat_lt
  have modulus : (2 : ℕ) ^ 64 = 18446744073709551616 := by norm_num
  -- What the start value and the smallest digits contribute is taken off the hash.
  let base := 5381 * 33 ^ 13 + least
  have below : (hash.toNat + (2 ^ 64 - base % 2 ^ 64)) % 2 ^ 64 < 33 ^ 13 :=
    lt_of_lt_of_le (Nat.mod_lt _ (by norm_num)) enough
  rcases reach _ below with ⟨string, length, value⟩
  refine ⟨string, UInt64.toNat_inj.mp ?_⟩
  have stringLength : string.bytes.length = 13 := length
  rw [toNat_adaptiveHash, unboundedHash_start, stringLength, value, ← Nat.add_assoc]
  change (base + _) % 2 ^ 64 = _
  omega

end Kieker
