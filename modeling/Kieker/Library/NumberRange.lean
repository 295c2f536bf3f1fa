import Mathlib.Data.List.Nodup
import Mathlib.Tactic.Linarith

/-!
# Ranges of consecutive numbers

A counter that is put back from time to time hands out ranges of consecutive
numbers. No number is handed out twice exactly if the ranges are pairwise apart.
-/

/-- The `count` numbers from `first` on. -/
structure NumberRange where
  first : ℤ
  count : ℕ
  deriving DecidableEq

namespace NumberRange

/-- The numbers in a range, in order. -/
def numbers (range : NumberRange) : List ℤ :=
  (List.range range.count).map fun index : ℕ => range.first + index

/-- The range with one more number. -/
def grow (range : NumberRange) : NumberRange :=
  { range with count := range.count + 1 }

/-- One of the ranges is empty, or one of them ends before the other one begins. -/
def Apart (range other : NumberRange) : Prop :=
  range.count = 0 ∨ other.count = 0 ∨ range.first + range.count ≤ other.first ∨
    other.first + other.count ≤ range.first

instance (range other : NumberRange) : Decidable (range.Apart other) :=
  inferInstanceAs (Decidable (_ ∨ _ ∨ _ ∨ _))

variable {range other : NumberRange} {ranges : List NumberRange}

theorem mem_numbers {number : ℤ} :
    number ∈ range.numbers ↔ range.first ≤ number ∧ number < range.first + range.count := by
  simp only [numbers, List.mem_map, List.mem_range]
  constructor
  · rintro ⟨index, below, rfl⟩
    omega
  · rintro ⟨lower, upper⟩
    exact ⟨(number - range.first).toNat, by omega, by omega⟩

theorem nodup_numbers (range : NumberRange) : range.numbers.Nodup := by
  apply List.nodup_range.map
  intro first second same
  simpa using same

theorem numbers_grow (range : NumberRange) :
    range.grow.numbers = range.numbers ++ [range.first + range.count] := by
  simp [numbers, grow, List.range_succ]

theorem disjoint_numbers_iff : range.numbers.Disjoint other.numbers ↔ range.Apart other := by
  constructor
  · intro disjoint
    by_contra overlap
    simp only [Apart, not_or, not_le] at overlap
    rcases overlap with ⟨someNumber, someOther, reaches, otherReaches⟩
    -- The later of the two first numbers is in both ranges.
    have inRange : max range.first other.first ∈ range.numbers := by
      rw [mem_numbers]
      omega
    have inOther : max range.first other.first ∈ other.numbers := by
      rw [mem_numbers]
      omega
    exact disjoint inRange inOther
  · intro apart number inRange inOther
    rw [mem_numbers] at inRange inOther
    rcases apart with empty | empty | before | after
    · omega
    · omega
    · omega
    · omega

/-- No number is in two ranges exactly if the ranges are pairwise apart. -/
theorem nodup_flatMap_numbers_iff :
    (ranges.flatMap numbers).Nodup ↔ ranges.Pairwise Apart := by
  rw [List.nodup_flatMap]
  constructor
  · rintro ⟨-, disjoint⟩
    exact disjoint.imp disjoint_numbers_iff.mp
  · intro apart
    exact ⟨fun range _ => range.nodup_numbers, apart.imp disjoint_numbers_iff.mpr⟩

end NumberRange
