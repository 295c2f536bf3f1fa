import Mathlib.Data.List.Sort
import Mathlib.Logic.Function.Basic

/-!
# Sorting and searching with a comparison function

The library functions `qsort` and `bsearch`, for comparison functions that return
a negative number, zero or a positive number. `Compares` says that a function
compares by a rank; then a search in a sorted array finds what is there.
-/

universe u

namespace Searching

variable {Element : Type u}

/-- `qsort` for a comparison function. -/
def qsort (compare : Element → Element → ℤ) (elements : List Element) : List Element :=
  elements.insertionSort fun first second => compare first second ≤ 0

/--
The loop of `bsearch` between the bounds `low` and `high`; `fuel` bounds the
number of rounds, and `high - low` rounds are always enough.
-/
def bsearchLoop (compare : Element → Element → ℤ) (key : Element) (base : ℕ → Element) :
    ℕ → ℕ → ℕ → Option ℕ
  | 0, _, _ => none
  | fuel + 1, low, high =>
      if low < high then
        let index := (low + high) / 2
        let comparison := compare key (base index)
        if comparison < 0 then bsearchLoop compare key base fuel low index
        else if 0 < comparison then bsearchLoop compare key base fuel (index + 1) high
        else some index
      else none

/-- `bsearch` for a comparison function: the index of an element equal to the key. -/
def bsearch (compare : Element → Element → ℤ) (key : Element) (base : ℕ → Element) (size : ℕ) :
    Option ℕ :=
  bsearchLoop compare key base size 0 size

/-- A comparison function compares elements by a rank that tells them apart. -/
structure Compares (compare : Element → Element → ℤ) (rank : Element → ℕ) : Prop where
  injective : Function.Injective rank
  neg_iff : ∀ first second, compare first second < 0 ↔ rank first < rank second
  pos_iff : ∀ first second, 0 < compare first second ↔ rank second < rank first

variable {compare : Element → Element → ℤ} {rank : Element → ℕ} {elements : List Element}
  {base : ℕ → Element} {size low high fuel : ℕ}

namespace Compares

theorem nonpos_iff (compares : Compares compare rank) (first second : Element) :
    compare first second ≤ 0 ↔ rank first ≤ rank second := by
  rw [← not_lt, compares.pos_iff, not_lt]

theorem perm_qsort (compare : Element → Element → ℤ) (elements : List Element) :
    (qsort compare elements).Perm elements :=
  List.perm_insertionSort _ elements

theorem sorted_qsort (compares : Compares compare rank) (elements : List Element) :
    (qsort compare elements).Pairwise fun first second => rank first ≤ rank second := by
  have total : Std.Total fun first second => compare first second ≤ 0 := by
    refine ⟨fun first second => ?_⟩
    rw [compares.nonpos_iff, compares.nonpos_iff]
    exact le_total _ _
  have transitive : IsTrans Element fun first second => compare first second ≤ 0 := by
    refine ⟨fun first second third => ?_⟩
    simp only [compares.nonpos_iff]
    exact le_trans
  apply (List.pairwise_insertionSort _ elements).imp
  intro first second ordered
  rwa [compares.nonpos_iff] at ordered

/-- Without repeated elements the sorted ranks rise. -/
theorem rising_qsort (compares : Compares compare rank) (apart : elements.Nodup) :
    (qsort compare elements).Pairwise fun first second => rank first < rank second := by
  have sortedApart := (perm_qsort compare elements).nodup_iff.mpr apart
  refine (compares.sorted_qsort elements).imp₂ (fun _ _ ordered different => ?_) sortedApart
  exact lt_of_le_of_ne ordered fun same => different (compares.injective same)

/-- After sorting, an element that occurs twice has an equal neighbour. -/
theorem exists_equal_neighbours_iff (compares : Compares compare rank) (elements : List Element) :
    (∃ index, ∃ inside : index + 1 < (qsort compare elements).length,
      (qsort compare elements)[index] = (qsort compare elements)[index + 1]) ↔ ¬elements.Nodup := by
  rw [← (perm_qsort compare elements).nodup_iff]
  constructor
  · rintro ⟨index, inside, same⟩ apart
    rw [apart.getElem_inj_iff] at same
    omega
  · intro repeated
    by_contra noneEqual
    apply repeated
    have rising : (qsort compare elements).IsChain fun first second => rank first < rank second := by
      rw [List.isChain_iff_getElem]
      intro index inside
      have ordered := List.pairwise_iff_getElem.mp (compares.sorted_qsort elements) index
        (index + 1) (by omega) inside (by omega)
      exact lt_of_le_of_ne ordered fun same =>
        noneEqual ⟨index, inside, compares.injective same⟩
    refine (List.isChain_iff_pairwise.mp rising).imp fun {first second} smaller same => ?_
    rw [same] at smaller
    exact lt_irrefl _ smaller

theorem isSome_bsearchLoop (compares : Compares compare rank) (key : Element)
    (sorted : ∀ first second, first < second → second < size →
      rank (base first) ≤ rank (base second))
    (enough : high - low ≤ fuel) (inside : high ≤ size) :
    (bsearchLoop compare key base fuel low high).isSome ↔
      ∃ index, low ≤ index ∧ index < high ∧ base index = key := by
  induction fuel generalizing low high with
  | zero =>
      simp only [bsearchLoop, Option.isSome_none, Bool.false_eq_true, false_iff]
      rintro ⟨index, atLeast, below, -⟩
      omega
  | succ fuel ih =>
      by_cases someLeft : low < high
      · have middleLow : low ≤ (low + high) / 2 := by omega
        have middleHigh : (low + high) / 2 < high := by omega
        simp only [bsearchLoop, someLeft, if_true]
        by_cases smaller : compare key (base ((low + high) / 2)) < 0
        · rw [if_pos smaller, ih (by omega) (by omega)]
          rw [compares.neg_iff] at smaller
          constructor
          · rintro ⟨index, atLeast, below, found⟩
            exact ⟨index, atLeast, by omega, found⟩
          · rintro ⟨index, atLeast, below, rfl⟩
            refine ⟨index, atLeast, ?_, rfl⟩
            by_contra above
            rcases eq_or_lt_of_le (not_lt.mp above) with same | later
            · rw [same] at smaller
              exact lt_irrefl _ smaller
            · exact absurd (sorted _ _ later (by omega)) (not_le.mpr smaller)
        · rw [if_neg smaller]
          by_cases greater : 0 < compare key (base ((low + high) / 2))
          · rw [if_pos greater, ih (by omega) inside]
            rw [compares.pos_iff] at greater
            constructor
            · rintro ⟨index, atLeast, below, found⟩
              exact ⟨index, by omega, below, found⟩
            · rintro ⟨index, atLeast, below, rfl⟩
              refine ⟨index, ?_, below, rfl⟩
              by_contra under
              rcases eq_or_lt_of_le (Nat.le_of_lt_succ (not_le.mp under)) with same | earlier
              · rw [same] at greater
                exact lt_irrefl _ greater
              · exact absurd (sorted _ _ earlier (by omega)) (not_le.mpr greater)
          · rw [if_neg greater]
            rw [compares.neg_iff, not_lt] at smaller
            rw [compares.pos_iff, not_lt] at greater
            have found : base ((low + high) / 2) = key :=
              compares.injective (le_antisymm smaller greater)
            exact iff_of_true rfl ⟨_, middleLow, middleHigh, found⟩
      · simp only [bsearchLoop, someLeft, if_false, Option.isSome_none, Bool.false_eq_true,
          false_iff]
        rintro ⟨index, atLeast, below, -⟩
        omega

/-- What the loop finds is there, in whatever order the elements stand. -/
theorem exists_of_isSome_bsearchLoop (compares : Compares compare rank) (key : Element)
    (found : (bsearchLoop compare key base fuel low high).isSome) :
    ∃ index < high, base index = key := by
  induction fuel generalizing low high with
  | zero => cases found
  | succ fuel ih =>
      simp only [bsearchLoop] at found
      split at found
      · split at found
        · rcases ih found with ⟨index, below, same⟩
          exact ⟨index, by omega, same⟩
        · split at found
          · exact ih found
          · rename_i notSmaller notGreater
            rw [compares.neg_iff, not_lt] at notSmaller
            rw [compares.pos_iff, not_lt] at notGreater
            exact ⟨(low + high) / 2, by omega,
              compares.injective (le_antisymm notSmaller notGreater)⟩
      · cases found

/-- A search in a sorted array finds the key exactly if it is there. -/
theorem isSome_bsearch (compares : Compares compare rank) (key : Element)
    (sorted : ∀ first second, first < second → second < size →
      rank (base first) ≤ rank (base second)) :
    (bsearch compare key base size).isSome ↔ ∃ index < size, base index = key := by
  rw [bsearch, compares.isSome_bsearchLoop key sorted (by omega) (le_refl size)]
  simp

end Compares

end Searching
