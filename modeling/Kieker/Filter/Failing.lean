import Kieker.Filter.Hashing
import Mathlib.Data.Finset.Card
import Mathlib.Data.Finset.Union

/-!
# Loads that fail

A load that fails has already changed the mode, and perhaps the table and its size,
or it has written behind the table. The answers stay the same only if there is room
for the entry lines, the mode in force is the one of the file, and the search finds
in the new table what it found in the old one.
-/

namespace Kieker

open Searching

namespace AdaptiveFilter

variable {first second filter loaded : AdaptiveFilter} {heap : ℕ → List UInt8}
  {file : Option (List UInt8)} {content : List UInt8} {code mode : ℤ}

/-- Two filters give the same answer for every signature. -/
def AnswersAs (first second : AdaptiveFilter) : Prop :=
  ∀ classSignature, first.isClassExcluded classSignature = second.isClassExcluded classSignature

/--
A load leaves the filter in force: it returns, without a write behind the table, and
if it fails then the filter gives the answers that it gave before.
-/
def KeepsInForce (heap : ℕ → List UInt8) (file : Option (List UInt8)) (filter : AdaptiveFilter) :
    Prop :=
  ∃ code loaded, adaptiveLoadExcludeFile heap file filter = some (code, loaded) ∧
    (code < 0 → loaded.AnswersAs filter)

/--
A file does no harm: it has no header; or there is room for its entry lines, and
either these have different hashes, so that the file is loaded, or its header selects
the mode in force and the search in the table in force finds exactly their hashes.
-/
def HarmlessFile (heap : ℕ → List UInt8) (filter : AdaptiveFilter) (content : List UInt8) : Prop :=
  ∀ mode, fileMode heap content = some mode →
    (fileEntries heap content).length ≤ maxNumFiles ∧
      (((fileEntries heap content).map adaptiveHash).Nodup ∨
        (mode = 0 ↔ filter.mode = 0) ∧
          ∀ hash, filter.Finds hash ↔ hash ∈ (fileEntries heap content).map adaptiveHash)

/-- A search finds only what is in the table. -/
theorem exists_of_finds {hash : UInt64} (finds : filter.Finds hash) :
    ∃ index < filter.excludesSize, filter.functionHashes index = hash :=
  compares_adaptiveCompUlong.exists_of_isSome_bsearchLoop hash finds

/-- Two tables of moderate size leave out some hash. -/
theorem exists_not_finds (small : first.excludesSize + second.excludesSize < 2 ^ 64) :
    ∃ hash, ¬first.Finds hash ∧ ¬second.Finds hash := by
  by_contra all
  simp only [not_exists, not_and, not_not] at all
  let total := first.excludesSize + second.excludesSize
  let present := (Finset.range first.excludesSize).image first.functionHashes ∪
    (Finset.range second.excludesSize).image second.functionHashes
  have covered : (Finset.range (total + 1)).image UInt64.ofNat ⊆ present := by
    intro hash _
    rw [Finset.mem_union, Finset.mem_image, Finset.mem_image]
    by_cases inFirst : first.Finds hash
    · rcases exists_of_finds inFirst with ⟨index, inside, same⟩
      exact Or.inl ⟨index, Finset.mem_range.mpr inside, same⟩
    · rcases exists_of_finds (all hash inFirst) with ⟨index, inside, same⟩
      exact Or.inr ⟨index, Finset.mem_range.mpr inside, same⟩
  have apart : Set.InjOn UInt64.ofNat (Finset.range (total + 1) : Set ℕ) := by
    intro left leftInside right rightInside same
    rw [Finset.coe_range, Set.mem_Iio] at leftInside rightInside
    have numbers := congrArg UInt64.toNat same
    rw [UInt64.toNat_ofNat', UInt64.toNat_ofNat'] at numbers
    omega
  have many := Finset.card_le_card covered
  rw [Finset.card_image_of_injOn apart, Finset.card_range] at many
  have few : present.card ≤ first.excludesSize + second.excludesSize := by
    refine (Finset.card_union_le _ _).trans (Nat.add_le_add ?_ ?_)
    · exact Finset.card_image_le.trans_eq (Finset.card_range _)
    · exact Finset.card_image_le.trans_eq (Finset.card_range _)
  omega

/-- Two filters answer the same exactly if they agree in the mode and in what they find. -/
theorem answersAs_iff (small : first.excludesSize + second.excludesSize < 2 ^ 64) :
    first.AnswersAs second ↔
      (first.mode = 0 ↔ second.mode = 0) ∧ ∀ hash, second.Finds hash ↔ first.Finds hash := by
  have byHash : first.AnswersAs second ↔
      ∀ hash, (first.Finds hash ↔ first.mode ≠ 0) ↔ (second.Finds hash ↔ second.mode ≠ 0) := by
    constructor
    · intro same hash
      rcases exists_adaptiveHash_eq hash with ⟨classSignature, rfl⟩
      rw [← isClassExcluded_eq_true, ← isClassExcluded_eq_true, same]
    · intro same classSignature
      rw [Bool.eq_iff_iff, isClassExcluded_eq_true, isClassExcluded_eq_true]
      exact same _
  rw [byHash]
  constructor
  · intro same
    rcases exists_not_finds small with ⟨hash, notFirst, notSecond⟩
    have modes := same hash
    simp only [notFirst, notSecond, false_iff, not_not] at modes
    refine ⟨modes, fun other => ?_⟩
    have here := same other
    by_cases mode : first.mode = 0
    · simp only [ne_eq, mode, modes.mp mode, not_true, iff_false] at here
      exact (not_iff_not.mp here).symm
    · have secondMode : second.mode ≠ 0 := fun zero => mode (modes.mpr zero)
      simp only [ne_eq, mode, secondMode, not_false_iff, iff_true] at here
      exact here.symm
  · rintro ⟨modes, finds⟩ hash
    rw [finds hash, ne_eq, ne_eq, modes]

/-- A load of a file that returns keeps the filter in force exactly if the file does no harm. -/
theorem answersAs_of_loads (small : filter.excludesSize < 2 ^ 31)
    (loads : filter.Loads heap (some content) code loaded) :
    (code < 0 → loaded.AnswersAs filter) ↔ HarmlessFile heap filter content := by
  cases loads with
  | empty noLine =>
      refine iff_of_true (fun _ _ => rfl) fun mode selects => ?_
      simp [fileMode, noLine] at selects
  | headless _ noMode =>
      refine iff_of_true (fun _ _ => rfl) fun mode selects => ?_
      rw [noMode] at selects
      cases selects
  | @clashing _ mode selects few clash =>
      have modeEq : (filter.replace mode ((fileEntries heap content).map adaptiveHash)).mode =
          mode := mode_replace _ _ _
      have sizeEq :
          (filter.replace mode ((fileEntries heap content).map adaptiveHash)).excludesSize =
          (fileEntries heap content).length := List.length_map _
      have bound : maxNumFiles = 200 := rfl
      have fails : (-5 : ℤ) < 0 := by norm_num
      rw [answersAs_iff (by omega), modeEq]
      simp only [HarmlessFile, selects, Option.some.injEq, forall_eq', few, clash, finds_replace,
        fails, true_and, false_or, forall_const]
  | complete selects few apart =>
      refine iff_of_true (fun fails => absurd fails (lt_irrefl 0)) fun other _ => ?_
      exact ⟨few, Or.inl apart⟩

/--
As long as trimming does not fault, a load leaves the filter in force exactly if the
file cannot be opened or does no harm. The size in force is an `int`.
-/
theorem keepsInForce_iff (small : filter.excludesSize < 2 ^ 31)
    (trims : ∀ content, file = some content → Trims heap content) :
    filter.KeepsInForce heap file ↔
      ∀ content, file = some content → HarmlessFile heap filter content := by
  cases file with
  | none =>
      refine iff_of_true ⟨-1, filter, rfl, fun _ _ => rfl⟩ fun content isFile => ?_
      cases isFile
  | some content =>
      simp only [Option.some.injEq, forall_eq']
      constructor
      · rintro ⟨code, loaded, done, kept⟩
        exact (answersAs_of_loads small (loads_of_load done)).mp kept
      · intro harmless
        have room : fileMode heap content ≠ none →
            (fileEntries heap content).length ≤ maxNumFiles := by
          intro header
          rcases Option.ne_none_iff_exists'.mp header with ⟨mode, selects⟩
          exact (harmless mode selects).1
        rcases exists_load (trims content rfl) room filter with ⟨code, loaded, done⟩
        exact ⟨code, loaded, done, (answersAs_of_loads small (loads_of_load done)).mpr harmless⟩

/-- A file that lists a component twice. -/
def repeatingFile : List UInt8 :=
  (CString.literal "EXCLUDE\nAb\nAb\n").bytes

theorem trims_repeatingFile : Trims (fun _ => [0]) repeatingFile :=
  trims_of_guarded (fun _ => ⟨0, [], rfl, rfl⟩) repeatingFile

theorem repeatingFile_keepsInForce_iff :
    (adaptiveLoadExcludeFile (fun _ => [0]) (some repeatingFile) .initial).map Prod.fst =
        some (-5) ∧
      (AdaptiveFilter.initial.KeepsInForce (fun _ => [0]) (some repeatingFile) ↔
        ∀ content, some repeatingFile = some content →
          HarmlessFile (fun _ => [0]) .initial content) := by
  refine ⟨by decide +kernel, keepsInForce_iff (by decide) fun content isFile => ?_⟩
  cases isFile
  exact trims_repeatingFile

/-- The failed load changes the answer for every class that is not listed. -/
theorem repeatingFile_changes_answers :
    (∃ loaded, adaptiveLoadExcludeFile (fun _ => [0]) (some repeatingFile) .initial =
        some (-5, loaded) ∧
      loaded.isClassExcluded (.literal "Worker") = false ∧
      AdaptiveFilter.initial.isClassExcluded (.literal "Worker") = true) ∧
      ¬AdaptiveFilter.initial.KeepsInForce (fun _ => [0]) (some repeatingFile) := by
  have before : AdaptiveFilter.initial.isClassExcluded (.literal "Worker") = true := by
    decide +kernel
  have outcome : (adaptiveLoadExcludeFile (fun _ => [0]) (some repeatingFile) .initial).map
      (fun result => (result.1, result.2.isClassExcluded (.literal "Worker"))) =
        some (-5, false) := by
    decide +kernel
  rcases Option.map_eq_some_iff.mp outcome with ⟨⟨code, loaded⟩, done, answer⟩
  simp only [Prod.mk.injEq] at answer
  rcases answer with ⟨rfl, after⟩
  refine ⟨⟨loaded, done, after, before⟩, ?_⟩
  rintro ⟨code, other, doneAgain, kept⟩
  rw [done, Option.some.injEq, Prod.mk.injEq] at doneAgain
  rcases doneAgain with ⟨rfl, rfl⟩
  have same := kept (by norm_num) (.literal "Worker")
  rw [after, before] at same
  cases same

end AdaptiveFilter

end Kieker
