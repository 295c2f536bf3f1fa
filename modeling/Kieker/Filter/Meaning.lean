import Kieker.Filter.Failing
import Kieker.Filter.Scanning

/-!
# What an exclude file means

A file is meant to be its header and the set of names after it, wherever comments
and empty lines stand, and however often a name is given. Two files with the same
meaning load alike if both have their header in the first line and both repeat a
name or neither does. The other cases are a header behind a comment, which is not
found, and a repeated name, which counts as a collision of hashes.
-/

namespace Kieker

/-- A line without its newline. -/
def lineText (read : List UInt8) : List UInt8 :=
  if read.getLast? = some 10 then read.dropLast else read

/-- The lines of a file that are neither comments nor empty. -/
def significantLines (content : List UInt8) : List (List UInt8) :=
  ((getLines content).map lineText).filter IsEntry

/-- A file consists of a header and names from a set, with comments and empty lines anywhere. -/
def Means (content header : List UInt8) (names : Set (List UInt8)) : Prop :=
  ∃ lines, significantLines content = header :: lines ∧ lines.length ≤ maxNumFiles ∧
    ∀ name, name ∈ lines ↔ name ∈ names

/-- The mode that the first line of a file selects: it is trimmed if it ends with a newline. -/
def selectedMode (content : List UInt8) : Option ℤ := do
  let read ← (getLines content).head?
  headerMode (if read.getLast? = some 10 then rtrimmed (cString read) else cString read)

variable {heap : ℕ → List UInt8} {content header read text : List UInt8} {mode : ℤ}
  {lines : List (List UInt8)} {names : Set (List UInt8)}

theorem fileMode_eq (guarded : ∀ number, Guarded (heap number)) (content : List UInt8) :
    fileMode heap content = selectedMode content := by
  unfold fileMode selectedMode trimHeader
  cases (getLines content).head? with
  | none => rfl
  | some read =>
      simp only [Option.bind_eq_bind, Option.bind_some]
      split
      · rw [trimLine_of_guarded (guarded 0), Option.bind_some]
      · rw [Option.bind_some]

/-- The newline does not matter behind the trimming. -/
theorem rtrimmed_cString_lineText (read : List UInt8) :
    rtrimmed (cString (lineText read)) = rtrimmed (cString read) := by
  unfold lineText
  split
  · rename_i newline
    rcases List.getLast?_eq_some_iff.mp newline with ⟨text, rfl⟩
    rw [List.dropLast_concat, cString, cString, List.takeWhile_append]
    split
    · rename_i whole
      have space : isspace 10 = true := rfl
      have noZero : text.takeWhile (fun byte => byte != 0) = text :=
        (List.takeWhile_prefix _).eq_of_length whole
      rw [noZero]
      simp [rtrimmed, space]
    · rfl
  · rfl

/-- A comment or an empty line lists nothing. -/
theorem not_isEntry_rtrimmed (notEntry : ¬IsEntry text) : ¬IsEntry (rtrimmed (cString text)) := by
  cases text with
  | nil => exact notEntry
  | cons byte rest =>
      have isComment : byte = 35 := by
        by_contra other
        exact notEntry ⟨by simpa using other, Nat.succ_pos _⟩
      have zero : cString (byte :: rest) = 35 :: cString rest := by
        rw [isComment]
        rfl
      have visible : isspace 35 = false := rfl
      have head : (rtrimmed (35 :: cString rest)).head? = some 35 := by
        rw [rtrimmed, List.reverse_cons, List.dropWhile_append]
        split <;> simp [visible]
      rw [zero]
      exact fun isEntry => isEntry.1 head

/-- The entries among some lines are the entries among their significant texts. -/
theorem filter_rtrimmed_eq (lines : List (List UInt8)) :
    (lines.map fun read => rtrimmed (cString read)).filter IsEntry =
      (((lines.map lineText).filter IsEntry).map fun text => rtrimmed (cString text)).filter
        IsEntry := by
  induction lines with
  | nil => rfl
  | cons read lines ih =>
      rw [List.map_cons, List.map_cons, ← rtrimmed_cString_lineText]
      by_cases isEntry : IsEntry (lineText read)
      · simp only [List.filter_cons, isEntry, decide_true, if_true, List.map_cons, ih]
      · have notEntry := not_isEntry_rtrimmed isEntry
        simp only [List.filter_cons, isEntry, notEntry, decide_false, Bool.false_eq_true, if_false,
          ih]

/-- Both words for a mode count as entry lines and have no whitespace at their ends. -/
theorem headerMode_rtrimmed {line : List UInt8} (selected : headerMode line = some mode) :
    headerMode (rtrimmed line) = some mode ∧ IsEntry (rtrimmed line) := by
  rcases AdaptiveFilter.headerMode_eq_some selected with ⟨rfl, rfl⟩ | ⟨rfl, rfl⟩ <;> decide

/-- A file whose first line selects a mode has its header there. -/
theorem means_of_selectedMode (selects : selectedMode content = some mode)
    (means : Means content header names) :
    headerMode (rtrimmed (cString header)) = some mode ∧
      (rtrimmedEntries content).length ≤ maxNumFiles ∧
      ∀ entry, entry ∈ rtrimmedEntries content ↔
        IsEntry entry ∧ ∃ name ∈ names, rtrimmed (cString name) = entry := by
  rcases means with ⟨lines, significant, few, sameNames⟩
  unfold significantLines at significant
  unfold selectedMode at selects
  rw [rtrimmedEntries, filter_rtrimmed_eq]
  cases readLines : getLines content with
  | nil =>
      rw [readLines] at selects
      cases selects
  | cons read rest =>
      rw [readLines, List.map_cons] at significant
      simp only [readLines, List.head?_cons, Option.bind_eq_bind, Option.bind_some] at selects
      have trimmedSelects : headerMode (rtrimmed (cString read)) = some mode ∧
          IsEntry (rtrimmed (cString read)) := by
        split at selects
        · refine ⟨selects, ?_⟩
          rcases AdaptiveFilter.headerMode_eq_some selects with ⟨word, -⟩ | ⟨word, -⟩ <;>
            rw [word] <;> decide
        · exact headerMode_rtrimmed selects
      rw [← rtrimmed_cString_lineText] at trimmedSelects
      have isEntry : IsEntry (lineText read) := by
        by_contra notEntry
        exact not_isEntry_rtrimmed notEntry trimmedSelects.2
      simp only [List.filter_cons, isEntry, decide_true, if_true, List.cons.injEq] at significant
      rcases significant with ⟨rfl, linesEq⟩
      rw [List.tail_cons, linesEq]
      refine ⟨trimmedSelects.1, ?_, fun entry => ?_⟩
      · exact (List.length_filter_le _ _).trans ((List.length_map _).trans_le few)
      · simp [List.mem_filter, sameNames, and_comm]

namespace AdaptiveFilter

variable {filter : AdaptiveFilter} {firstHeap secondHeap : ℕ → List UInt8}
  {firstContent secondContent : List UInt8}

/-- Two files are loaded with the same result, and the filters left behind answer alike. -/
def LoadAlike (firstHeap secondHeap : ℕ → List UInt8) (filter : AdaptiveFilter)
    (firstContent secondContent : List UInt8) : Prop :=
  ∃ code first second,
    adaptiveLoadExcludeFile firstHeap (some firstContent) filter = some (code, first) ∧
      adaptiveLoadExcludeFile secondHeap (some secondContent) filter = some (code, second) ∧
      first.AnswersAs second

theorem load_of_no_mode (filter : AdaptiveFilter) (guarded : ∀ number, Guarded (heap number))
    (someLine : getLines content ≠ []) (noMode : selectedMode content = none) :
    adaptiveLoadExcludeFile heap (some content) filter = some (-3, filter) := by
  rw [← fileMode_eq guarded] at noMode
  rcases exists_load (trims_of_guarded guarded content) (fun header => absurd noMode header)
    filter with ⟨code, loaded, done⟩
  rw [done]
  cases loads_of_load done with
  | empty noLine => exact absurd noLine someLine
  | headless => rfl
  | clashing selects _ _ => simp [noMode] at selects
  | complete selects _ _ => simp [noMode] at selects

theorem load_of_mode (filter : AdaptiveFilter) (guarded : ∀ number, Guarded (heap number))
    (selects : selectedMode content = some mode)
    (few : (rtrimmedEntries content).length ≤ maxNumFiles) :
    adaptiveLoadExcludeFile heap (some content) filter =
      some (if ((rtrimmedEntries content).map adaptiveHash).Nodup then 0 else -5,
        filter.replace mode ((rtrimmedEntries content).map adaptiveHash)) := by
  have entries : fileEntries heap content = rtrimmedEntries content :=
    entryLines_eq (Or.inl guarded)
  rw [← fileMode_eq guarded] at selects
  rcases exists_load (trims_of_guarded guarded content) (fun _ => entries ▸ few) filter with
    ⟨code, loaded, done⟩
  rw [done]
  cases loads_of_load done with
  | empty noLine => simp [fileMode, noLine] at selects
  | headless _ noMode => simp [noMode] at selects
  | clashing selected _ clash =>
      rw [selects, Option.some.injEq] at selected
      rw [entries, if_neg (entries ▸ clash), selected]
  | complete selected _ apart =>
      rw [selects, Option.some.injEq] at selected
      rw [entries, if_pos (entries ▸ apart), selected]

/-- The hashes of a list differ if its elements do and none of them collide. -/
theorem nodup_hashes_iff (entries : List (List UInt8)) :
    (entries.map adaptiveHash).Nodup ↔ entries.Nodup ∧
      ¬∃ one ∈ entries, ∃ other ∈ entries, one ≠ other ∧ adaptiveHash one = adaptiveHash other := by
  constructor
  · intro apart
    have entriesApart := apart.of_map
    refine ⟨entriesApart, ?_⟩
    rintro ⟨one, one_mem, other, other_mem, different, same⟩
    exact different ((List.nodup_map_iff_inj_on entriesApart).mp apart one one_mem other other_mem
      same)
  · rintro ⟨entriesApart, noCollision⟩
    rw [List.nodup_map_iff_inj_on entriesApart]
    intro one one_mem other other_mem same
    by_contra different
    exact noCollision ⟨one, one_mem, other, other_mem, different, same⟩

theorem loadAlike_iff_of_loads {firstCode secondCode : ℤ} {first second : AdaptiveFilter}
    (firstDone : adaptiveLoadExcludeFile firstHeap (some firstContent) filter =
      some (firstCode, first))
    (secondDone : adaptiveLoadExcludeFile secondHeap (some secondContent) filter =
      some (secondCode, second)) :
    LoadAlike firstHeap secondHeap filter firstContent secondContent ↔
      firstCode = secondCode ∧ first.AnswersAs second := by
  simp only [LoadAlike, firstDone, secondDone, Option.some.injEq, Prod.mk.injEq]
  constructor
  · rintro ⟨code, _, _, ⟨rfl, rfl⟩, ⟨rfl, rfl⟩, same⟩
    exact ⟨rfl, same⟩
  · rintro ⟨rfl, same⟩
    exact ⟨_, _, _, ⟨rfl, rfl⟩, ⟨rfl, rfl⟩, same⟩

theorem getLines_ne_nil_of_means (means : Means content header names) : getLines content ≠ [] := by
  rcases means with ⟨lines, significant, -⟩
  intro noLine
  simp [significantLines, noLine] at significant

/-- Filters for the same mode and the same set of hashes answer alike. -/
theorem answersAs_replace {firstHashes secondHashes : List UInt64}
    (same : ∀ hash, hash ∈ firstHashes ↔ hash ∈ secondHashes) :
    (filter.replace mode firstHashes).AnswersAs (filter.replace mode secondHashes) := by
  intro classSignature
  rw [Bool.eq_iff_iff, isClassExcluded_eq_true, isClassExcluded_eq_true, finds_replace,
    finds_replace, mode_replace, mode_replace, same]

/-- A load that selects a mode never returns what one without a header does. -/
theorem modeCode_ne (apart : Prop) [Decidable apart] : (if apart then (0 : ℤ) else -5) ≠ -3 := by
  split <;> decide

theorem modeCode_inj (apart otherApart : Prop) [Decidable apart] [Decidable otherApart] :
    (if apart then (0 : ℤ) else -5) = (if otherApart then 0 else -5) ↔
      (apart ↔ otherApart) := by
  by_cases holds : apart <;> by_cases otherHolds : otherApart <;> simp [holds, otherHolds]

/-- Whether two lists of the same elements have different hashes depends on their repetitions. -/
theorem nodup_hashes_congr {entries otherEntries : List (List UInt8)}
    (same : ∀ entry, entry ∈ entries ↔ entry ∈ otherEntries) :
    ((entries.map adaptiveHash).Nodup ↔ (otherEntries.map adaptiveHash).Nodup) ↔
      ((∃ one ∈ entries, ∃ other ∈ entries,
          one ≠ other ∧ adaptiveHash one = adaptiveHash other) ∨
        (entries.Nodup ↔ otherEntries.Nodup)) := by
  rw [nodup_hashes_iff, nodup_hashes_iff]
  simp only [same]
  by_cases collides : ∃ one ∈ otherEntries, ∃ other ∈ otherEntries,
      one ≠ other ∧ adaptiveHash one = adaptiveHash other
  · simp only [collides, not_true_eq_false, and_false, true_or]
  · simp only [collides, not_false_eq_true, and_true, false_or]

/-- Two files that select the same mode and have the same entries. -/
theorem loadAlike_iff_of_mode (firstGuarded : ∀ number, Guarded (firstHeap number))
    (secondGuarded : ∀ number, Guarded (secondHeap number))
    (firstMode : selectedMode firstContent = some mode)
    (secondMode : selectedMode secondContent = some mode)
    (firstFew : (rtrimmedEntries firstContent).length ≤ maxNumFiles)
    (secondFew : (rtrimmedEntries secondContent).length ≤ maxNumFiles)
    (same : ∀ entry, entry ∈ rtrimmedEntries firstContent ↔
      entry ∈ rtrimmedEntries secondContent) :
    LoadAlike firstHeap secondHeap filter firstContent secondContent ↔
      (∃ one ∈ rtrimmedEntries firstContent, ∃ other ∈ rtrimmedEntries firstContent,
          one ≠ other ∧ adaptiveHash one = adaptiveHash other) ∨
        ((rtrimmedEntries firstContent).Nodup ↔ (rtrimmedEntries secondContent).Nodup) := by
  have firstDone := load_of_mode filter firstGuarded firstMode firstFew
  have secondDone := load_of_mode filter secondGuarded secondMode secondFew
  have answers : (filter.replace mode ((rtrimmedEntries firstContent).map
      adaptiveHash)).AnswersAs (filter.replace mode ((rtrimmedEntries secondContent).map
      adaptiveHash)) := by
    apply answersAs_replace
    intro hash
    simp only [List.mem_map, same]
  rw [loadAlike_iff_of_loads firstDone secondDone, modeCode_inj, and_iff_left answers,
    nodup_hashes_congr same]

/--
Two files with the same header and names load alike exactly if their first lines
select the same mode, or both none, and in the first case two names have the same
hash, or both files or none repeat a name.
-/
theorem loadAlike_iff (firstGuarded : ∀ number, Guarded (firstHeap number))
    (secondGuarded : ∀ number, Guarded (secondHeap number))
    (firstMeans : Means firstContent header names)
    (secondMeans : Means secondContent header names) :
    LoadAlike firstHeap secondHeap filter firstContent secondContent ↔
      selectedMode firstContent = selectedMode secondContent ∧
        (selectedMode firstContent = none ∨
          (∃ one ∈ rtrimmedEntries firstContent, ∃ other ∈ rtrimmedEntries firstContent,
            one ≠ other ∧ adaptiveHash one = adaptiveHash other) ∨
          ((rtrimmedEntries firstContent).Nodup ↔ (rtrimmedEntries secondContent).Nodup)) := by
  have firstLines := getLines_ne_nil_of_means firstMeans
  have secondLines := getLines_ne_nil_of_means secondMeans
  cases firstMode : selectedMode firstContent with
  | none =>
      have firstDone := load_of_no_mode filter firstGuarded firstLines firstMode
      cases secondMode : selectedMode secondContent with
      | none =>
          have secondDone := load_of_no_mode filter secondGuarded secondLines secondMode
          rw [loadAlike_iff_of_loads firstDone secondDone]
          exact iff_of_true ⟨rfl, fun _ => rfl⟩ ⟨rfl, Or.inl rfl⟩
      | some mode =>
          rcases means_of_selectedMode secondMode secondMeans with ⟨-, few, -⟩
          have secondDone := load_of_mode filter secondGuarded secondMode few
          rw [loadAlike_iff_of_loads firstDone secondDone]
          exact iff_of_false (fun alike => modeCode_ne _ alike.1.symm)
            fun same => Option.some_ne_none mode same.1.symm
  | some mode =>
      rcases means_of_selectedMode firstMode firstMeans with ⟨headerMode, few, firstEntries⟩
      cases secondMode : selectedMode secondContent with
      | none =>
          have firstDone := load_of_mode filter firstGuarded firstMode few
          have secondDone := load_of_no_mode filter secondGuarded secondLines secondMode
          rw [loadAlike_iff_of_loads firstDone secondDone]
          exact iff_of_false (fun alike => modeCode_ne _ alike.1)
            fun same => Option.some_ne_none mode same.1
      | some otherMode =>
          rcases means_of_selectedMode secondMode secondMeans with
            ⟨otherHeaderMode, otherFew, secondEntries⟩
          rw [headerMode, Option.some.injEq] at otherHeaderMode
          subst otherHeaderMode
          have sameEntries : ∀ entry, entry ∈ rtrimmedEntries firstContent ↔
              entry ∈ rtrimmedEntries secondContent := by
            intro entry
            rw [firstEntries, secondEntries]
          rw [loadAlike_iff_of_mode firstGuarded secondGuarded firstMode secondMode few otherFew
            sameEntries]
          simp only [true_and, reduceCtorEq, false_or]

/-- A file with a header and two names. -/
def plainFile : List UInt8 :=
  (CString.literal "EXCLUDE\nAb\nCd\n").bytes

/-- The same names in another order, with a comment and an empty line. -/
def annotatedFile : List UInt8 :=
  (CString.literal "EXCLUDE\n# names\nCd\n\nAb").bytes

/-- The same file behind a comment. -/
def introducedFile : List UInt8 :=
  (CString.literal "# names\nEXCLUDE\nAb\nCd\n").bytes

/-- The names in the three files. -/
def fileNames : Set (List UInt8) :=
  {(CString.literal "Ab").bytes, (CString.literal "Cd").bytes}

theorem means_plainFile : Means plainFile (CString.literal "EXCLUDE").bytes fileNames :=
  ⟨[(CString.literal "Ab").bytes, (CString.literal "Cd").bytes], by decide +kernel, by decide, by
    simp [fileNames]⟩

theorem loadAlike_annotatedFile_iff :
    LoadAlike (fun _ => [0]) (fun _ => [0]) .initial plainFile annotatedFile ↔
      selectedMode plainFile = selectedMode annotatedFile ∧
        (selectedMode plainFile = none ∨
          (∃ one ∈ rtrimmedEntries plainFile, ∃ other ∈ rtrimmedEntries plainFile,
            one ≠ other ∧ adaptiveHash one = adaptiveHash other) ∨
          ((rtrimmedEntries plainFile).Nodup ↔ (rtrimmedEntries annotatedFile).Nodup)) := by
  have guarded : ∀ number : ℕ, Guarded [0] := fun _ => ⟨0, [], rfl, rfl⟩
  have means : Means annotatedFile (CString.literal "EXCLUDE").bytes fileNames :=
    ⟨[(CString.literal "Cd").bytes, (CString.literal "Ab").bytes], by decide +kernel, by decide, by
      simp [fileNames, or_comm]⟩
  exact loadAlike_iff guarded guarded means_plainFile means

/-- A comment before the header makes a difference. -/
theorem not_loadAlike_introducedFile :
    ¬∀ (heap : ℕ → List UInt8) (filter : AdaptiveFilter) (first second header : List UInt8)
      (names : Set (List UInt8)), (∀ number, Guarded (heap number)) → Means first header names →
        Means second header names → LoadAlike heap heap filter first second := by
  intro alike
  have guarded : ∀ number : ℕ, Guarded [0] := fun _ => ⟨0, [], rfl, rfl⟩
  have means : Means introducedFile (CString.literal "EXCLUDE").bytes fileNames :=
    ⟨[(CString.literal "Ab").bytes, (CString.literal "Cd").bytes], by decide +kernel, by decide, by
      simp [fileNames]⟩
  have plainMode : selectedMode plainFile = some 1 := by decide +kernel
  have plainLoad := load_of_mode .initial guarded plainMode (by decide +kernel)
  have introducedLoad := load_of_no_mode .initial guarded
    (getLines_ne_nil_of_means means) (by decide +kernel)
  have same := alike _ .initial _ _ _ _ guarded means_plainFile means
  rw [loadAlike_iff_of_loads plainLoad introducedLoad] at same
  exact modeCode_ne _ same.1

end AdaptiveFilter

end Kieker
