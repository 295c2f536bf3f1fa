import Kieker.Filter.Trimming

/-!
# Membership in the exclusion list

The filter remembers the hashes of the listed components, not the components. So
it decides whether a signature has the hash of a listed component; it decides
membership in the list for the signatures that share no hash with a component
other than themselves. Lines that begin with whitespace before a visible byte are
left out: their components are listed with the whitespace.
-/

namespace Kieker

open Searching

/-- The header of a file, without whitespace at its ends. -/
def headerOf (content : List UInt8) : List UInt8 :=
  trimmed (cString ((getLines content).headD []))

/-- The components that some lines list: what is neither empty nor a comment. -/
def componentsOf (lines : List (List UInt8)) : List (List UInt8) :=
  (lines.map fun read => trimmed (cString read)).filter fun line =>
    line.head? ≠ some 35 ∧ 0 < line.length

/-- The components that a file lists after its header. -/
def listedComponents (content : List UInt8) : List (List UInt8) :=
  componentsOf (getLines content).tail

theorem compares_adaptiveCompUlong : Compares adaptiveCompUlong UInt64.toNat where
  injective := fun _ _ same => UInt64.toNat_inj.mp same
  neg_iff := by
    intro first second
    unfold adaptiveCompUlong
    rw [← UInt64.lt_iff_toNat_lt]
    split
    · rename_i smaller
      exact iff_of_true (by norm_num) smaller
    · rename_i notSmaller
      split <;> exact iff_of_false (by norm_num) notSmaller
  pos_iff := by
    intro first second
    unfold adaptiveCompUlong
    rw [← UInt64.lt_iff_toNat_lt]
    split
    · rename_i smaller
      simpa using UInt64.le_of_lt smaller
    · rename_i notSmaller
      split
      · rename_i same
        simp [same]
      · rename_i different
        have greater : second < first :=
          UInt64.lt_of_le_of_ne (UInt64.not_lt.mp notSmaller) (Ne.symm different)
        simpa

namespace AdaptiveFilter

variable {filter loaded : AdaptiveFilter} {heap : ℕ → List UInt8} {lines : List (List UInt8)}
  {number i size : ℕ} {content : List UInt8}

@[simp]
theorem length_hashes (filter : AdaptiveFilter) (size : ℕ) : (filter.hashes size).length = size := by
  simp [hashes]

/-- The filter with another hash at an index. -/
def withHash (filter : AdaptiveFilter) (i : ℕ) (hash : UInt64) : AdaptiveFilter :=
  { filter with functionHashes := Function.update filter.functionHashes i hash }

theorem setHash_eq_some {hash : UInt64} :
    filter.setHash i hash = some loaded ↔ i < maxNumFiles ∧ loaded = filter.withHash i hash := by
  by_cases inside : i < maxNumFiles
  · simp [setHash, inside, withHash, eq_comm]
  · simp [setHash, inside]

theorem hashes_withHash (filter : AdaptiveFilter) (i : ℕ) (hash : UInt64) :
    (filter.withHash i hash).hashes (i + 1) = filter.hashes i ++ [hash] := by
  have unchanged : ∀ index ∈ List.range i,
      Function.update filter.functionHashes i hash index = filter.functionHashes index := by
    intro index index_mem
    exact Function.update_of_ne (List.mem_range.mp index_mem).ne _ _
  simp [hashes, withHash, List.range_succ, List.map_congr_left unchanged]

theorem hashes_sortHashes (filter : AdaptiveFilter) :
    filter.sortHashes.hashes filter.excludesSize =
      qsort adaptiveCompUlong (filter.hashes filter.excludesSize) := by
  have length : (qsort adaptiveCompUlong (filter.hashes filter.excludesSize)).length =
      filter.excludesSize := by
    rw [(Compares.perm_qsort _ _).length_eq, length_hashes]
  apply List.ext_getElem
  · rw [length_hashes, length]
  · intro index inHashes inSorted
    rw [length_hashes] at inHashes
    have stored : (filter.sortHashes.hashes filter.excludesSize)[index] =
        (qsort adaptiveCompUlong (filter.hashes filter.excludesSize)).getD index 0 := by
      simp [hashes, sortHashes, inHashes]
    rw [stored, List.getD_eq_getElem?_getD, List.getElem?_eq_getElem inSorted]
    rfl

/-- A search in the sorted hashes finds what was stored. -/
theorem isSome_bsearch_sortHashes (filter : AdaptiveFilter) (key : UInt64) :
    (bsearch adaptiveCompUlong key filter.sortHashes.functionHashes
      filter.sortHashes.excludesSize).isSome ↔ key ∈ filter.hashes filter.excludesSize := by
  have sorted := compares_adaptiveCompUlong.sorted_qsort (filter.hashes filter.excludesSize)
  have sameMembers := Compares.perm_qsort adaptiveCompUlong (filter.hashes filter.excludesSize)
  rw [← hashes_sortHashes] at sorted sameMembers
  rw [compares_adaptiveCompUlong.isSome_bsearch key, ← sameMembers.mem_iff]
  · simp [hashes, sortHashes]
  · intro first second earlier inside
    have ordered := List.pairwise_iff_getElem.mp sorted first second
      (by rw [length_hashes]; exact earlier.trans inside) (by rw [length_hashes]; exact inside)
      earlier
    simpa [hashes] using ordered

/-- The hashes stored by the loop over the lines are those of the components listed. -/
theorem loadComponents_eq_some (guarded : ∀ number, Guarded (heap number))
    (flush : ∀ read ∈ lines, Flush (cString read))
    (done : loadComponents heap lines number i filter = some (some size, loaded)) :
    size = i + (componentsOf lines).length ∧ loaded.mode = filter.mode ∧
      loaded.hashes size = filter.hashes i ++ (componentsOf lines).map adaptiveHash := by
  induction lines generalizing number i filter with
  | nil =>
      simp only [loadComponents, Option.some.injEq, Prod.mk.injEq] at done
      rcases done with ⟨rfl, rfl⟩
      simp [componentsOf]
  | cons read lines ih =>
      have trims := trimLine_of_flush (guarded number) (flush read List.mem_cons_self)
      have rest : ∀ other ∈ lines, Flush (cString other) := fun other other_mem =>
        flush other (List.mem_cons_of_mem read other_mem)
      simp only [loadComponents, trims, Option.bind_eq_bind, Option.bind_some] at done
      by_cases isComponent : (trimmed (cString read)).head? ≠ some 35 ∧
        0 < (trimmed (cString read)).length
      · have more : componentsOf (read :: lines) =
            trimmed (cString read) :: componentsOf lines := by
          simp only [componentsOf, List.map_cons]
          rw [List.filter_cons_of_pos (by simpa using isComponent)]
        rw [if_pos isComponent, Option.bind_eq_some_iff] at done
        rcases done with ⟨next, isSet, done⟩
        rcases setHash_eq_some.mp isSet with ⟨-, rfl⟩
        split at done
        · cases done
        · rcases ih rest done with ⟨sizeEq, mode, stored⟩
          rw [hashes_withHash] at stored
          refine ⟨?_, mode, ?_⟩
          · rw [sizeEq, more, List.length_cons]
            omega
          · rw [stored, more]
            simp
      · have same : componentsOf (read :: lines) = componentsOf lines := by
          simp only [componentsOf, List.map_cons]
          rw [List.filter_cons_of_neg (by simpa using isComponent)]
        rw [if_neg isComponent] at done
        rw [same]
        exact ih rest done

/-- The headers that select a mode, and the modes. -/
theorem headerMode_eq_some {line : List UInt8} {mode : ℤ} (selected : headerMode line = some mode) :
    line = (CString.literal "EXCLUDE").bytes ∧ mode = 1 ∨
      line = (CString.literal "INCLUDE").bytes ∧ mode = 0 := by
  unfold headerMode at selected
  by_cases isExclude : line = (CString.literal "EXCLUDE").bytes
  · rw [if_pos isExclude, Option.some.injEq] at selected
    exact Or.inl ⟨isExclude, selected.symm⟩
  · rw [if_neg isExclude] at selected
    by_cases isInclude : line = (CString.literal "INCLUDE").bytes
    · rw [if_pos isInclude, Option.some.injEq] at selected
      exact Or.inr ⟨isInclude, selected.symm⟩
    · rw [if_neg isInclude] at selected
      cases selected

/-- The header that selects a mode is the same with whitespace removed. -/
theorem headerMode_trimmed {before read line : List UInt8} {mode : ℤ} (guarded : Guarded before)
    (trims : trimHeader before read = some line) (selected : headerMode line = some mode) :
    headerMode (trimmed (cString read)) = some mode := by
  unfold trimHeader at trims
  split at trims
  · have flush : Flush (cString read) := by
      rcases prefix_of_trimLine trims with ⟨rest, whole⟩
      intro byte isHead space
      rw [← whole] at isHead
      rcases headerMode_eq_some selected with ⟨rfl, -⟩ | ⟨rfl, -⟩ <;> cases isHead <;> cases space
    rw [trimLine_of_flush guarded flush, Option.some.injEq] at trims
    rw [trims]
    exact selected
  · have alreadyTrimmed : trimmed line = line := by
      rcases headerMode_eq_some selected with ⟨rfl, -⟩ | ⟨rfl, -⟩ <;> decide
    rw [Option.some.inj trims, alreadyTrimmed]
    exact selected

/-- A file that is loaded has a header for a mode, and its hashes are sorted. -/
theorem load_eq_some (guarded : ∀ number, Guarded (heap number))
    (flush : ∀ read ∈ (getLines content).tail, Flush (cString read))
    (done : adaptiveLoadExcludeFile heap (some content) filter = some (0, loaded)) :
    headerMode (headerOf content) = some loaded.mode ∧
      ∀ hash, (bsearch adaptiveCompUlong hash loaded.functionHashes loaded.excludesSize).isSome ↔
        hash ∈ (listedComponents content).map adaptiveHash := by
  rw [headerOf, listedComponents]
  cases lines : getLines content with
  | nil => simp [adaptiveLoadExcludeFile, lines] at done
  | cons read rest =>
      rw [lines, List.tail_cons] at flush
      simp only [adaptiveLoadExcludeFile, lines, Option.bind_eq_bind, Option.bind_eq_some_iff] at done
      rcases done with ⟨line, trims, done⟩
      cases selected : headerMode line with
      | none =>
          rw [selected] at done
          cases done
      | some mode =>
          have sameMode := headerMode_trimmed (guarded 0) trims selected
          simp only [selected, Option.bind_eq_some_iff] at done
          rcases done with ⟨⟨stored, after⟩, components, done⟩
          cases stored with
          | none => cases done
          | some size =>
              rcases loadComponents_eq_some guarded flush components with ⟨-, modeEq, hashesEq⟩
              simp only at done
              split at done
              · cases done
              · simp only [Option.some.injEq, Prod.mk.injEq, true_and] at done
                subst done
                refine ⟨sameMode.trans (congrArg some modeEq.symm), ?_⟩
                intro hash
                rw [isSome_bsearch_sortHashes]
                change hash ∈ after.hashes size ↔ _
                rw [hashesEq]
                simp [hashes]

/--
A file without leading whitespace in its lines that was loaded excludes a class
exactly if the header is `EXCLUDE` and some listed component has the hash of the
signature, or the header is `INCLUDE` and none has it. If no other component has
the hash of the signature, this is membership of the signature in the list.
-/
theorem isClassExcluded_of_load (guarded : ∀ number, Guarded (heap number))
    (flush : ∀ read ∈ (getLines content).tail, Flush (cString read))
    (done : adaptiveLoadExcludeFile heap (some content) filter = some (0, loaded))
    (classSignature : CString) :
    (loaded.isClassExcluded classSignature = true ↔
      headerOf content = (CString.literal "EXCLUDE").bytes ∧
          (∃ component ∈ listedComponents content,
            adaptiveHash component = adaptiveHash classSignature.bytes) ∨
        headerOf content = (CString.literal "INCLUDE").bytes ∧
          ¬∃ component ∈ listedComponents content,
            adaptiveHash component = adaptiveHash classSignature.bytes) ∧
      ((∀ component ∈ listedComponents content,
          adaptiveHash component = adaptiveHash classSignature.bytes →
            component = classSignature.bytes) →
        (loaded.isClassExcluded classSignature = true ↔
          headerOf content = (CString.literal "EXCLUDE").bytes ∧
              classSignature.bytes ∈ listedComponents content ∨
            headerOf content = (CString.literal "INCLUDE").bytes ∧
              classSignature.bytes ∉ listedComponents content)) := by
  rcases load_eq_some guarded flush done with ⟨header, found⟩
  have foundIff := found (adaptiveHash classSignature.bytes)
  rw [List.mem_map] at foundIff
  have byHash : loaded.isClassExcluded classSignature = true ↔
      headerOf content = (CString.literal "EXCLUDE").bytes ∧
          (∃ component ∈ listedComponents content,
            adaptiveHash component = adaptiveHash classSignature.bytes) ∨
        headerOf content = (CString.literal "INCLUDE").bytes ∧
          ¬∃ component ∈ listedComponents content,
            adaptiveHash component = adaptiveHash classSignature.bytes := by
    rw [← foundIff, isClassExcluded]
    rcases headerMode_eq_some header with ⟨name, mode⟩ | ⟨name, mode⟩
    · simp [name, mode, CString.literal]
    · simp [name, mode, CString.literal]
  refine ⟨byHash, fun noCollision => ?_⟩
  have listed : (∃ component ∈ listedComponents content,
      adaptiveHash component = adaptiveHash classSignature.bytes) ↔
        classSignature.bytes ∈ listedComponents content := by
    constructor
    · rintro ⟨component, isListed, sameHash⟩
      exact noCollision component isListed sameHash ▸ isListed
    · intro isListed
      exact ⟨_, isListed, rfl⟩
  rw [byHash, listed]

end AdaptiveFilter

/-- A file with a comment, an empty line, and four components. -/
def componentFile : List UInt8 :=
  (CString.literal "EXCLUDE\n# components\n\nWorker \nAb\nMain\nReader").bytes

theorem worker_excluded_by_componentFile :
    ∃ loaded, adaptiveLoadExcludeFile (fun _ => [0]) (some componentFile) AdaptiveFilter.initial =
        some (0, loaded) ∧
      loaded.isClassExcluded (.literal "Worker") = true ∧
      loaded.isClassExcluded (.literal "Ab") = true ∧
      loaded.isClassExcluded (.literal "Writer") = false := by
  have guarded : ∀ number : ℕ, Guarded [0] := fun _ => ⟨0, [], rfl, rfl⟩
  have flush : ∀ read ∈ (getLines componentFile).tail, Flush (cString read) := by decide +kernel
  have header : headerOf componentFile = (CString.literal "EXCLUDE").bytes := by decide +kernel
  have workerListed : (CString.literal "Worker").bytes ∈ listedComponents componentFile := by
    decide +kernel
  have abListed : (CString.literal "Ab").bytes ∈ listedComponents componentFile := by
    decide +kernel
  have writerUnlisted : ∀ component ∈ listedComponents componentFile,
      adaptiveHash component ≠ adaptiveHash (CString.literal "Writer").bytes := by
    decide +kernel
  have loads : ∃ loaded, adaptiveLoadExcludeFile (fun _ => [0]) (some componentFile)
      AdaptiveFilter.initial = some (0, loaded) := by
    have code : (adaptiveLoadExcludeFile (fun _ => [0]) (some componentFile)
        AdaptiveFilter.initial).map Prod.fst = some 0 := by decide +kernel
    rcases Option.map_eq_some_iff.mp code with ⟨⟨result, loaded⟩, done, rfl⟩
    exact ⟨loaded, done⟩
  rcases loads with ⟨loaded, done⟩
  have byHash := fun classSignature =>
    (AdaptiveFilter.isClassExcluded_of_load guarded flush done classSignature).1
  refine ⟨loaded, done, (byHash _).mpr (Or.inl ⟨header, _, workerListed, rfl⟩),
    (byHash _).mpr (Or.inl ⟨header, _, abListed, rfl⟩), ?_⟩
  rw [← Bool.not_eq_true, byHash]
  rintro (⟨-, component, isListed, same⟩ | ⟨isInclude, -⟩)
  · exact writerUnlisted component isListed same
  · rw [header] at isInclude
    revert isInclude
    decide

/-- The only component is `Ab`, which has the hash of `BA`. -/
def collidingFile : List UInt8 :=
  (CString.literal "EXCLUDE\nAb\n").bytes

/-- The only component is `Ab`, behind a blank. -/
def indentedFile : List UInt8 :=
  (CString.literal "EXCLUDE\n Ab\n").bytes

/-- A class that is not listed is excluded, and one listed behind a blank is not. -/
theorem filter_is_not_membership :
    headerOf collidingFile = (CString.literal "EXCLUDE").bytes ∧
      (CString.literal "BA").bytes ∉ listedComponents collidingFile ∧
      (adaptiveLoadExcludeFile (fun _ => [0]) (some collidingFile) AdaptiveFilter.initial).map
        (fun result => (result.1, result.2.isClassExcluded (.literal "BA"))) = some (0, true) ∧
      headerOf indentedFile = (CString.literal "EXCLUDE").bytes ∧
      (CString.literal "Ab").bytes ∈ listedComponents indentedFile ∧
      (adaptiveLoadExcludeFile (fun _ => [0]) (some indentedFile) AdaptiveFilter.initial).map
        (fun result => (result.1, result.2.isClassExcluded (.literal "Ab"))) = some (0, false) := by
  decide +kernel

end Kieker
