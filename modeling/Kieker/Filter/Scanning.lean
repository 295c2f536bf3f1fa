import Kieker.Filter.Loading

/-!
# Binary search against a scan of the entry lines

After a load that returns 0 the table is sorted without repetitions and holds one
hash for each entry line, so the binary search answers what a scan of the entry
lines would answer. Nothing is assumed about the table before the load.
-/

namespace Kieker

open Searching

/-- The entry lines of a file if every line loses the whitespace at its end. -/
def rtrimmedEntries (content : List UInt8) : List (List UInt8) :=
  ((getLines content).tail.map fun read => rtrimmed (cString read)).filter IsEntry

section Entries

variable {heap : ℕ → List UInt8} {number : ℕ} {lines : List (List UInt8)}

/--
The loader's entry lines are the lines without the whitespace at their ends, if
no line is blank or the byte in front of the line buffer is not whitespace.
-/
theorem entryLines_eq (clean : (∀ number, Guarded (heap number)) ∨
      ∀ read ∈ lines, ∃ byte ∈ cString read, isspace byte = false) :
    entryLines heap number lines =
      (lines.map fun read => rtrimmed (cString read)).filter IsEntry := by
  induction lines generalizing number with
  | nil => rfl
  | cons read lines ih =>
      have trims : trimLine (heap number) (cString read) = some (rtrimmed (cString read)) := by
        rcases clean with guarded | visible
        · exact trimLine_of_guarded (guarded number)
        · exact trimLine_of_visible (visible read List.mem_cons_self)
      have rest : entryLines heap (number + 1) lines =
          (lines.map fun read => rtrimmed (cString read)).filter IsEntry :=
        ih (clean.imp_right fun visible other other_mem =>
          visible other (List.mem_cons_of_mem read other_mem))
      rw [entryLines, trims, rest, List.map_cons, List.filter_cons]
      by_cases isEntry : IsEntry (rtrimmed (cString read)) <;> simp [isEntry]

end Entries

namespace AdaptiveFilter

variable {filter loaded : AdaptiveFilter} {heap : ℕ → List UInt8} {content : List UInt8}

/-- The table holds the entry lines of a file, and a search answers as a scan of them. -/
structure ScansEntries (heap : ℕ → List UInt8) (content : List UInt8) (loaded : AdaptiveFilter) :
    Prop where
  /-- The comparison function is a total order. -/
  total : Compares adaptiveCompUlong UInt64.toNat
  /-- The table is strictly increasing. -/
  rising : (loaded.hashes loaded.excludesSize).Pairwise (· < ·)
  /-- The table holds one hash for each entry line. -/
  complete : (loaded.hashes loaded.excludesSize).Perm ((fileEntries heap content).map adaptiveHash)
  /-- The search succeeds if some entry line has the hash. -/
  finds : ∀ classSignature : CString, loaded.Finds (adaptiveHash classSignature.bytes) ↔
    ∃ entry ∈ fileEntries heap content, adaptiveHash entry = adaptiveHash classSignature.bytes
  /-- The answer is that of a scan, in both modes. -/
  answers : ∀ classSignature : CString, loaded.isClassExcluded classSignature =
    ((fileEntries heap content).any (fun entry =>
      adaptiveHash entry == adaptiveHash classSignature.bytes) == (loaded.mode != 0))
  /-- The entry lines are those without the whitespace at their ends. -/
  entries : ((∀ number, Guarded (heap number)) ∨
      ∀ read ∈ (getLines content).tail, ∃ byte ∈ cString read, isspace byte = false) →
    fileEntries heap content = rtrimmedEntries content

theorem finds_replace_iff (filter : AdaptiveFilter) (mode : ℤ) (entries : List (List UInt8))
    (hash : UInt64) :
    (filter.replace mode (entries.map adaptiveHash)).Finds hash ↔
      ∃ entry ∈ entries, adaptiveHash entry = hash := by
  rw [finds_replace, List.mem_map]

/-- After a load that returns 0, the binary search agrees with a scan of the entry lines. -/
theorem scansEntries_of_load
    (done : adaptiveLoadExcludeFile heap (some content) filter = some (0, loaded)) :
    ScansEntries heap content loaded := by
  cases loads_of_load done with
  | @complete _ mode selects few apart =>
      have size : (filter.replace mode ((fileEntries heap content).map adaptiveHash)).excludesSize =
          ((fileEntries heap content).map adaptiveHash).length := rfl
      refine ⟨compares_adaptiveCompUlong, ?_, ?_, ?_, ?_, ?_⟩
      · rw [size, hashes_replace]
        exact (compares_adaptiveCompUlong.rising_qsort apart).imp UInt64.lt_iff_toNat_lt.mpr
      · rw [size, hashes_replace]
        exact Compares.perm_qsort _ _
      · intro classSignature
        exact finds_replace_iff _ _ _ _
      · intro classSignature
        rw [Bool.eq_iff_iff, isClassExcluded_eq_true, finds_replace_iff, mode_replace, beq_iff_eq,
          Bool.eq_iff_iff]
        simp
      · exact entryLines_eq

/-- A file that lists four components, in another order than that of their hashes. -/
def unsortedFile : List UInt8 :=
  (CString.literal "INCLUDE\nWorker \nAb\n# and two more\nReader\nMain").bytes

/-- A table that holds three times the same hash. -/
def staleFilter : AdaptiveFilter where
  functionHashes := fun _ => 7
  excludesSize := 3
  mode := 1

theorem unsortedFile_scansEntries :
    (∀ read ∈ (getLines unsortedFile).tail, ∃ byte ∈ cString read, isspace byte = false) ∧
      ¬((fileEntries (fun _ => [0]) unsortedFile).map adaptiveHash).Pairwise (· < ·) ∧
      ∃ loaded, adaptiveLoadExcludeFile (fun _ => [0]) (some unsortedFile) staleFilter =
          some (0, loaded) ∧
        loaded.excludesSize = 4 ∧ ScansEntries (fun _ => [0]) unsortedFile loaded := by
  have outcome : (adaptiveLoadExcludeFile (fun _ => [0]) (some unsortedFile) staleFilter).map
      (fun result => (result.1, result.2.excludesSize)) = some (0, 4) := by decide +kernel
  rcases Option.map_eq_some_iff.mp outcome with ⟨⟨code, loaded⟩, done, size⟩
  simp only [Prod.mk.injEq] at size
  rcases size with ⟨rfl, size⟩
  exact ⟨by decide +kernel, by decide +kernel, loaded, done, size, scansEntries_of_load done⟩

end AdaptiveFilter

end Kieker
