import Kieker.Filter.Membership

/-!
# What a load does to the filter

One inversion lemma for `kieker_adaptive_load_exclude_file`: five ways to return,
each with its condition on the file and the filter it leaves behind. There is none
for a file with too many entry lines, as the loader writes behind the table before
it gives up. The lines that count are the entry lines as the loader itself trims
them, whatever lies in front of the line buffer.
-/

namespace Kieker

open Searching

/-- A line after trimming that is neither a comment nor empty. -/
def IsEntry (line : List UInt8) : Prop :=
  line.head? ≠ some 35 ∧ 0 < line.length

instance : DecidablePred IsEntry := fun line =>
  inferInstanceAs (Decidable (line.head? ≠ some 35 ∧ 0 < line.length))

/-- The entry lines among some lines, as the loader trims them. -/
def entryLines (heap : ℕ → List UInt8) : ℕ → List (List UInt8) → List (List UInt8)
  | _, [] => []
  | number, read :: lines =>
      (trimLine (heap number) (cString read)).toList.filter IsEntry ++
        entryLines heap (number + 1) lines

/-- The entry lines of a file. -/
def fileEntries (heap : ℕ → List UInt8) (content : List UInt8) : List (List UInt8) :=
  entryLines heap 1 (getLines content).tail

/-- The mode that the first line of a file selects. -/
def fileMode (heap : ℕ → List UInt8) (content : List UInt8) : Option ℤ := do
  let read ← (getLines content).head?
  let line ← trimHeader (heap 0) read
  headerMode line

section Entries

variable {heap : ℕ → List UInt8} {number : ℕ} {read line : List UInt8} {lines : List (List UInt8)}

theorem entryLines_of_entry (trims : trimLine (heap number) (cString read) = some line)
    (isEntry : IsEntry line) :
    entryLines heap number (read :: lines) = line :: entryLines heap (number + 1) lines := by
  simp [entryLines, trims, isEntry]

theorem entryLines_of_not_entry (trims : trimLine (heap number) (cString read) = some line)
    (notEntry : ¬IsEntry line) :
    entryLines heap number (read :: lines) = entryLines heap (number + 1) lines := by
  simp [entryLines, trims, notEntry]

end Entries

namespace AdaptiveFilter

/-- Stores hashes from an index on. -/
def setHashes (filter : AdaptiveFilter) (i : ℕ) : List UInt64 → AdaptiveFilter
  | [] => filter
  | hash :: hashes => (filter.withHash i hash).setHashes (i + 1) hashes

/-- The filter for a mode and some hashes. The words behind the hashes stay. -/
def replace (filter : AdaptiveFilter) (mode : ℤ) (hashes : List UInt64) : AdaptiveFilter :=
  { ({ filter with mode := mode }.setHashes 0 hashes) with excludesSize := hashes.length }.sortHashes

variable {filter loaded : AdaptiveFilter} {heap : ℕ → List UInt8} {lines : List (List UInt8)}
  {number i : ℕ} {file : Option (List UInt8)} {hashes : List UInt64} {code : ℤ}
  {result : Option ℕ}

/-- The binary search for a hash succeeds. -/
def Finds (filter : AdaptiveFilter) (hash : UInt64) : Prop :=
  (bsearch adaptiveCompUlong hash filter.functionHashes filter.excludesSize).isSome

instance (filter : AdaptiveFilter) : DecidablePred filter.Finds := fun _ =>
  inferInstanceAs (Decidable (_ = true))

/-- The ways in which a load ends. -/
inductive Loads (heap : ℕ → List UInt8) (filter : AdaptiveFilter) :
    Option (List UInt8) → ℤ → AdaptiveFilter → Prop where
  | unopened : Loads heap filter none (-1) filter
  | empty {content} (noLine : getLines content = []) : Loads heap filter (some content) (-2) filter
  | headless {content} (someLine : getLines content ≠ []) (noMode : fileMode heap content = none) :
      Loads heap filter (some content) (-3) filter
  | clashing {content mode} (selects : fileMode heap content = some mode)
      (few : (fileEntries heap content).length ≤ maxNumFiles)
      (clash : ¬((fileEntries heap content).map adaptiveHash).Nodup) :
      Loads heap filter (some content) (-5)
        (filter.replace mode ((fileEntries heap content).map adaptiveHash))
  | complete {content mode} (selects : fileMode heap content = some mode)
      (few : (fileEntries heap content).length ≤ maxNumFiles)
      (apart : ((fileEntries heap content).map adaptiveHash).Nodup) :
      Loads heap filter (some content) 0
        (filter.replace mode ((fileEntries heap content).map adaptiveHash))

@[simp]
theorem mode_setHashes (filter : AdaptiveFilter) (i : ℕ) (hashes : List UInt64) :
    (filter.setHashes i hashes).mode = filter.mode := by
  induction hashes generalizing filter i with
  | nil => rfl
  | cons hash hashes ih => exact ih _ _

@[simp]
theorem excludesSize_setHashes (filter : AdaptiveFilter) (i : ℕ) (hashes : List UInt64) :
    (filter.setHashes i hashes).excludesSize = filter.excludesSize := by
  induction hashes generalizing filter i with
  | nil => rfl
  | cons hash hashes ih => exact ih _ _

/-- What is found is excluded in the one mode, and what is not found in the other. -/
theorem isClassExcluded_eq_true (filter : AdaptiveFilter) (classSignature : CString) :
    filter.isClassExcluded classSignature = true ↔
      (filter.Finds (adaptiveHash classSignature.bytes) ↔ filter.mode ≠ 0) := by
  unfold isClassExcluded Finds
  by_cases mode : filter.mode = 0 <;> simp [mode]

theorem hashes_setHashes (filter : AdaptiveFilter) (i : ℕ) (hashes : List UInt64) :
    (filter.setHashes i hashes).hashes (i + hashes.length) = filter.hashes i ++ hashes := by
  induction hashes generalizing filter i with
  | nil => simp [setHashes]
  | cons hash hashes ih =>
      rw [setHashes, List.length_cons, Nat.add_comm hashes.length, ← Nat.add_assoc, ih,
        hashes_withHash, List.append_assoc, List.singleton_append]

/-- The loop stores the hashes of the entry lines, for which there is room. -/
theorem loadComponents_stores (room : i ≤ maxNumFiles)
    (hashesEq : (entryLines heap number lines).map adaptiveHash = hashes)
    (done : loadComponents heap lines number i filter = some (result, loaded)) :
    i + hashes.length ≤ maxNumFiles ∧ result = some (i + hashes.length) ∧
      loaded = filter.setHashes i hashes := by
  induction lines generalizing number i filter hashes with
  | nil =>
      simp only [loadComponents, Option.some.injEq, Prod.mk.injEq] at done
      rcases done with ⟨rfl, rfl⟩
      subst hashesEq
      exact ⟨room, rfl, rfl⟩
  | cons read lines ih =>
      simp only [loadComponents, Option.bind_eq_bind, Option.bind_eq_some_iff] at done
      rcases done with ⟨line, trims, done⟩
      by_cases isEntry : line.head? ≠ some 35 ∧ 0 < line.length
      · have more : entryLines heap number (read :: lines) =
            line :: entryLines heap (number + 1) lines :=
          entryLines_of_entry trims isEntry
        rw [more, List.map_cons] at hashesEq
        subst hashesEq
        rw [if_pos isEntry, Option.bind_eq_some_iff] at done
        rcases done with ⟨next, isSet, done⟩
        rcases setHash_eq_some.mp isSet with ⟨inside, rfl⟩
        -- The test after a store inside the table does not succeed.
        rw [if_neg (by omega)] at done
        have rest := ih (by omega : i + 1 ≤ maxNumFiles) rfl done
        rw [Nat.add_right_comm, Nat.add_assoc i] at rest
        exact rest
      · have same : entryLines heap number (read :: lines) =
            entryLines heap (number + 1) lines :=
          entryLines_of_not_entry trims isEntry
        rw [if_neg isEntry] at done
        rw [same] at hashesEq
        exact ih room hashesEq done

theorem hashes_setHashes_zero (filter : AdaptiveFilter) (hashes : List UInt64) :
    (filter.setHashes 0 hashes).hashes hashes.length = hashes := by
  simpa [AdaptiveFilter.hashes] using hashes_setHashes filter 0 hashes

/-- The hashes in the filter that replaces another one are sorted. -/
theorem hashes_replace (filter : AdaptiveFilter) (mode : ℤ) (hashes : List UInt64) :
    (filter.replace mode hashes).hashes hashes.length = qsort adaptiveCompUlong hashes := by
  have sorted := hashes_sortHashes
    { ({ filter with mode := mode }.setHashes 0 hashes) with excludesSize := hashes.length }
  have stored := hashes_setHashes_zero { filter with mode := mode } hashes
  simp only [AdaptiveFilter.hashes] at sorted stored ⊢
  rw [stored] at sorted
  exact sorted

/-- A search in the filter that replaces another one finds the hashes it was made of. -/
theorem finds_replace (filter : AdaptiveFilter) (mode : ℤ) (hashes : List UInt64) (hash : UInt64) :
    (filter.replace mode hashes).Finds hash ↔ hash ∈ hashes := by
  have found := isSome_bsearch_sortHashes
    { ({ filter with mode := mode }.setHashes 0 hashes) with excludesSize := hashes.length } hash
  have stored := hashes_setHashes_zero { filter with mode := mode } hashes
  simp only [AdaptiveFilter.hashes] at found stored
  rw [stored] at found
  exact found

@[simp]
theorem mode_replace (filter : AdaptiveFilter) (mode : ℤ) (hashes : List UInt64) :
    (filter.replace mode hashes).mode = mode :=
  mode_setHashes _ _ _

/-- Two neighbours in the sorted hashes are equal exactly if a hash occurs twice. -/
theorem hasEqualHashes_replace (filter : AdaptiveFilter) (mode : ℤ) (hashes : List UInt64) :
    (filter.replace mode hashes).hasEqualHashes = true ↔ ¬hashes.Nodup := by
  have size : (filter.replace mode hashes).excludesSize = hashes.length := rfl
  have length := (Compares.perm_qsort adaptiveCompUlong hashes).length_eq
  have stored : ∀ index (inside : index < (qsort adaptiveCompUlong hashes).length),
      (qsort adaptiveCompUlong hashes)[index] =
        (filter.replace mode hashes).functionHashes index := by
    intro index inside
    simp [← hashes_replace filter mode hashes, AdaptiveFilter.hashes]
  rw [← compares_adaptiveCompUlong.exists_equal_neighbours_iff hashes]
  simp only [hasEqualHashes, size, List.any_eq_true, List.mem_range, beq_iff_eq]
  constructor
  · rintro ⟨index, inside, same⟩
    refine ⟨index, by omega, ?_⟩
    rw [stored, stored, same]
  · rintro ⟨index, inside, same⟩
    rw [stored, stored] at same
    exact ⟨index, by omega, same⟩

/-- Every load that returns does so in one of five ways. -/
theorem loads_of_load (done : adaptiveLoadExcludeFile heap file filter = some (code, loaded)) :
    Loads heap filter file code loaded := by
  cases file with
  | none =>
      cases done
      exact .unopened
  | some content =>
      unfold adaptiveLoadExcludeFile at done
      cases lines : getLines content with
      | nil =>
          simp only [lines] at done
          cases done
          exact .empty lines
      | cons read rest =>
          simp only [lines, Option.bind_eq_bind, Option.bind_eq_some_iff] at done
          rcases done with ⟨line, trims, done⟩
          have header : fileMode heap content = headerMode line := by
            simp [fileMode, lines, trims]
          have entries : fileEntries heap content = entryLines heap 1 rest := by
            simp [fileEntries, lines]
          cases selected : headerMode line with
          | none =>
              simp only [selected] at done
              cases done
              exact .headless (by simp [lines]) (header.trans selected)
          | some mode =>
              have selects := header.trans selected
              simp only [selected, Option.bind_eq_some_iff] at done
              rcases done with ⟨⟨stored, after⟩, components, done⟩
              rcases loadComponents_stores (Nat.zero_le _) rfl components with ⟨few, rfl, rfl⟩
              rw [Nat.zero_add, List.length_map, ← entries] at few
              simp only [Nat.zero_add, ← entries] at done
              change (if (filter.replace mode _).hasEqualHashes = true then _ else _) = _ at done
              split at done
              · rename_i clash
                cases done
                exact .clashing selects few ((hasEqualHashes_replace _ _ _).mp clash)
              · rename_i apart
                cases done
                rw [hasEqualHashes_replace, not_not] at apart
                exact .complete selects few apart

/-! ### Loads that return -/

variable {content : List UInt8}

/-- The load of a file with a header returns only if there is room for the entry lines. -/
theorem room_of_load (done : adaptiveLoadExcludeFile heap (some content) filter =
      some (code, loaded)) (header : fileMode heap content ≠ none) :
    (fileEntries heap content).length ≤ maxNumFiles := by
  cases loads_of_load done with
  | empty noLine => simp [fileMode, noLine] at header
  | headless _ noMode => exact absurd noMode header
  | clashing _ few _ => exact few
  | complete _ few _ => exact few

/-- No trimming of a line of the file runs off the memory in front of the line buffer. -/
structure Trims (heap : ℕ → List UInt8) (content : List UInt8) : Prop where
  header : ∀ read, (getLines content).head? = some read → (trimHeader (heap 0) read).isSome
  lines : ∀ index read, (getLines content).tail[index]? = some read →
    (trimLine (heap (1 + index)) (cString read)).isSome

theorem trims_of_guarded (guarded : ∀ number, Guarded (heap number)) (content : List UInt8) :
    Trims heap content where
  header := by
    intro read _
    unfold trimHeader
    split
    · rw [trimLine_of_guarded (guarded 0)]
      rfl
    · rfl
  lines := by
    intro index read _
    rw [trimLine_of_guarded (guarded _)]
    rfl

/-- With room for the entry lines the loop comes to its end. -/
theorem loadComponents_isSome
    (trims : ∀ index read, lines[index]? = some read →
      (trimLine (heap (number + index)) (cString read)).isSome)
    (room : i + (entryLines heap number lines).length ≤ maxNumFiles) :
    ∃ size loaded, loadComponents heap lines number i filter = some (some size, loaded) := by
  induction lines generalizing number i filter with
  | nil => exact ⟨_, _, rfl⟩
  | cons read lines ih =>
      rcases Option.isSome_iff_exists.mp (trims 0 read rfl) with ⟨line, trimmed⟩
      rw [Nat.add_zero] at trimmed
      have later : ∀ index other, lines[index]? = some other →
          (trimLine (heap (number + 1 + index)) (cString other)).isSome := by
        intro index other isLine
        rw [Nat.add_assoc, Nat.add_comm 1]
        exact trims (index + 1) other isLine
      simp only [loadComponents, trimmed, Option.bind_eq_bind, Option.bind_some]
      by_cases isEntry : line.head? ≠ some 35 ∧ 0 < line.length
      · rw [entryLines_of_entry trimmed isEntry, List.length_cons] at room
        rw [if_pos isEntry, setHash_eq_some.mpr ⟨by omega, rfl⟩, Option.bind_some,
          if_neg (by omega)]
        exact ih later (by omega)
      · rw [entryLines_of_not_entry trimmed isEntry] at room
        rw [if_neg isEntry]
        exact ih later room

/-- A load returns if no trimming faults and there is room for the entry lines. -/
theorem exists_load (trims : Trims heap content)
    (room : fileMode heap content ≠ none → (fileEntries heap content).length ≤ maxNumFiles)
    (filter : AdaptiveFilter) :
    ∃ code loaded, adaptiveLoadExcludeFile heap (some content) filter = some (code, loaded) := by
  cases lines : getLines content with
  | nil => exact ⟨-2, filter, by simp [adaptiveLoadExcludeFile, lines]⟩
  | cons read rest =>
      rcases Option.isSome_iff_exists.mp (trims.header read (by simp [lines])) with
        ⟨line, trimmed⟩
      have header : fileMode heap content = headerMode line := by
        simp [fileMode, lines, trimmed]
      have entries : fileEntries heap content = entryLines heap 1 rest := by
        simp [fileEntries, lines]
      simp only [adaptiveLoadExcludeFile, lines, trimmed, Option.bind_eq_bind, Option.bind_some]
      cases selected : headerMode line with
      | none => exact ⟨_, _, rfl⟩
      | some mode =>
          have few := room (by simp [header, selected])
          rw [entries, ← Nat.zero_add (entryLines heap 1 rest).length] at few
          have restTrims := trims.lines
          rw [lines, List.tail_cons] at restTrims
          rcases @loadComponents_isSome { filter with mode := mode } heap rest 1 0 restTrims
            few with ⟨size, loaded, done⟩
          simp only [done, Option.bind_some]
          split <;> exact ⟨_, _, rfl⟩

end AdaptiveFilter

end Kieker
