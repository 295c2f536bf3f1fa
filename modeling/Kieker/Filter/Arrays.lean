import Kieker.Filter.Loading
import Kieker.Model.Loading

/-!
# The arrays of the loader

The first call of `getline` is told one byte more than was allocated, so no load
stays inside its arrays. The hashes stay inside theirs unless the load fails for
too many entry lines, which happens exactly if there are too many.
-/

namespace Kieker

namespace LoadRun

variable {grow : ℕ → ℕ → ℕ} {heap : ℕ → List UInt8} {lines : List (List UInt8)}
  {content : List UInt8} {number i : ℕ} {filter : AdaptiveFilter} {run after : LoadRun}
  {result : Option ℕ} {code : ℤ} {hashes : List UInt64}

/-- A load stayed inside its arrays and counted the entry lines right. -/
structure LoadsInside (heap : ℕ → List UInt8) (content : List UInt8) (code : ℤ) (after : LoadRun) :
    Prop where
  /-- Hashes are written below `MAX_NUM_FILES`. -/
  stores : ∀ index ∈ after.stored, index < maxNumFiles
  /-- Only a file with too many entry lines fails for that reason. -/
  counts : fileMode heap content ≠ none →
    (code = -4 ↔ maxNumFiles < (fileEntries heap content).length)
  /-- No call of `getline` is told a size larger than the buffer. -/
  offers : ∀ buffer ∈ after.offered, buffer.len ≤ buffer.allocated

/-- The loop writes below the end of the table, or fails having written at it. -/
theorem stored_of_loadComponentsRun
    (done : loadComponentsRun grow heap lines number i run = some (result, after))
    (room : i ≤ maxNumFiles) (inside : ∀ index ∈ run.stored, index < maxNumFiles) :
    (∀ index ∈ after.stored, index < maxNumFiles) ↔ result ≠ none := by
  induction lines generalizing number i run with
  | nil =>
      cases done
      exact iff_of_true inside (Option.some_ne_none i)
  | cons read lines ih =>
      simp only [loadComponentsRun, Option.bind_eq_bind, Option.bind_eq_some_iff] at done
      rcases done with ⟨line, -, done⟩
      split at done
      · split at done
        · rename_i full
          cases done
          refine iff_of_false (fun all => ?_) fun isSome => isSome rfl
          have last := all i (List.mem_append_right _ (List.mem_singleton_self i))
          omega
        · refine ih done (by omega) fun index index_mem => ?_
          rcases List.mem_append.mp index_mem with earlier | here
          · exact inside index earlier
          · rw [List.mem_singleton.mp here]
            omega
      · exact ih done room inside

/-- The loop fails exactly if there are more entry lines than there is room for. -/
theorem full_iff (done : loadComponentsRun grow heap lines number i run = some (result, after))
    (room : i ≤ maxNumFiles) :
    result = none ↔ maxNumFiles < i + (entryLines heap number lines).length := by
  induction lines generalizing number i run with
  | nil =>
      cases done
      exact iff_of_false (Option.some_ne_none i) (not_lt.mpr room)
  | cons read lines ih =>
      simp only [loadComponentsRun, Option.bind_eq_bind, Option.bind_eq_some_iff] at done
      rcases done with ⟨line, trims, done⟩
      by_cases isEntry : line.head? ≠ some 35 ∧ 0 < line.length
      · rw [entryLines_of_entry trims isEntry, List.length_cons]
        rw [if_pos isEntry] at done
        split at done
        · rename_i full
          cases done
          exact iff_of_true rfl (by omega)
        · rw [ih done (by omega)]
          omega
      · rw [entryLines_of_not_entry trims isEntry]
        rw [if_neg isEntry] at done
        exact ih done room

theorem mem_stored_of_loadComponentsRun {index : ℕ}
    (done : loadComponentsRun grow heap lines number i run = some (result, after))
    (isStored : index ∈ run.stored) : index ∈ after.stored := by
  induction lines generalizing number i run with
  | nil =>
      cases done
      exact isStored
  | cons read lines ih =>
      simp only [loadComponentsRun, Option.bind_eq_bind, Option.bind_eq_some_iff] at done
      rcases done with ⟨line, -, done⟩
      have still : ∀ hash, index ∈ ((run.getline grow read).setHash i hash).stored :=
        fun _ => List.mem_append_left _ isStored
      split at done
      · split at done
        · cases done
          exact still _
        · exact ih done (still _)
      · exact ih done isStored

/-- As long as the writes stay inside the table, the loop is the one of the filter. -/
theorem loadComponents_of_run
    (done : loadComponentsRun grow heap lines number i run = some (result, after))
    (inside : ∀ index ∈ after.stored, index < maxNumFiles) :
    loadComponents heap lines number i run.filter = some (result, after.filter) := by
  induction lines generalizing number i run with
  | nil =>
      cases done
      rfl
  | cons read lines ih =>
      simp only [loadComponentsRun, Option.bind_eq_bind, Option.bind_eq_some_iff] at done
      rcases done with ⟨line, trims, done⟩
      simp only [loadComponents, trims, Option.bind_eq_bind, Option.bind_some]
      by_cases isEntry : line.head? ≠ some 35 ∧ 0 < line.length
      · rw [if_pos isEntry] at done ⊢
        have last : i ∈ ((run.getline grow read).setHash i (adaptiveHash line)).stored :=
          List.mem_append_right _ (List.mem_singleton_self i)
        split at done
        · rename_i full
          cases done
          have below := inside i last
          omega
        · have below : i < maxNumFiles := inside i (mem_stored_of_loadComponentsRun done last)
          have isSet : run.filter.setHash i (adaptiveHash line) =
              some (run.filter.withHash i (adaptiveHash line)) :=
            AdaptiveFilter.setHash_eq_some.mpr ⟨below, rfl⟩
          have sameFilter : ((run.getline grow read).setHash i (adaptiveHash line)).filter =
              run.filter.withHash i (adaptiveHash line) := by
            change (run.filter.setHash i (adaptiveHash line)).getD run.filter = _
            rw [isSet]
            rfl
          have rest := ih done
          rw [sameFilter] at rest
          rw [isSet, Option.bind_some, if_neg (by omega)]
          exact rest
      · rw [if_neg isEntry] at done ⊢
        have rest := ih done
        exact rest

/-- The ways in which a load ends. -/
inductive Ends (grow : ℕ → ℕ → ℕ) (heap : ℕ → List UInt8) (content : List UInt8)
    (filter : AdaptiveFilter) : ℤ → LoadRun → Prop
  | empty (noLine : getLines content = []) :
      Ends grow heap content filter (-2) ((start filter).getline grow [])
  | headless {read line : List UInt8} {rest : List (List UInt8)}
      (lines : getLines content = read :: rest) (trims : trimHeader (heap 0) read = some line)
      (noMode : headerMode line = none) :
      Ends grow heap content filter (-3) ((start filter).getline grow read)
  | overfull {read line : List UInt8} {rest : List (List UInt8)} {mode : ℤ} {last : LoadRun}
      (lines : getLines content = read :: rest) (trims : trimHeader (heap 0) read = some line)
      (selects : headerMode line = some mode)
      (components : loadComponentsRun grow heap rest 1 0 (((start filter).getline grow read).update
        fun filter => { filter with mode := mode }) = some (none, last)) :
      Ends grow heap content filter (-4) last
  | filled {read line : List UInt8} {rest : List (List UInt8)} {mode : ℤ} {size : ℕ}
      {last after : LoadRun}
      (lines : getLines content = read :: rest) (trims : trimHeader (heap 0) read = some line)
      (selects : headerMode line = some mode)
      (components : loadComponentsRun grow heap rest 1 0 (((start filter).getline grow read).update
        fun filter => { filter with mode := mode }) = some (some size, last))
      (sorts : last.update (fun filter => { filter with excludesSize := size }.sortHashes) =
        after) :
      Ends grow heap content filter (if after.filter.hasEqualHashes then -5 else 0) after

theorem ends_of_run
    (done : adaptiveLoadExcludeFileRun grow heap content filter = some (code, after)) :
    Ends grow heap content filter code after := by
  cases lines : getLines content with
  | nil =>
      simp only [adaptiveLoadExcludeFileRun, lines] at done
      cases done
      exact .empty lines
  | cons read rest =>
      simp only [adaptiveLoadExcludeFileRun, lines, Option.bind_eq_bind,
        Option.bind_eq_some_iff] at done
      rcases done with ⟨line, trims, done⟩
      cases selects : headerMode line with
      | none =>
          rw [selects] at done
          cases done
          exact .headless lines trims selects
      | some mode =>
          simp only [selects, Option.bind_eq_some_iff] at done
          rcases done with ⟨⟨result, last⟩, components, done⟩
          cases result with
          | none =>
              cases done
              exact .overfull lines trims selects components
          | some size =>
              have filled := Ends.filled lines trims selects components rfl
              simp only at done
              split at done
              · rename_i clash
                cases done
                rwa [if_pos clash] at filled
              · rename_i apart
                cases done
                rwa [if_neg apart] at filled

/-- As long as the writes stay inside the table, the load is the one of the filter. -/
theorem load_of_run
    (done : adaptiveLoadExcludeFileRun grow heap content filter = some (code, after))
    (inside : ∀ index ∈ after.stored, index < maxNumFiles) :
    adaptiveLoadExcludeFile heap (some content) filter = some (code, after.filter) := by
  cases ends_of_run done with
  | empty noLine =>
      simp only [adaptiveLoadExcludeFile, noLine]
      rfl
  | headless lines trims noMode =>
      simp only [adaptiveLoadExcludeFile, lines, trims, noMode, Option.bind_eq_bind,
        Option.bind_some]
      rfl
  | @overfull _ _ rest mode _ lines trims selects components =>
      have loop := loadComponents_of_run components inside
      change loadComponents heap rest 1 0 { filter with mode := mode } = _ at loop
      simp only [adaptiveLoadExcludeFile, lines, trims, selects, loop, Option.bind_eq_bind,
        Option.bind_some]
  | @filled _ _ rest mode size last _ lines trims selects components sorts =>
      subst sorts
      have loop := loadComponents_of_run components inside
      change loadComponents heap rest 1 0 { filter with mode := mode } = _ at loop
      simp only [adaptiveLoadExcludeFile, lines, trims, selects, loop, Option.bind_eq_bind,
        Option.bind_some]
      rw [← apply_ite fun code => some (code, _)]
      rfl

/-- The buffers given to `getline` are only added to. -/
theorem mem_offered_of_loadComponentsRun {buffer : LineBuffer}
    (done : loadComponentsRun grow heap lines number i run = some (result, after))
    (offered : buffer ∈ run.offered) : buffer ∈ after.offered := by
  induction lines generalizing number i run with
  | nil =>
      cases done
      exact List.mem_append_left _ offered
  | cons read lines ih =>
      simp only [loadComponentsRun, Option.bind_eq_bind, Option.bind_eq_some_iff] at done
      rcases done with ⟨line, -, done⟩
      have still : buffer ∈ (run.getline grow read).offered := List.mem_append_left _ offered
      split at done
      · split at done
        · cases done
          exact still
        · exact ih done still
      · exact ih done still

/-- The first call of `getline` gets the buffer as it was allocated. -/
theorem initial_mem_offered
    (done : adaptiveLoadExcludeFileRun grow heap content filter = some (code, after)) :
    LineBuffer.initial ∈ after.offered := by
  have first : ∀ read, LineBuffer.initial ∈ ((start filter).getline grow read).offered := fun _ =>
    List.mem_append_right _ (List.mem_singleton_self _)
  cases ends_of_run done with
  | empty => exact first _
  | headless => exact first _
  | @overfull read _ _ _ _ _ _ _ components =>
      exact mem_offered_of_loadComponentsRun components (first read)
  | @filled read _ _ _ _ last _ _ _ _ components sorts =>
      have inLast : LineBuffer.initial ∈ last.offered :=
        mem_offered_of_loadComponentsRun components (first read)
      subst sorts
      exact inLast

/-- Hashes are written below the end of the table unless the load fails for lack of room. -/
theorem stored_iff
    (done : adaptiveLoadExcludeFileRun grow heap content filter = some (code, after)) :
    (∀ index ∈ after.stored, index < maxNumFiles) ↔ code ≠ -4 := by
  have nothing : ∀ index ∈ (start filter).stored, index < maxNumFiles :=
    fun _ index_mem => absurd index_mem List.not_mem_nil
  cases ends_of_run done with
  | empty => exact iff_of_true nothing (by norm_num)
  | headless => exact iff_of_true nothing (by norm_num)
  | overfull _ _ _ components =>
      rw [stored_of_loadComponentsRun components (Nat.zero_le _) nothing]
      simp
  | @filled _ _ _ _ size _ _ _ _ _ components sorts =>
      subst sorts
      refine iff_of_true ?_ (by split <;> norm_num)
      exact (stored_of_loadComponentsRun components (Nat.zero_le _) nothing).mpr
        (Option.some_ne_none size)

/-- A file with a header fails for lack of room exactly if it has too many entry lines. -/
theorem code_iff
    (done : adaptiveLoadExcludeFileRun grow heap content filter = some (code, after))
    (header : fileMode heap content ≠ none) :
    code = -4 ↔ maxNumFiles < (fileEntries heap content).length := by
  have entries : ∀ {read rest}, getLines content = read :: rest →
      fileEntries heap content = entryLines heap 1 rest := fun lines => by
    simp [fileEntries, lines]
  cases ends_of_run done with
  | empty noLine => simp [fileMode, noLine] at header
  | headless lines trims noMode => simp [fileMode, lines, trims, noMode] at header
  | overfull lines _ _ components =>
      have full := full_iff components (Nat.zero_le _)
      rw [Nat.zero_add, ← entries lines] at full
      exact iff_of_true rfl (full.mp rfl)
  | @filled _ _ _ _ size _ _ lines _ _ components =>
      have full := full_iff components (Nat.zero_le _)
      rw [Nat.zero_add, ← entries lines] at full
      exact iff_of_false (by split <;> norm_num) fun many =>
        Option.some_ne_none size (full.mpr many)

/-- A file without a header does not fail for lack of room. -/
theorem code_ne_of_no_header
    (done : adaptiveLoadExcludeFileRun grow heap content filter = some (code, after))
    (noHeader : fileMode heap content = none) : code ≠ -4 := by
  cases ends_of_run done with
  | empty => norm_num
  | headless => norm_num
  | overfull lines trims selects => simp [fileMode, lines, trims, selects] at noHeader
  | filled lines trims selects => simp [fileMode, lines, trims, selects] at noHeader

/-- A load that writes behind the table has no value as a load of the filter. -/
theorem load_eq_none_of_run
    (done : adaptiveLoadExcludeFileRun grow heap content filter = some (code, after))
    (outside : ¬∀ index ∈ after.stored, index < maxNumFiles) :
    adaptiveLoadExcludeFile heap (some content) filter = none := by
  rw [stored_iff done, not_not] at outside
  by_cases header : fileMode heap content = none
  · exact absurd outside (code_ne_of_no_header done header)
  · have many := (code_iff done header).mp outside
    rw [Option.eq_none_iff_forall_ne_some]
    rintro ⟨other, loaded⟩ returns
    exact absurd (AdaptiveFilter.room_of_load returns header) (not_le.mpr many)

theorem not_loadsInside
    (done : adaptiveLoadExcludeFileRun grow heap content filter = some (code, after)) :
    ¬LoadsInside heap content code after := fun inside =>
  absurd (inside.offers _ (initial_mem_offered done)) (by decide)

/--
No load stays inside its arrays: the first call of `getline` is told 256 bytes for
a buffer of 255. The hashes of a file stay inside the table exactly if it has no
header or not too many entry lines, and a file with a header fails for lack of room
exactly if it has too many.
-/
theorem loads_never_inside (grow : ℕ → ℕ → ℕ) (heap : ℕ → List UInt8) (content : List UInt8)
    (filter : AdaptiveFilter) :
    (¬∃ code after, adaptiveLoadExcludeFileRun grow heap content filter = some (code, after) ∧
        LoadsInside heap content code after) ∧
      ∀ code after, adaptiveLoadExcludeFileRun grow heap content filter = some (code, after) →
        ((∀ index ∈ after.stored, index < maxNumFiles) ↔
          fileMode heap content = none ∨ (fileEntries heap content).length ≤ maxNumFiles) ∧
        (fileMode heap content ≠ none →
          (code = -4 ↔ maxNumFiles < (fileEntries heap content).length)) := by
  constructor
  · rintro ⟨code, after, done, inside⟩
    exact not_loadsInside done inside
  · intro code after done
    refine ⟨?_, code_iff done⟩
    rw [stored_iff done]
    by_cases header : fileMode heap content = none
    · exact iff_of_true (code_ne_of_no_header done header) (Or.inl header)
    · rw [ne_eq, code_iff done header, not_lt]
      simp [header]

/-- A file of four entry lines does not stay inside the arrays. -/
theorem componentFile_not_loadsInside :
    (adaptiveLoadExcludeFileRun (fun _ needed => needed) (fun _ => [0]) componentFile
        .initial).map Prod.fst = some 0 ∧
      ¬∀ grow heap content filter, ∃ code after,
        adaptiveLoadExcludeFileRun grow heap content filter = some (code, after) ∧
          LoadsInside heap content code after := by
  refine ⟨by decide +kernel, fun inside => ?_⟩
  rcases inside (fun _ needed => needed) (fun _ => [0]) componentFile .initial with
    ⟨code, after, done, loadsInside⟩
  exact not_loadsInside done loadsInside

end LoadRun

end Kieker
