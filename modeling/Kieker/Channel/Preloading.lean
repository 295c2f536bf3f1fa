import Kieker.Channel.Uses
import Kieker.Model.Preloading

/-!
# A string table filled from a file

`kieker_lookup_create` enters the lines of a file into the string table as `fgets`
returns them, with their newlines, and without looking whether they are there
already. A name that is looked up later has no newline, so it matches no line.
-/

namespace Kieker

variable {kernel : Kernel} {channel after : Channel} {strings names : List CString}
  {name : CString} {bytes content : List UInt8} {reads : List (List UInt8)}

/-- A file with a newline behind every name. -/
def namesFile (names : List CString) : List UInt8 :=
  names.flatMap fun name => name.bytes ++ [10]

/--
After a load every name is found under a number that the load gave out, and
nothing is added; no string is in the table twice; and the load returned the
number of lines.
-/
def FoundAgain (kernel : Kernel) (names : List CString) (channel : Channel) : Prop :=
  ∃ after, lookupCreate kernel (some (namesFile names)) channel =
      some ((names.length : ℤ), after) ∧
    (∀ name ∈ names, ∃ id later,
      lookupFindKeyByString kernel name after = some (id, later) ∧
        channel.lookup.tableTop ≤ id ∧ id < after.lookup.tableTop ∧
        later.lookup = after.lookup) ∧
    ∀ first second, first < second → second < after.lookup.tableTop →
      after.lookup.stringList first ≠ after.lookup.stringList second

/-! ### Reading the file -/

/-- A line that there is room for is read whole, and the next call starts behind its newline. -/
theorem fgetsAll_line {size room : ℕ} (noNewline : (10 : UInt8) ∉ bytes)
    (fits : bytes.length < room) :
    fgetsAll size (bytes ++ 10 :: content) room =
      (bytes ++ [10]) :: fgetsAll size content (size - 1) := by
  induction bytes generalizing room with
  | nil => rw [List.nil_append, List.nil_append, fgetsAll, if_pos (Or.inl rfl)]
  | cons byte bytes ih =>
      rw [List.mem_cons, not_or] at noNewline
      rw [List.length_cons] at fits
      have goesOn : ¬(byte = 10 ∨ room ≤ 1) := by
        rintro (newline | full)
        · exact noNewline.1 newline.symm
        · omega
      rw [List.cons_append, fgetsAll, if_neg goesOn, ih noNewline.2 (by omega)]
      rfl

theorem lookupLines_namesFile (noNewline : ∀ name ∈ names, (10 : UInt8) ∉ name.bytes)
    (short : ∀ name ∈ names, name.length < 8180) :
    lookupLines (namesFile names) = names.map fun name => name.bytes ++ [10] := by
  induction names with
  | nil => rfl
  | cons name names ih =>
      have rest := ih (fun other later => noNewline other (List.mem_cons_of_mem name later))
        fun other later => short other (List.mem_cons_of_mem name later)
      have fits := short name List.mem_cons_self
      rw [lookupLines] at rest
      rw [lookupLines, namesFile, List.flatMap_cons, List.append_assoc, List.singleton_append,
        fgetsAll_line (noNewline name List.mem_cons_self)
          (by unfold CString.length at fits; unfold lookupStringBufSize; omega),
        List.map_cons, ← rest]
      rfl

/-- The newline becomes part of the string. -/
theorem bytes_lineString (name : CString) :
    (lineString (name.bytes ++ [10])).bytes = name.bytes ++ [10] := by
  apply List.takeWhile_eq_self_iff.mpr
  intro byte byte_mem
  rcases List.mem_append.mp byte_mem with inName | isNewline
  · rw [bne_iff_ne]
    exact fun zero => name.nulFree (zero ▸ inName)
  · rw [List.mem_singleton.mp isNewline]
    rfl

/-! ### Filling the table -/

/-- Lines that fit are announced and appended, one after another. -/
theorem lookupCreateLoop_of_fits (kernel : Kernel) (lists : channel.lookup.Lists strings)
    (ready : ∃ block, channel.controller.stringBuffer = some block ∧ block.size = bufferSize)
    (fits : ∀ read ∈ reads, (lineString read).Fits) (lcount : ℤ) :
    ∃ count after, lookupCreateLoop kernel reads lcount channel = some (count, after) ∧
      after.lookup.Lists (strings ++ reads.map lineString) ∧
      (∃ block, after.controller.stringBuffer = some block ∧ block.size = bufferSize) ∧
      (0 ≤ lcount → lcount + reads.length < 2 ^ 31 → count = lcount + reads.length) := by
  induction reads generalizing channel strings lcount with
  | nil => exact ⟨lcount, channel, rfl, by simpa using lists, ready, by simp⟩
  | cons read reads ih =>
      obtain ⟨stored, added, size, adds, addedLists, controller, -⟩ :=
        lookupStringListAddValue_of_lists kernel lists ready (fits read List.mem_cons_self)
      have stillReady : ∃ block, added.controller.stringBuffer = some block ∧
          block.size = bufferSize := by
        refine ⟨stored, ?_, size⟩
        rw [controller, Channel.controller_announce]
        rfl
      obtain ⟨count, after, rest, table, afterReady, counted⟩ := ih addedLists stillReady
        (fun other later => fits other (List.mem_cons_of_mem read later)) (toInt32 (lcount + 1))
      refine ⟨count, after, ?_, ?_, afterReady, ?_⟩
      · simp only [lookupCreateLoop, adds, Option.bind_eq_bind, Option.bind_some, rest]
      · simpa using table
      · intro nonneg few
        rw [List.length_cons] at few ⊢
        have exactCount : toInt32 (lcount + 1) = lcount + 1 :=
          toInt32_of_bounds (by omega) (by omega)
        rw [exactCount] at counted
        have := counted (by omega) (by omega)
        omega

/-- A load of names fills the table with their lines, newlines included. -/
theorem lookupCreate_namesFile (kernel : Kernel) (serves : channel.Serves [])
    (noNewline : ∀ name ∈ names, (10 : UInt8) ∉ name.bytes)
    (short : ∀ name ∈ names, name.length < 8180) :
    ∃ count after, lookupCreate kernel (some (namesFile names)) channel = some (count, after) ∧
      after.lookup.Lists (names.map fun name => lineString (name.bytes ++ [10])) ∧
      (∃ block, after.controller.stringBuffer = some block ∧ block.size = bufferSize) ∧
      (names.length < 2 ^ 31 → count = names.length) := by
  have fits : ∀ read ∈ names.map fun name => name.bytes ++ [10], (lineString read).Fits := by
    intro read isRead
    rcases List.mem_map.mp isRead with ⟨name, name_mem, rfl⟩
    have nameShort := short name name_mem
    unfold CString.Fits CString.length bufferSize
    rw [bytes_lineString, List.length_append, List.length_singleton]
    unfold CString.length at nameShort
    omega
  obtain ⟨count, after, loaded, table, ready, counted⟩ :=
    lookupCreateLoop_of_fits kernel serves.holds.lists serves.ready fits 0
  refine ⟨count, after, ?_, ?_, ready, ?_⟩
  · rw [lookupCreate, lookupLines_namesFile noNewline short, loaded]
  · simpa [Function.comp_def] using table
  · intro few
    simpa using counted (le_refl 0) (by simpa using few)

/-- A name that is looked up after the load is not found: it is added once more. -/
theorem lookup_after_load_adds (kernel : Kernel)
    (table : after.lookup.Lists (names.map fun name => lineString (name.bytes ++ [10])))
    (ready : ∃ block, after.controller.stringBuffer = some block ∧ block.size = bufferSize)
    (noNewline : (10 : UInt8) ∉ name.bytes) (short : name.length < 8180) :
    ∃ later, lookupFindKeyByString kernel name after = some (names.length, later) ∧
      later.lookup.tableTop = after.lookup.tableTop + 1 := by
  have notInTable : name ∉ names.map fun name => lineString (name.bytes ++ [10]) := by
    intro inTable
    rcases List.mem_map.mp inTable with ⟨other, -, same⟩
    apply noNewline
    rw [← same, bytes_lineString]
    simp
  have fits : name.Fits := by
    unfold CString.Fits bufferSize
    omega
  obtain ⟨stored, later, -, added, lists, -⟩ :=
    lookupStringListAddValue_of_lists kernel table ready fits
  have top : later.lookup.tableTop = names.length + 1 := by simpa using lists.top
  have before : after.lookup.tableTop = names.length := by simpa using table.top
  refine ⟨later, ?_, by rw [top, before]⟩
  rw [lookupFindKeyByString_of_lists table, if_neg notInTable, added, Option.map_some, top,
    Nat.add_sub_cancel]

/-- No name of the file is found again. -/
theorem not_foundAgain (serves : channel.Serves [])
    (noNewline : ∀ name ∈ names, (10 : UInt8) ∉ name.bytes)
    (short : ∀ name ∈ names, name.length < 8180) (name_mem : name ∈ names) :
    ¬FoundAgain kernel names channel := by
  rintro ⟨after, loaded, found, -⟩
  obtain ⟨count, filled, fills, table, ready, -⟩ :=
    lookupCreate_namesFile kernel serves noNewline short
  rw [fills, Option.some.injEq, Prod.mk.injEq] at loaded
  rcases loaded with ⟨-, rfl⟩
  rcases found name name_mem with ⟨id, later, finds, -, -, unchanged⟩
  obtain ⟨added, adds, grown⟩ := lookup_after_load_adds kernel table ready
    (noNewline name name_mem) (short name name_mem)
  rw [adds, Option.some.injEq, Prod.mk.injEq] at finds
  rw [finds.2, unchanged] at grown
  omega

/--
The names of a file of newline-terminated names, read into an empty table, are
found again exactly if there are none.
-/
theorem foundAgain_iff (serves : channel.Serves [])
    (noNewline : ∀ name ∈ names, (10 : UInt8) ∉ name.bytes)
    (short : ∀ name ∈ names, name.length < 8180) :
    FoundAgain kernel names channel ↔ names = [] := by
  constructor
  · intro again
    by_contra nonempty
    rcases List.exists_mem_of_ne_nil names nonempty with ⟨name, name_mem⟩
    exact not_foundAgain serves noNewline short name_mem again
  · rintro rfl
    have top := serves.holds.top
    refine ⟨channel, rfl, by simp, ?_⟩
    intro first second _ inside
    rw [top] at inside
    exact absurd inside (Nat.not_lt_zero second)

theorem worker_foundAgain_iff :
    FoundAgain Kernel.accepting [.literal "Worker"] unusedChannel ↔
      [CString.literal "Worker"] = [] :=
  foundAgain_iff serves_unusedChannel (by decide) (by decide)

/-- A file with the only name `Worker`, all of whose writes succeed. -/
theorem worker_not_foundAgain :
    Kernel.accepting.CompleteOn unusedChannel.controller.socket ∧
      unusedChannel.Serves [] ∧ ¬FoundAgain Kernel.accepting [.literal "Worker"] unusedChannel :=
  ⟨Kernel.completeOn_accepting (by decide), serves_unusedChannel,
    not_foundAgain serves_unusedChannel (by decide) (by decide) List.mem_cons_self⟩

end Kieker
