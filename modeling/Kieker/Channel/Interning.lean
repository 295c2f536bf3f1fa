import Kieker.Channel.Sending
import Kieker.Library.Interning

/-!
# The string table as an interning table

The array of `kieker_lookup.c` holds the entries of an interning table, and a
lookup performs one step of interning: a string that is new is announced on the
socket, with the number it gets, before it enters the table.
-/

namespace Kieker

/-- The string table lists these strings, inside the allocated array. -/
structure LookupTable.Lists (table : LookupTable) (strings : List CString) : Prop where
  top : table.tableTop = strings.length
  room : table.tableTop ≤ table.tableMax
  entries : ∀ index < strings.length, table.stringList index = strings[index]?

/-- The string table holds these strings, each once, inside the allocated array. -/
structure LookupTable.Holds (table : LookupTable) (strings : List CString) : Prop where
  top : table.tableTop = strings.length
  room : table.tableTop ≤ table.tableMax
  entries : ∀ index < strings.length, table.stringList index = strings[index]?
  unique : strings.Nodup

theorem LookupTable.Holds.lists {table : LookupTable} {strings : List CString}
    (holds : table.Holds strings) : table.Lists strings :=
  ⟨holds.top, holds.room, holds.entries⟩

theorem LookupTable.holds_initial : LookupTable.initial.Holds [] where
  top := rfl
  room := le_refl _
  entries := by simp
  unique := List.nodup_nil

namespace LookupTable.Lists

variable {table : LookupTable} {strings : List CString}

theorem holds (lists : table.Lists strings) (unique : strings.Nodup) : table.Holds strings :=
  ⟨lists.top, lists.room, lists.entries, unique⟩

theorem read_eq (lists : table.Lists strings) {index : ℕ} (inside : index < strings.length) :
    table.read index = some strings[index] := by
  have allocated : index < table.tableMax := by
    have := lists.top
    have := lists.room
    omega
  rw [LookupTable.read, if_pos allocated, lists.entries index inside,
    List.getElem?_eq_getElem inside]

/-- The scan compares the strings it has not seen yet, and stops at the first equal one. -/
theorem lookupScan_eq (lists : table.Lists strings) (string : CString) (rest : List CString)
    (index : ℕ) (remaining : strings.drop index = rest) :
    lookupScan table string index rest.length =
      some (if string ∈ rest then some (index + rest.idxOf string) else none) := by
  induction rest generalizing index with
  | nil => simp [lookupScan]
  | cons head rest ih =>
      have inside : index < strings.length := by
        by_contra outside
        rw [List.drop_eq_nil_of_le (by omega)] at remaining
        cases remaining
      rw [List.drop_eq_getElem_cons inside] at remaining
      rcases List.cons.inj remaining with ⟨headEq, restEq⟩
      rw [List.length_cons, lookupScan, lists.read_eq inside, headEq]
      by_cases equal : head = string
      · subst equal
        simp
      · rw [Option.bind_eq_bind, Option.bind_some, if_neg equal, ih _ restEq]
        by_cases later : string ∈ rest
        · simp only [later, if_true, List.mem_cons, or_true, List.idxOf_cons_ne rest equal]
          congr 2
          omega
        · have notHead : string ≠ head := fun same => equal same.symm
          simp [later, notHead]

theorem grow (lists : table.Lists strings) : table.grow.Lists strings := by
  unfold LookupTable.grow
  split
  · exact ⟨lists.top, Nat.le_add_right_of_le lists.room, lists.entries⟩
  · exact lists

theorem tableTop_grow (table : LookupTable) : table.grow.tableTop = table.tableTop := by
  unfold LookupTable.grow
  split <;> rfl

theorem tableTop_lt_grow (lists : table.Lists strings) :
    table.grow.tableTop < table.grow.tableMax := by
  have room := lists.room
  unfold LookupTable.grow lookupTableInc
  split
  · simp only
    omega
  · omega

/-- Writing behind the last string and counting it appends it. -/
theorem write_eq (lists : table.Lists strings) (room : table.tableTop < table.tableMax)
    (string : CString) :
    ∃ written, table.write table.tableTop string = some written ∧
      written.tableTop = table.tableTop ∧
      { written with tableTop := written.tableTop + 1 }.Lists (strings ++ [string]) := by
  refine ⟨_, if_pos room, rfl, ?_, ?_, ?_⟩
  · simp [lists.top]
  · exact room
  · intro index inside
    have top := lists.top
    simp only [List.length_append, List.length_singleton] at inside
    rcases Nat.lt_succ_iff_lt_or_eq.mp inside with old | last
    · have different : index ≠ table.tableTop := by omega
      simp only [Function.update_of_ne different, lists.entries index old]
      rw [List.getElem?_append_left old]
    · have isTop : index = table.tableTop := by omega
      simp [isTop, top]

end LookupTable.Lists

/-! ### Uses of strings -/

/-- The size that `kieker_controller_setup_buffer` gives to each buffer. -/
def bufferSize : ℕ := 8192

/-- A string that fits into the string buffer behind the header of a registry entry. -/
def CString.Fits (string : CString) : Prop :=
  12 + string.length ≤ bufferSize

instance (string : CString) : Decidable string.Fits :=
  inferInstanceAs (Decidable (_ ≤ _))

/-- Strings that can be used: each is in the table or fits into the string buffer. -/
def Usable (known strings : List CString) : Prop :=
  ∀ string ∈ strings, string ∈ known ∨ string.Fits

theorem Usable.internAll {known strings used : List CString} (usable : Usable known strings) :
    Usable (Interning.internAll known used) strings := by
  intro string string_mem
  exact (usable string string_mem).imp_left fun old => Interning.mem_internAll.mpr (Or.inl old)

/-- Uses of strings that are usable after uses of others are usable behind these. -/
theorem Usable.append {known front back : List CString} (first : Usable known front)
    (second : Usable (Interning.internAll known front) back) : Usable known (front ++ back) := by
  intro string string_mem
  rcases List.mem_append.mp string_mem with here | later
  · exact first string here
  · rcases second string later with old | fits
    · rcases Interning.mem_internAll.mp old with known_mem | here
      · exact Or.inl known_mem
      · exact first string here
    · exact Or.inr fits

/-- The registry entries that announce what some uses of strings add to the table. -/
def registryPieces (known used : List CString) : List (List UInt8) :=
  (Interning.announcements known used).map fun entry => registryBytes entry.2 entry.1.bytes

@[simp]
theorem registryPieces_nil (known : List CString) : registryPieces known [] = [] := rfl

theorem registryPieces_append (known front back : List CString) :
    registryPieces known (front ++ back) =
      registryPieces known front ++ registryPieces (Interning.internAll known front) back := by
  simp [registryPieces, Interning.announcements_append]

theorem registryPieces_of_mem {known : List CString} {string : CString} (old : string ∈ known) :
    registryPieces known [string] = [] := by
  simp [registryPieces, Interning.announcements, Interning.announced, old]

theorem registryPieces_of_notMem {known : List CString} {string : CString} (new : string ∉ known) :
    registryPieces known [string] = [registryBytes known.length string.bytes] := by
  simp [registryPieces, Interning.announcements, Interning.announced, new]

/-- The string buffer is allocated and the table holds these strings. -/
structure Channel.Serves (channel : Channel) (known : List CString) : Prop where
  holds : channel.lookup.Holds known
  ready : ∃ block, channel.controller.stringBuffer = some block ∧ block.size = bufferSize

/--
What a sequence of uses of strings does to a channel: the table becomes the
interning table, the announcements are offered on the socket, and nothing else
changes but the string buffer and the error state.
-/
structure Channel.Interns (kernel : Kernel) (before after : Channel) (known used : List CString) :
    Prop where
  serves : after.Serves (Interning.internAll known used)
  log : after.world.log =
    kernel.offerAll before.controller.socket before.world.log (registryPieces known used)
  clockReads : after.world.clockReads = before.world.clockReads
  controller : after.controller =
    { before.controller with
      stringBuffer := after.controller.stringBuffer
      error := after.controller.error
      initState := after.controller.initState }
  initState : after.controller.initState =
    if kernel.refuses before.controller.socket before.world.log.length (registryPieces known used)
    then .failed else before.controller.initState

namespace Channel.Interns

variable {kernel : Kernel} {before middle after : Channel} {known used more : List CString}

theorem refl (serves : before.Serves known) : Channel.Interns kernel before before known [] where
  serves := serves
  log := rfl
  clockReads := rfl
  controller := rfl
  initState := rfl

theorem socket (interns : Channel.Interns kernel before after known used) :
    after.controller.socket = before.controller.socket := by
  rw [interns.controller]

theorem buffer (interns : Channel.Interns kernel before after known used) :
    after.controller.buffer = before.controller.buffer := by
  rw [interns.controller]

theorem localHostname (interns : Channel.Interns kernel before after known used) :
    after.controller.localHostname = before.controller.localHostname := by
  rw [interns.controller]

theorem trans (first : Channel.Interns kernel before middle known used)
    (second : Channel.Interns kernel middle after (Interning.internAll known used) more) :
    Channel.Interns kernel before after known (used ++ more) where
  serves := by
    rw [Interning.internAll_append]
    exact second.serves
  log := by
    rw [second.log, first.socket, first.log, registryPieces_append, Kernel.offerAll_append]
  clockReads := second.clockReads.trans first.clockReads
  controller := by
    rw [second.controller, first.controller]
  initState := by
    rw [second.initState, first.initState, first.socket, first.log, registryPieces_append,
      Kernel.refuses_append, Kernel.length_offerAll]
    by_cases early : kernel.refuses before.controller.socket before.world.log.length
      (registryPieces known used) = true <;> simp [early]

end Channel.Interns

theorem toUInt32_toInt32 (value : ℤ) : toUInt32 (toInt32 value) = toUInt32 value := by
  have same : value.bmod (2 ^ 32) % 2 ^ 32 = value % 2 ^ 32 := Int.bmod_emod
  rw [toUInt32, toInt32, same, toUInt32]

theorem registryBytes_toInt32 (id : ℤ) (string : List UInt8) :
    registryBytes (toInt32 id) string = registryBytes id string := by
  simp [registryBytes, int32Bytes, toUInt32_toInt32]

/-! ### `kieker_lookup_find_key_by_string` -/

variable {kernel : Kernel} {channel : Channel} {known : List CString} {string : CString}

/-- A lookup finds a string in the table, or adds it. -/
theorem lookupFindKeyByString_of_lists {strings : List CString}
    (lists : channel.lookup.Lists strings) :
    lookupFindKeyByString kernel string channel =
      if string ∈ strings then some (strings.idxOf string, channel)
      else (lookupStringListAddValue kernel string channel).map fun after =>
        (after.lookup.tableTop - 1, after) := by
  have scanned := lists.lookupScan_eq string strings 0 rfl
  rw [← lists.top, Nat.zero_add] at scanned
  rw [lookupFindKeyByString, scanned]
  split
  · rfl
  · cases lookupStringListAddValue kernel string channel <;> rfl

theorem CString.Fits.length_le (fits : string.Fits) : string.length ≤ 8180 := by
  unfold CString.Fits bufferSize at fits
  omega

private theorem readyGrown {block : Block}
    (ready : channel.controller.stringBuffer = some block) :
    { channel with lookup := channel.lookup.grow }.controller.stringBuffer = some block := ready

/-- A string that fits is announced and then appended, whether or not it is in the table. -/
theorem lookupStringListAddValue_of_lists (kernel : Kernel) {strings : List CString}
    (lists : channel.lookup.Lists strings)
    (ready : ∃ block, channel.controller.stringBuffer = some block ∧ block.size = bufferSize)
    (fits : string.Fits) :
    ∃ stored after, stored.size = bufferSize ∧
      lookupStringListAddValue kernel string channel = some after ∧
      after.lookup.Lists (strings ++ [string]) ∧
      after.controller = ((channel.setStringBuffer stored).announce kernel
        (registryBytes strings.length string.bytes)).controller ∧
      after.world = ((channel.setStringBuffer stored).announce kernel
        (registryBytes strings.length string.bytes)).world := by
  have shortEnough := fits.length_le
  have copied : copyString string = some string := if_pos (by omega)
  rcases ready with ⟨block, ready, size⟩
  have top : channel.lookup.grow.tableTop = strings.length :=
    (LookupTable.Lists.tableTop_grow channel.lookup).trans lists.top
  obtain ⟨stored, storedSize, sent⟩ := controllerSendString_of_fits kernel string
    (toInt32 strings.length) (readyGrown ready) (by omega) (by rw [size]; exact fits)
  obtain ⟨written, wrote, -, appended⟩ := lists.grow.write_eq lists.tableTop_lt_grow string
  rw [top] at wrote
  have grown : ({ channel with lookup := channel.lookup.grow }.setStringBuffer stored).announce
      kernel (registryBytes strings.length string.bytes) =
        { (channel.setStringBuffer stored).announce kernel
          (registryBytes strings.length string.bytes) with lookup := channel.lookup.grow } :=
    Channel.announce_lookup kernel (channel.setStringBuffer stored) _ channel.lookup.grow
  refine ⟨stored, { (channel.setStringBuffer stored).announce kernel
    (registryBytes strings.length string.bytes) with
      lookup := { written with tableTop := written.tableTop + 1 } }, storedSize.trans size, ?_,
    appended, rfl, rfl⟩
  simp only [lookupStringListAddValue, copied, top, sent, grown, wrote, Option.bind_eq_bind,
    Option.bind_some, registryBytes_toInt32]

/-- A new string that fits is announced and then appended. -/
private theorem lookupStringListAddValue_of_fits (kernel : Kernel) (serves : channel.Serves known)
    (new : string ∉ known) (fits : string.Fits) :
    ∃ after, lookupStringListAddValue kernel string channel = some after ∧
      after.lookup.tableTop = known.length + 1 ∧
      Channel.Interns kernel channel after known [string] := by
  obtain ⟨stored, after, storedSize, added, lists, controller, world⟩ :=
    lookupStringListAddValue_of_lists kernel serves.holds.lists serves.ready fits
  have pieces := registryPieces_of_notMem new
  have table : Interning.internAll known [string] = known ++ [string] := by
    simp [Interning.intern_of_notMem new]
  have unique : (known ++ [string]).Nodup := by
    rw [← table]
    exact Interning.nodup_internAll serves.holds.unique [string]
  refine ⟨after, added, by simp [lists.top], ⟨?_, ?_⟩, ?_, ?_, ?_, ?_⟩
  · rw [table]
    exact lists.holds unique
  · refine ⟨stored, ?_, storedSize⟩
    rw [controller, Channel.controller_announce]
    rfl
  · rw [world, pieces, Channel.world_announce]
    rfl
  · rw [world, Channel.world_announce]
    rfl
  · rw [controller, Channel.controller_announce]
    rfl
  · rw [controller, Channel.controller_announce, pieces]
    rfl

/-- A use of a string that is known or fits is one step of interning. -/
theorem lookupFindKeyByString_of_fits (kernel : Kernel) (serves : channel.Serves known)
    (usable : string ∈ known ∨ string.Fits) :
    ∃ after,
      lookupFindKeyByString kernel string channel =
        some ((Interning.intern known string).idxOf string, after) ∧
      Channel.Interns kernel channel after known [string] := by
  by_cases old : string ∈ known
  · refine ⟨channel, ?_, ?_⟩
    · rw [lookupFindKeyByString_of_lists serves.holds.lists, if_pos old,
        Interning.intern_of_mem old]
    · have noPieces := registryPieces_of_mem old
      have sameTable : Interning.internAll known [string] = known := by
        simp [Interning.intern_of_mem old]
      refine ⟨?_, ?_, rfl, rfl, ?_⟩
      · rw [sameTable]
        exact serves
      · simp [noPieces]
      · simp [noPieces, Kernel.refuses]
  · have fits := usable.resolve_left old
    obtain ⟨after, added, top, interns⟩ :=
      lookupStringListAddValue_of_fits kernel serves old fits
    refine ⟨after, ?_, interns⟩
    rw [lookupFindKeyByString_of_lists serves.holds.lists, if_neg old, added,
      Interning.idxOf_intern_of_notMem old]
    simp [top]

/-- A use of a new string that does not fit is undefined. -/
theorem lookupFindKeyByString_of_not_fits (serves : channel.Serves known) (new : string ∉ known)
    (tooLong : ¬string.Fits) : lookupFindKeyByString kernel string channel = none := by
  rcases serves.ready with ⟨block, ready, size⟩
  rw [lookupFindKeyByString_of_lists serves.holds.lists, if_neg new, lookupStringListAddValue]
  by_cases short : string.length + 1 < 2 ^ 31
  · have copied : copyString string = some string := if_pos short
    have refused := controllerSendString_of_not_fits kernel string
      (toInt32 channel.lookup.grow.tableTop) (readyGrown ready) (by omega)
      (by rw [size]; unfold CString.Fits at tooLong; omega)
    simp only [copied, refused, Option.bind_eq_bind, Option.bind_some, Option.bind_none,
      Option.map_none]
  · have notCopied : copyString string = none := if_neg short
    simp only [notCopied, Option.bind_eq_bind, Option.bind_none, Option.map_none]

/-- A lookup that has a result performed one step of interning. -/
theorem lookupFindKeyByString_eq_some (serves : channel.Serves known) {key : ℕ} {after : Channel}
    (found : lookupFindKeyByString kernel string channel = some (key, after)) :
    (string ∈ known ∨ string.Fits) ∧ key = (Interning.intern known string).idxOf string ∧
      Channel.Interns kernel channel after known [string] := by
  have usable : string ∈ known ∨ string.Fits := by
    by_contra unusable
    rw [not_or] at unusable
    rw [lookupFindKeyByString_of_not_fits serves unusable.1 unusable.2] at found
    cases found
  obtain ⟨result, specified, interns⟩ :=
    lookupFindKeyByString_of_fits kernel serves usable
  rw [specified] at found
  simp only [Option.some.injEq, Prod.mk.injEq] at found
  rcases found with ⟨rfl, rfl⟩
  exact ⟨usable, rfl, interns⟩

end Kieker
