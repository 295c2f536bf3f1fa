import Kieker.Channel.Uses
import Kieker.Model.Preloading

/-!
# Overruns of the string buffer

A registry entry is put together in a buffer of fixed size, and nobody compares
the length of the string with it: neither the probes, nor the reader of the
lookup file, whose lines may be eight times as long.
-/

namespace Kieker

/--
`kieker_controller_send_string` writes inside the string buffer only, and `write`
is given bytes only that were written by this call.
-/
def SendsInside (string : CString) : Prop :=
  (∀ index, SendStringWrites string index → index < bufferSize) ∧
    ∀ index < sendStringCount string, SendStringWrites string index

variable {kernel : Kernel} {channel : Channel} {string : CString} {content read : List UInt8}

/-! ### Lengths -/

/-- A length as an `int` is what its last 32 bits say. -/
theorem toInt32_natCast (count : ℕ) :
    toInt32 count = if count % 2 ^ 32 < 2 ^ 31 then ((count % 2 ^ 32 : ℕ) : ℤ)
      else ((count % 2 ^ 32 : ℕ) : ℤ) - 2 ^ 32 := by
  rw [toInt32, Int.bmod_def]
  split <;> split <;> omega

/-- The length that reaches `strncpy`, a huge one if the `int` is negative. -/
theorem toUInt64_toInt32_length (string : CString) :
    toUInt64 (toInt32 string.length) =
      if string.length % 2 ^ 32 < 2 ^ 31 then string.length % 2 ^ 32
      else string.length % 2 ^ 32 + (2 ^ 64 - 2 ^ 32) := by
  rw [toUInt64, toInt32_natCast]
  split <;> omega

theorem toUInt64_toInt32_length_le_iff (string : CString) :
    12 + toUInt64 (toInt32 string.length) ≤ bufferSize ↔ string.length % 2 ^ 32 ≤ 8180 := by
  rw [toUInt64_toInt32_length, bufferSize]
  split <;> omega

/-- The header and the copy together are one piece at the front of the buffer. -/
theorem sendStringWrites_iff {index : ℕ} :
    SendStringWrites string index ↔ index < 12 + toUInt64 (toInt32 string.length) := by
  simp only [SendStringWrites, sendStringStores, List.mem_cons, List.not_mem_nil, or_false,
    exists_eq_or_imp, exists_eq_left]
  omega

theorem writes_inside_iff :
    (∀ index, SendStringWrites string index → index < bufferSize) ↔
      12 + toUInt64 (toInt32 string.length) ≤ bufferSize := by
  simp only [sendStringWrites_iff]
  constructor
  · intro inside
    by_contra outside
    exact absurd (inside bufferSize (by omega)) (by omega)
  · intro fits index written
    omega

theorem sendStringCount_of_le (short : string.length % 2 ^ 32 ≤ 8180) :
    sendStringCount string = 12 + string.length % 2 ^ 32 := by
  have cut : toInt32 string.length = (string.length % 2 ^ 32 : ℕ) := by
    rw [toInt32_natCast, if_pos (by omega)]
  have exactCount : toInt32 ((string.length % 2 ^ 32 : ℕ) + 4 + 4 + 4) =
      (string.length % 2 ^ 32 : ℕ) + 4 + 4 + 4 :=
    toInt32_of_bounds (by omega) (by omega)
  rw [sendStringCount, cut, exactCount, toUInt64]
  omega

theorem sendsInside_iff (string : CString) :
    SendsInside string ↔ string.length % 2 ^ 32 ≤ 8180 := by
  rw [SendsInside, writes_inside_iff, toUInt64_toInt32_length_le_iff]
  constructor
  · exact And.left
  · intro short
    refine ⟨short, fun index inside => ?_⟩
    rw [sendStringCount_of_le short] at inside
    rw [sendStringWrites_iff, toUInt64_toInt32_length, if_pos (by omega)]
    exact inside

/-- No more bytes are copied than the string has. -/
theorem strncpy_of_le (block : Block) (offset : ℕ) {count : ℕ} (enough : count ≤ string.length) :
    strncpy block offset string count = block.store offset (string.bytes.take count) := by
  rw [strncpy, if_neg (by omega), Int.toNat_natCast, Nat.sub_eq_zero_of_le enough,
    List.replicate_zero, List.append_nil]

/-- The function has a result exactly if its stores stay inside the string buffer. -/
theorem controllerSendString_isSome_iff (kernel : Kernel) (string : CString) (id : ℤ)
    {block : Block} (ready : channel.controller.stringBuffer = some block)
    (size : block.size = bufferSize) :
    (controllerSendString kernel string id channel).isSome = true ↔ SendsInside string := by
  rw [sendsInside_iff]
  obtain ⟨length, lengthEq⟩ : ∃ length, toInt32 string.length = length := ⟨_, rfl⟩
  obtain ⟨first, one⟩ := Block.store_isSome block 0 (int32Bytes (-1)) (by simp [size, bufferSize])
  have firstSize := (Block.store_eq_some one).2
  obtain ⟨second, two⟩ := Block.store_isSome first 4 (int32Bytes id)
    (by simp [firstSize, size, bufferSize])
  have secondSize := (Block.store_eq_some two).2
  obtain ⟨third, three⟩ := Block.store_isSome second 8 (int32Bytes length)
    (by simp [secondSize, firstSize, size, bufferSize])
  have thirdSize := (Block.store_eq_some three).2
  simp only [controllerSendString, ready, lengthEq, serializeInt32_eq, one, two, three,
    Option.map_some, Option.bind_eq_bind, Option.bind_some]
  have thirdIs : third.size = 8192 := by rw [thirdSize, secondSize, firstSize, size, bufferSize]
  by_cases positive : string.length % 2 ^ 32 < 2 ^ 31
  · have cut : length = (string.length % 2 ^ 32 : ℕ) := by
      rw [← lengthEq, toInt32_natCast, if_pos positive]
    have enough := Nat.mod_le string.length (2 ^ 32)
    have copied : (string.bytes.take (string.length % 2 ^ 32)).length =
        string.length % 2 ^ 32 := by
      rw [List.length_take, ← CString.length]
      omega
    rw [cut, strncpy_of_le third _ enough]
    by_cases short : string.length % 2 ^ 32 ≤ 8180
    · obtain ⟨fourth, four⟩ := Block.store_isSome third (4 + 4 + 4)
        (string.bytes.take (string.length % 2 ^ 32)) (by omega)
      have fourthSize := (Block.store_eq_some four).2
      have loaded := @Block.load_of_le fourth 0
        (((string.length % 2 ^ 32 : ℕ) : ℤ) + 4 + 4 + 4).toNat (by omega)
      simp only [four, loaded, Option.bind_some, short, iff_true]
      split <;> rfl
    · have refused : third.store (4 + 4 + 4) (string.bytes.take (string.length % 2 ^ 32)) =
          none := if_neg (by omega)
      simp only [refused, short, Option.bind_none, Option.isSome_none, Bool.false_eq_true]
  · have negative : length < 0 := by
      rw [← lengthEq, toInt32_natCast, if_neg positive]
      omega
    have long : ¬string.length % 2 ^ 32 ≤ 8180 := by omega
    rw [strncpy, if_pos negative]
    simp only [long, Option.bind_none, Option.isSome_none, Bool.false_eq_true]

/-! ### Lines of the lookup file -/

/-- No call reads more than there is room for, the first one in what is left of it. -/
theorem length_fgetsAll_le (size : ℕ) (content : List UInt8) (room : ℕ) :
    (∀ read ∈ (fgetsAll size content room).head?, read.length ≤ max room 1) ∧
      ∀ read ∈ fgetsAll size content room, read.length ≤ max (max room (size - 1)) 1 := by
  induction content generalizing room with
  | nil => simp [fgetsAll]
  | cons byte content ih =>
      by_cases stops : byte = 10 ∨ room ≤ 1
      · rw [fgetsAll, if_pos stops]
        refine ⟨by simp, ?_⟩
        intro read isRead
        rcases List.mem_cons.mp isRead with rfl | later
        · simp
        · have := (ih (size - 1)).2 read later
          omega
      · rcases ih (room - 1) with ⟨first, all⟩
        rw [fgetsAll, if_neg stops]
        cases reads : fgetsAll size content (room - 1) with
        | nil => simp
        | cons head tail =>
            rw [reads] at first all
            have headShort := first head rfl
            have longer : (byte :: head).length ≤ max room 1 := by
              rw [List.length_cons]
              omega
            refine ⟨fun read isRead => Option.some.inj isRead ▸ longer, ?_⟩
            intro read isRead
            rcases List.mem_cons.mp isRead with rfl | later
            · omega
            · have := all read (List.mem_cons_of_mem head later)
              omega

theorem length_lineString_le (isRead : read ∈ lookupLines content) :
    (lineString read).length ≤ lookupStringBufSize - 1 := by
  have cut : (lineString read).length ≤ read.length :=
    (List.takeWhile_prefix _).length_le
  have short := (length_fgetsAll_le lookupStringBufSize content (lookupStringBufSize - 1)).2
    read isRead
  unfold lookupStringBufSize at short ⊢
  omega

/--
`kieker_controller_send_string` stays inside the string buffer exactly for a string
whose length, as far as an `int` holds it, is at most 8180; for a line of a lookup
file, whose length an `int` holds, exactly if it has at most 8180 bytes.
-/
theorem string_sent_inside_iff (string : CString) :
    (SendsInside string ↔ string.length % 2 ^ 32 ≤ 8180) ∧
      ∀ content, ∀ read ∈ lookupLines content, string = lineString read →
        (SendsInside string ↔ string.length ≤ 8180) := by
  refine ⟨sendsInside_iff string, ?_⟩
  rintro content read isRead rfl
  have short := length_lineString_le isRead
  unfold lookupStringBufSize at short
  rw [sendsInside_iff, Nat.mod_eq_of_lt (by omega)]

/-- A signature of 8181 bytes is copied up to the first byte behind the string buffer. -/
theorem overlongString_not_sent_inside :
    SendStringWrites overlongString bufferSize ∧ ¬SendsInside overlongString := by
  have long : overlongString.length % 2 ^ 32 = 8181 := by
    rw [length_overlongString, Nat.mod_eq_of_lt (by norm_num)]
  constructor
  · rw [sendStringWrites_iff, toUInt64_toInt32_length, long, bufferSize]
    decide
  · rw [sendsInside_iff, long]
    decide

end Kieker
