import Kieker.Model.Adaptive
import Kieker.Model.Lookup

/-!
# Filling the string table from a file

`kieker_lookup_create` of `kieker_lookup.c`, which adds every line of a file to the
string table, and once more `kieker_controller_send_string`, seen by the places
in its buffer that it writes.
-/

namespace Kieker

/-! ### Reading lines -/

/-- `KIEKER_LOOKUP_STRING_BUF_SIZE`. -/
def lookupStringBufSize : ℕ := 65535

/--
What successive calls of `fgets` with a buffer of `size` bytes read, when there is
room for `room` more bytes before the next call: a call stops behind a newline, or
when only the place of the terminator is left.
-/
def fgetsAll (size : ℕ) : List UInt8 → ℕ → List (List UInt8)
  | [], _ => []
  | byte :: content, room =>
      if byte = 10 ∨ room ≤ 1 then [byte] :: fgetsAll size content (size - 1)
      else
        match fgetsAll size content (room - 1) with
        | [] => [[byte]]
        | read :: reads => (byte :: read) :: reads

/-- The lines that `kieker_lookup_create` reads from a file. -/
def lookupLines (content : List UInt8) : List (List UInt8) :=
  fgetsAll lookupStringBufSize content (lookupStringBufSize - 1)

theorem zero_notMem_cString (bytes : List UInt8) : (0 : UInt8) ∉ cString bytes :=
  fun zero_mem => absurd (List.mem_takeWhile_imp zero_mem) (by decide)

/-- The string in the line buffer after some bytes were read into it. -/
def lineString (read : List UInt8) : CString where
  bytes := cString read
  nulFree := zero_notMem_cString read

/-! ### `kieker_lookup_create` -/

/-- The loop over the lines, with the number of lines processed. -/
def lookupCreateLoop (kernel : Kernel) : List (List UInt8) → ℤ → Channel → Option (ℤ × Channel)
  | [], lcount, channel => some (lcount, channel)
  | read :: reads, lcount, channel => do
      let channel ← lookupStringListAddValue kernel (lineString read) channel
      lookupCreateLoop kernel reads (toInt32 (lcount + 1)) channel

/--
`kieker_lookup_create`: the returned value and what was done, for the content of
the file, or nothing for a file that cannot be opened.
-/
def lookupCreate (kernel : Kernel) (file : Option (List UInt8)) (channel : Channel) :
    Option (ℤ × Channel) :=
  match file with
  | none => some (-1, channel)
  | some content => lookupCreateLoop kernel (lookupLines content) 0 channel

/-! ### The string buffer -/

/--
What `kieker_controller_send_string` stores in the string buffer: where each of
its four stores starts, and how many bytes it writes.
-/
def sendStringStores (string : CString) : List (ℕ × ℕ) :=
  let length := toInt32 string.length
  [(0, 4), (4, 4), (8, 4), (4 + 4 + 4, toUInt64 length)]

/-- The length that `kieker_controller_send_string` gives to `write`. -/
def sendStringCount (string : CString) : ℕ :=
  let length := toInt32 string.length
  toUInt64 (toInt32 (length + 4 + 4 + 4))

/-- An index of the string buffer that `kieker_controller_send_string` writes. -/
def SendStringWrites (string : CString) (index : ℕ) : Prop :=
  ∃ store ∈ sendStringStores string, store.1 ≤ index ∧ index < store.1 + store.2

end Kieker
