import Kieker.Library.Searching
import Kieker.Model.State

/-!
# The exclusion filter

`kieker_string.c` and `kieker_adaptive_monitoring.c`. The filter keeps hashes of
component names, sorted, and asks by binary search. A pointer into a line is
modelled with the bytes in front of it, nearest first, because the trimming
function may run backwards past the start of the line.
-/

namespace Kieker

open Searching

/-! ### `kieker_string.c` -/

/-- A pointer to a zero-terminated string inside a larger piece of memory. -/
structure StringPointer where
  /-- The bytes in front of the string, nearest first, as far as memory is readable. -/
  before : List UInt8
  /-- The string. -/
  string : List UInt8

/-- `kieker_string_ltrim`. -/
def stringLtrim (before : List UInt8) : List UInt8 → StringPointer
  | [] => ⟨before, []⟩
  | byte :: string =>
      if isspace byte then stringLtrim (byte :: before) string else ⟨before, byte :: string⟩

/--
`kieker_string_rtrim`: the bytes in front of the terminator that it writes,
nearest first. Nothing stops the backward loop at the start of the string; when
memory in front of it ends the access faults.
-/
def stringRtrim (pointer : StringPointer) : Option (List UInt8) :=
  match (pointer.string.reverse ++ pointer.before).dropWhile isspace with
  | [] => none
  | kept => some kept

/-- `kieker_string_trim`: the bytes in front of the new terminator, nearest first. -/
def stringTrim (before string : List UInt8) : Option (List UInt8) :=
  stringRtrim (stringLtrim before string)

/--
The string in the line buffer after a call of `kieker_string_trim` on it whose
result is dropped. A terminator written in front of the buffer leaves it as it was.
-/
def trimLine (before line : List UInt8) : Option (List UInt8) := do
  let kept ← stringTrim before line
  if before.length ≤ kept.length then some (kept.take (kept.length - before.length)).reverse
  else some line

/-! ### `kieker_adaptive_monitoring.c` -/

/-- `MAX_NUM_FILES`. -/
def maxNumFiles : ℕ := 200

/-- The variables of `kieker_adaptive_monitoring.c`. -/
structure AdaptiveFilter where
  /-- What reading `kieker_adaptive_function_hashes` gives, also behind its `maxNumFiles` words. -/
  functionHashes : ℕ → UInt64
  /-- `kieker_adaptive_excludes_size`. -/
  excludesSize : ℕ
  /-- `kieker_adaptive_mode`. -/
  mode : ℤ

/-- The initial values of the variables of `kieker_adaptive_monitoring.c`. -/
def AdaptiveFilter.initial : AdaptiveFilter where
  functionHashes := fun _ => 0
  excludesSize := 0
  mode := 0

/-- `kieker_adaptive_hash`. -/
def adaptiveHash (string : List UInt8) : UInt64 :=
  string.foldl (fun hash byte => ((hash <<< 5) + hash) + byte.toUInt64) 5381

/-- `kieker_adaptive_comp_ulong`. -/
def adaptiveCompUlong (l1 l2 : UInt64) : ℤ :=
  if l1 < l2 then -1 else if l1 = l2 then 0 else 1

namespace AdaptiveFilter

/-- The first `size` elements of `kieker_adaptive_function_hashes`. -/
def hashes (filter : AdaptiveFilter) (size : ℕ) : List UInt64 :=
  (List.range size).map filter.functionHashes

/--
Assigns to an element of `kieker_adaptive_function_hashes`. An assignment behind the
array would hit other variables, such as the mode and the size, and has no value.
-/
def setHash (filter : AdaptiveFilter) (index : ℕ) (hash : UInt64) : Option AdaptiveFilter :=
  if index < maxNumFiles then
    some { filter with functionHashes := Function.update filter.functionHashes index hash }
  else none

/-- `qsort` on the first `excludesSize` elements. -/
def sortHashes (filter : AdaptiveFilter) : AdaptiveFilter :=
  let sorted := qsort adaptiveCompUlong (filter.hashes filter.excludesSize)
  { filter with
    functionHashes := fun index =>
      if index < filter.excludesSize then sorted.getD index 0 else filter.functionHashes index }

/-- The loop that looks for two equal neighbours. -/
def hasEqualHashes (filter : AdaptiveFilter) : Bool :=
  (List.range (filter.excludesSize - 1)).any fun index =>
    filter.functionHashes index == filter.functionHashes (index + 1)

/-- `kieker_adaptive_is_class_excluded`. -/
def isClassExcluded (filter : AdaptiveFilter) (classSignature : CString) : Bool :=
  let hash := adaptiveHash classSignature.bytes
  let found := (bsearch adaptiveCompUlong hash filter.functionHashes filter.excludesSize).isSome
  (found && filter.mode != 0) || (!found && filter.mode == 0)

end AdaptiveFilter

/-- The lines that successive calls of `getline` read, each with its newline. -/
def getLines : List UInt8 → List (List UInt8)
  | [] => []
  | byte :: content =>
      if byte = 10 then [10] :: getLines content
      else
        match getLines content with
        | [] => [[byte]]
        | line :: lines => (byte :: line) :: lines

/-- The string that starts where some bytes start. -/
def cString (bytes : List UInt8) : List UInt8 :=
  bytes.takeWhile fun byte => byte != 0

/-- The header line as it is compared: it is trimmed if it ends with a newline. -/
def trimHeader (before read : List UInt8) : Option (List UInt8) :=
  if read.getLast? = some 10 then trimLine before (cString read) else some (cString read)

/-- The mode that a header line selects. -/
def headerMode (line : List UInt8) : Option ℤ :=
  if line = (CString.literal "EXCLUDE").bytes then some 1
  else if line = (CString.literal "INCLUDE").bytes then some 0
  else none

/--
The loop over the lines after the header: how many hashes it stored, or nothing
if there were too many. `heap number` are the bytes in front of the line buffer,
nearest first, when line `number` has been read. The test for too many comes after
the store, so the loop has written behind the table by then.
-/
def loadComponents (heap : ℕ → List UInt8) : List (List UInt8) → ℕ → ℕ → AdaptiveFilter →
    Option (Option ℕ × AdaptiveFilter)
  | [], _, i, filter => some (some i, filter)
  | read :: lines, number, i, filter => do
      let line ← trimLine (heap number) (cString read)
      if line.head? ≠ some 35 ∧ 0 < line.length then
        let filter ← filter.setHash i (adaptiveHash line)
        if i + 1 > maxNumFiles then some (none, filter)
        else loadComponents heap lines (number + 1) (i + 1) filter
      else loadComponents heap lines (number + 1) i filter

/--
`kieker_adaptive_load_exclude_file`: the returned value and the filter left behind,
for the content of the file, or nothing for a file that cannot be opened.
-/
def adaptiveLoadExcludeFile (heap : ℕ → List UInt8) (file : Option (List UInt8))
    (filter : AdaptiveFilter) : Option (ℤ × AdaptiveFilter) :=
  match file with
  | none => some (-1, filter)
  | some content =>
      match getLines content with
      | [] => some (-2, filter)
      | read :: lines => do
          let line ← trimHeader (heap 0) read
          match headerMode line with
          | none => some (-3, filter)
          | some mode =>
              match ← loadComponents heap lines 1 0 { filter with mode := mode } with
              | (none, filter) => some (-4, filter)
              | (some size, filter) =>
                  let filter := { filter with excludesSize := size }.sortHashes
                  if filter.hasEqualHashes then some (-5, filter) else some (0, filter)

end Kieker
