import Kieker.Model.Adaptive

/-!
# The exclusion filter and its arrays

`kieker_adaptive_load_exclude_file` once more, with the line buffer and a record of
what the loader did to its arrays: the buffer as it was given to every call of
`getline`, and the index of every write to `kieker_adaptive_function_hashes`. A write
behind the table is recorded and the run goes on, as it does in the source unless the
write hits a variable of the loader; what it does hit is left open.
-/

namespace Kieker

/-- The line buffer: the variable `len`, and how many bytes are allocated at `line`. -/
structure LineBuffer where
  len : ℕ
  allocated : ℕ

/-- The line buffer before the first line: `malloc((len - 1) * sizeof(char))`. -/
def LineBuffer.initial : LineBuffer where
  len := 256
  allocated := 256 - 1

/--
`getline`: what happens to the buffer for a line, which needs a terminator too.
`grow len needed` is the size that `getline` chooses when it reallocates.
-/
def LineBuffer.getline (grow : ℕ → ℕ → ℕ) (buffer : LineBuffer) (read : List UInt8) : LineBuffer :=
  if read.length + 1 ≤ buffer.len then buffer
  else
    { len := grow buffer.len (read.length + 1)
      allocated := grow buffer.len (read.length + 1) }

/-- The filter, the line buffer, and what was done to the arrays. -/
structure LoadRun where
  filter : AdaptiveFilter
  buffer : LineBuffer
  /-- The buffer as each call of `getline` got it. -/
  offered : List LineBuffer
  /-- The index of each write to `kieker_adaptive_function_hashes`. -/
  stored : List ℕ

namespace LoadRun

/-- The start of a load. -/
def start (filter : AdaptiveFilter) : LoadRun where
  filter := filter
  buffer := .initial
  offered := []
  stored := []

/-- A call of `getline` that reads some bytes, none at the end of the file. -/
def getline (grow : ℕ → ℕ → ℕ) (run : LoadRun) (read : List UInt8) : LoadRun :=
  { run with
    buffer := run.buffer.getline grow read
    offered := run.offered ++ [run.buffer] }

/-- Assigns to an element of `kieker_adaptive_function_hashes`. -/
def setHash (run : LoadRun) (index : ℕ) (hash : UInt64) : LoadRun :=
  { run with
    filter := (run.filter.setHash index hash).getD run.filter
    stored := run.stored ++ [index] }

/-- Assigns to the other variables. -/
def update (run : LoadRun) (change : AdaptiveFilter → AdaptiveFilter) : LoadRun :=
  { run with filter := change run.filter }

end LoadRun

/-- The loop over the lines after the header. -/
def loadComponentsRun (grow : ℕ → ℕ → ℕ) (heap : ℕ → List UInt8) :
    List (List UInt8) → ℕ → ℕ → LoadRun → Option (Option ℕ × LoadRun)
  | [], _, i, run => some (some i, run.getline grow [])
  | read :: lines, number, i, run => do
      let run := run.getline grow read
      let line ← trimLine (heap number) (cString read)
      if line.head? ≠ some 35 ∧ 0 < line.length then
        let run := run.setHash i (adaptiveHash line)
        if i + 1 > maxNumFiles then some (none, run)
        else loadComponentsRun grow heap lines (number + 1) (i + 1) run
      else loadComponentsRun grow heap lines (number + 1) i run

/-- `kieker_adaptive_load_exclude_file` for the content of a file that could be opened. -/
def adaptiveLoadExcludeFileRun (grow : ℕ → ℕ → ℕ) (heap : ℕ → List UInt8) (content : List UInt8)
    (filter : AdaptiveFilter) : Option (ℤ × LoadRun) :=
  let run := LoadRun.start filter
  match getLines content with
  | [] => some (-2, run.getline grow [])
  | read :: lines => do
      let run := run.getline grow read
      let line ← trimHeader (heap 0) read
      match headerMode line with
      | none => some (-3, run)
      | some mode =>
          let run := run.update fun filter => { filter with mode := mode }
          match ← loadComponentsRun grow heap lines 1 0 run with
          | (none, run) => some (-4, run)
          | (some size, run) =>
              let run := run.update fun filter =>
                { filter with excludesSize := size }.sortHashes
              if run.filter.hasEqualHashes then some (-5, run) else some (0, run)

end Kieker
