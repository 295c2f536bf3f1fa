import Kieker.Model.State

/-!
# Trimming by address

`kieker_string.c` once more, one access at a time. Memory is a byte for every
address, and with it goes the list of addresses that were read or written. The
loops carry fuel, since the backward loop has no bound of its own.
-/

namespace Kieker

/-- The memory of the process and the addresses accessed so far. -/
structure Memory where
  byte : ℤ → UInt8
  accessed : List ℤ

namespace Memory

/-- `*address` as a value. -/
def read (memory : Memory) (address : ℤ) : UInt8 × Memory :=
  (memory.byte address, { memory with accessed := memory.accessed ++ [address] })

/-- `*address = value`. -/
def write (memory : Memory) (address : ℤ) (value : UInt8) : Memory where
  byte := Function.update memory.byte address value
  accessed := memory.accessed ++ [address]

/-- `kieker_string_ltrim`. -/
def stringLtrim : ℕ → ℤ → Memory → Option (ℤ × Memory)
  | 0, _, _ => none
  | fuel + 1, string, memory =>
      let (byte, memory) := memory.read string
      if isspace byte then stringLtrim fuel (string + 1) memory else some (string, memory)

/-- `strlen`: the address of the terminator, which is `string + strlen(string)`. -/
def stringEnd : ℕ → ℤ → Memory → Option (ℤ × Memory)
  | 0, _, _ => none
  | fuel + 1, string, memory =>
      let (byte, memory) := memory.read string
      if byte ≠ 0 then stringEnd fuel (string + 1) memory else some (string, memory)

/-- The loop `while(isspace(*--back));`. -/
def skipBack : ℕ → ℤ → Memory → Option (ℤ × Memory)
  | 0, _, _ => none
  | fuel + 1, back, memory =>
      let (byte, memory) := memory.read (back - 1)
      if isspace byte then skipBack fuel (back - 1) memory else some (back - 1, memory)

/-- `kieker_string_rtrim`. -/
def stringRtrim (fuel : ℕ) (string : ℤ) (memory : Memory) : Option (ℤ × Memory) := do
  let (back, memory) ← stringEnd fuel string memory
  let (back, memory) ← skipBack fuel back memory
  let memory := memory.write (back + 1) 0
  some (string, memory)

/-- `kieker_string_trim`. -/
def stringTrim (fuel : ℕ) (string : ℤ) (memory : Memory) : Option (ℤ × Memory) := do
  let (string, memory) ← stringLtrim fuel string memory
  stringRtrim fuel string memory

end Memory

end Kieker
