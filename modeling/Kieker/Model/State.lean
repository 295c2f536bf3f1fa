import Kieker.Library.Block
import Mathlib.Data.Int.Basic
import Mathlib.Data.Int.ModEq
import Mathlib.Data.List.TakeWhile

/-!
# The state of the library

The global variables of the monitoring library, the operating system behind it,
and the record of what passed between them. Pointers to global buffers are
optional blocks, with `none` for `NULL`; a function of the source that may run
into undefined behaviour (a store outside a buffer, a null or dangling pointer)
returns an option and has no value there.

The messages that the source prints to its standard streams are left out, as are
the calls that have no effect on the state: `fsync`, `setsockopt`, and the lock
around the trace map, which every operation below takes and releases in one step.
-/

namespace Kieker

/-- The bytes of a zero-terminated string, without the terminator. -/
structure CString where
  /-- The bytes in front of the terminator. -/
  bytes : List UInt8
  /-- The terminator is the first zero byte. -/
  nulFree : (0 : UInt8) ∉ bytes
  deriving DecidableEq

namespace CString

/-- A string literal of the source, up to its terminator. -/
def literal (text : String) : CString where
  bytes := (text.toList.map fun character => UInt8.ofNat character.toNat).takeWhile (· != 0)
  nulFree := fun zero_mem => absurd (List.mem_takeWhile_imp zero_mem) (by decide)

/-- `strlen`. -/
def length (string : CString) : ℕ := string.bytes.length

end CString

/-- The value of an `int` after a conversion from a wider type. -/
@[irreducible]
def toInt32 (value : ℤ) : ℤ := value.bmod (2 ^ 32)

/-- The value of a 32-bit unsigned integer after a conversion. -/
def toUInt32 (value : ℤ) : ℕ := (value % 2 ^ 32).toNat

/-- The value of a 64-bit unsigned integer after a conversion. -/
def toUInt64 (value : ℤ) : ℕ := (value % 2 ^ 64).toNat

/-- The value of an `unsigned short` after a conversion. -/
def toUShort (value : ℤ) : ℤ := value % 2 ^ 16

/-- `isspace` in the C locale. -/
def isspace (byte : UInt8) : Bool :=
  byte == 32 || (9 ≤ byte && byte ≤ 13)

/-! ### The operating system -/

/--
What the operating system answers. Each answer may depend on how many calls of
its kind came before, so a kernel stands for one behaviour of the system over a
whole run; a property of all kernels holds whatever the system does.
-/
structure Kernel where
  /-- What `write` returns, by the number of system calls before it, the descriptor and the count. -/
  write : ℕ → ℤ → ℕ → ℤ
  /-- The only negative result is the error code. -/
  neg_one_le_write : ∀ index descriptor count, -1 ≤ write index descriptor count
  /-- No more is accepted than was offered. -/
  write_le : ∀ index descriptor count, write index descriptor count ≤ count
  /-- A negative number is no descriptor. -/
  write_of_neg : ∀ index descriptor count, descriptor < 0 → write index descriptor count = -1
  /-- The seconds and microseconds that the successive calls of `gettimeofday` store. -/
  gettimeofday : ℕ → ℤ × ℤ
  /-- `errno` after a failed call, by the number of system calls before it. -/
  errno : ℕ → ℤ
  /-- What the successive trace buffers returned by `malloc` contain. -/
  malloc : ℕ → ℕ → UInt8
  /-- The first number `rand` returns, by the seed given to `srand`. -/
  rand : ℤ → ℤ
  /-- `rand` returns no negative number. -/
  rand_nonneg : ∀ seed, 0 ≤ rand seed

/-- A call that passed between the process and the operating system. -/
inductive Syscall where
  /-- The library obtained a descriptor from `socket`. -/
  | socket (descriptor : ℤ)
  /-- The library connected a descriptor. -/
  | connect (descriptor : ℤ)
  /-- The library offered bytes to `write`, which returned `result`. -/
  | write (descriptor : ℤ) (bytes : List UInt8) (result : ℤ)
  /-- The library called `close`. -/
  | close (descriptor : ℤ)
  /-- The application obtained a descriptor of its own. -/
  | applicationOpen (descriptor : ℤ)
  /-- The application closed a descriptor of its own. -/
  | applicationClose (descriptor : ℤ)
  deriving DecidableEq

/-- The bytes that the receiving side got out of a call. -/
def Syscall.accepted : Syscall → List UInt8
  | .write _ bytes result => bytes.take result.toNat
  | _ => []

/-- What the outside has seen of the process. -/
structure World where
  /-- The calls made so far, in order. -/
  log : List Syscall
  /-- How often the clock was read. -/
  clockReads : ℕ

/-! ### Global variables -/

/-- `enum kieker_init_states`. -/
inductive InitState where
  | unconfigured
  | configured
  | failed
  deriving DecidableEq

/-- `kieker_controller_state_t`. -/
structure Controller where
  socket : ℤ
  offset : ℤ
  error : ℤ
  initState : InitState
  buffer : Option Block
  stringBuffer : Option Block
  localHostname : Option CString
  remoteHostname : Option CString
  remotePort : ℤ
  eventTypesFilename : Option CString

/-- The variables of `kieker_lookup.c`: an array of strings, its size, and its used part. -/
structure LookupTable where
  stringList : ℕ → Option CString
  tableMax : ℕ
  tableTop : ℕ

/--
What the serialisers and the send functions work on: the controller, the string
table and the outside.
-/
structure Channel where
  controller : Controller
  lookup : LookupTable
  world : World

/-- The initial value of `kieker_controller`. -/
def Controller.initial : Controller where
  socket := 0
  offset := 0
  error := 0
  initState := .unconfigured
  buffer := none
  stringBuffer := none
  localHostname := none
  remoteHostname := none
  remotePort := 0
  eventTypesFilename := none

/-- The initial values of the variables of `kieker_lookup.c`. -/
def LookupTable.initial : LookupTable where
  stringList := fun _ => none
  tableMax := 0
  tableTop := 0

namespace LookupTable

/-- Reads an element of `kieker_lookup_string_list`, inside the allocated array only. -/
def read (table : LookupTable) (index : ℕ) : Option CString :=
  if index < table.tableMax then table.stringList index else none

/-- Writes an element of `kieker_lookup_string_list`, inside the allocated array only. -/
def write (table : LookupTable) (index : ℕ) (string : CString) : Option LookupTable :=
  if index < table.tableMax then
    some { table with stringList := Function.update table.stringList index (some string) }
  else none

end LookupTable

namespace Channel

/-- The library's variables before anything ran, with the outside as it is. -/
def initial (world : World) : Channel where
  controller := Controller.initial
  lookup := LookupTable.initial
  world := world

/-- `write`: offers bytes on a descriptor and returns how many were taken. -/
def write (kernel : Kernel) (channel : Channel) (descriptor : ℤ) (bytes : List UInt8) : ℤ × Channel :=
  let result := kernel.write channel.world.log.length descriptor bytes.length
  (result, { channel with
    world := { channel.world with log := channel.world.log ++ [.write descriptor bytes result] } })

/-- `errno` after the last call. -/
def errno (kernel : Kernel) (channel : Channel) : ℤ :=
  kernel.errno channel.world.log.length

/-- Puts back the contents of `kieker_controller.buffer`. -/
def setBuffer (channel : Channel) (block : Block) : Channel :=
  { channel with controller := { channel.controller with buffer := some block } }

/-- Puts back the contents of `kieker_controller.string_buffer`. -/
def setStringBuffer (channel : Channel) (block : Block) : Channel :=
  { channel with controller := { channel.controller with stringBuffer := some block } }

end Channel

end Kieker
