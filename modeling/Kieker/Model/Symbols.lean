import Kieker.Library.Hexadecimal
import Kieker.Model.Probes

/-!
# Operation names of compiled functions

`kieker_controller_get_operation_fqn` and `kieker_probe_gcc_profiling.c`: a
function that the compiler instruments is named after its address in the object
file it comes from. What the dynamic linker knows is a list of loaded objects.
-/

namespace Kieker

/-- An executable or a shared library, where it was loaded. -/
structure LoadedObject where
  /-- The addresses that it takes up. -/
  first : ℕ
  size : ℕ
  /-- `l_addr` of its `struct link_map`. -/
  lAddr : BitVec 64
  deriving DecidableEq

/-- An address lies in the object. -/
def LoadedObject.Contains (object : LoadedObject) (address : BitVec 64) : Prop :=
  object.first ≤ address.toNat ∧ address.toNat < object.first + object.size

instance (object : LoadedObject) (address : BitVec 64) : Decidable (object.Contains address) :=
  inferInstanceAs (Decidable (_ ∧ _))

/-- One object ends before the other one begins. -/
def LoadedObject.Apart (object other : LoadedObject) : Prop :=
  object.first + object.size ≤ other.first ∨ other.first + other.size ≤ object.first

instance : Std.Symm LoadedObject.Apart where
  symm _ _ := Or.symm

/-- The loaded objects of a process. -/
structure ProcessImage where
  objects : List LoadedObject
  /-- No address lies in two objects. -/
  disjoint : objects.Pairwise LoadedObject.Apart

/-- `dladdr1` with `RTLD_DL_LINKMAP`: the object that contains an address. -/
def ProcessImage.dladdr1 (image : ProcessImage) (address : BitVec 64) : Option LoadedObject :=
  image.objects.find? fun object => object.Contains address

/-- `kieker_controller_convert_to__vma`. -/
def controllerConvertToVma (image : ProcessImage) (address : BitVec 64) :
    Option (BitVec 64) := do
  let linkMap ← image.dladdr1 address
  some (address - linkMap.lAddr)

theorem zero_notMem_pointer (value : BitVec 64) :
    (0 : UInt8) ∉ [48, 120] ++ Hexadecimal.hexDigits value.toNat := by
  simp [Hexadecimal.zero_notMem_hexDigits]

/--
What `%p` prints: `0x` and hexadecimal digits. This is also taken for the address 0,
for which the glibc prints `(nil)`.
-/
def printPointer (value : BitVec 64) : CString where
  bytes := [48, 120] ++ Hexadecimal.hexDigits value.toNat
  nulFree := zero_notMem_pointer value

/-- The size of `kieker_controllor_get_operation_fqn_result`. -/
def fqnResultSize : ℕ := 2 + 16 + 1

theorem zero_notMem_takeWhile (bytes : List UInt8) :
    (0 : UInt8) ∉ bytes.takeWhile (· != 0) :=
  fun zero_mem => absurd (List.mem_takeWhile_imp zero_mem) (by decide)

/-- What a reader of a block sees as a string; without a terminator it would leave the block. -/
def readString (block : Block) : Option CString :=
  if (0 : UInt8) ∈ block.bytesFrom 0 block.size then
    some ⟨(block.bytesFrom 0 block.size).takeWhile (· != 0), zero_notMem_takeWhile _⟩
  else none

/--
`kieker_controller_get_operation_fqn`: the string that can be read in the result
buffer, and the buffer. The source returns a pointer to the buffer; whoever calls it
sees this string until the next call overwrites it.
-/
def controllerGetOperationFqn (image : ProcessImage) (functionPtr : BitVec 64) (result : Block) :
    Option (CString × Block) := do
  let vma ← controllerConvertToVma image functionPtr
  let result ← result.store 0 ((printPointer vma).bytes ++ [0])
  let name ← readString result
  some (name, result)

/-- `__cyg_profile_func_enter`: the result buffer, and what it does. -/
def cygProfileFuncEnter (kernel : Kernel) (self : PthreadSelf) (image : ProcessImage)
    (thisFn : BitVec 64) (result : Block) (library : Library) : Option (Block × Library) := do
  let (operationSignature, result) ← controllerGetOperationFqn image thisFn result
  let library ← probeBeforeOperationEvent kernel self (.literal "<package structure>")
    operationSignature library
  some (result, library)

/-- `__cyg_profile_func_exit`: the result buffer, and what it does. -/
def cygProfileFuncExit (kernel : Kernel) (self : PthreadSelf) (image : ProcessImage)
    (thisFn : BitVec 64) (result : Block) (library : Library) : Option (Block × Library) := do
  let (operationSignature, result) ← controllerGetOperationFqn image thisFn result
  let library ← probeAfterOperationEvent kernel self (.literal "<package structure>")
    operationSignature library
  some (result, library)

end Kieker
