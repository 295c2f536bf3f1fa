import Kieker.Model.Lookup
import Mathlib.Data.List.Induction

/-!
# What the send functions do

One specification for each of the two send functions of the controller: when a
call is defined, which bytes it offers to the socket, and what it leaves alone.
The results of `write` stay with the kernel, so the same specifications serve
runs with complete, short and failing writes.
-/

namespace Kieker

/-! ### Numbers -/

theorem toInt32_of_bounds {value : ℤ} (lower : -2 ^ 31 ≤ value) (upper : value < 2 ^ 31) :
    toInt32 value = value := by
  rw [toInt32, Int.bmod_def]
  split <;> omega

theorem littleEndian_htonl (value : ℤ) :
    ByteOrder.littleEndian 4 (htonl value) = ByteOrder.bigEndian 4 (toUInt32 value) :=
  ByteOrder.littleEndian_swapBytes 4 (toUInt32 value)

theorem littleEndian_bswap64 (value : ℤ) :
    ByteOrder.littleEndian 8 (bswap64 value) = ByteOrder.bigEndian 8 (toUInt64 value) :=
  ByteOrder.littleEndian_swapBytes 8 (toUInt64 value)

/-- The bytes of a 32-bit number on the wire. -/
def int32Bytes (value : ℤ) : List UInt8 :=
  ByteOrder.bigEndian 4 (toUInt32 value)

/-- The bytes of a 64-bit number on the wire. -/
def int64Bytes (value : ℤ) : List UInt8 :=
  ByteOrder.bigEndian 8 (toUInt64 value)

@[simp]
theorem length_int32Bytes (value : ℤ) : (int32Bytes value).length = 4 := by
  simp [int32Bytes]

@[simp]
theorem length_int64Bytes (value : ℤ) : (int64Bytes value).length = 8 := by
  simp [int64Bytes]

theorem serializeInt32_eq (buffer : Block) (offset : ℕ) (value : ℤ) :
    serializeInt32 buffer offset value =
      (buffer.store offset (int32Bytes value)).map fun stored => (4, stored) := by
  rw [serializeInt32, littleEndian_htonl, int32Bytes]
  cases buffer.store offset (ByteOrder.bigEndian 4 (toUInt32 value)) <;> rfl

theorem serializeInt64_eq (buffer : Block) (offset : ℕ) (value : ℤ) :
    serializeInt64 buffer offset value =
      (buffer.store offset (int64Bytes value)).map fun stored => (8, stored) := by
  rw [serializeInt64, littleEndian_bswap64, int64Bytes]
  cases buffer.store offset (ByteOrder.bigEndian 8 (toUInt64 value)) <;> rfl

/-! ### Offers to the kernel -/

/-- The bytes that were taken on a descriptor. -/
def writtenTo (descriptor : ℤ) (calls : List Syscall) : List UInt8 :=
  calls.flatMap fun call =>
    match call with
    | .write target bytes result => if target = descriptor then bytes.take result.toNat else []
    | _ => []

@[simp]
theorem writtenTo_append (descriptor : ℤ) (front back : List Syscall) :
    writtenTo descriptor (front ++ back) =
      writtenTo descriptor front ++ writtenTo descriptor back := by
  simp [writtenTo]

/-- The bytes that were offered on a descriptor, taken or not. -/
def offeredTo (descriptor : ℤ) (calls : List Syscall) : List UInt8 :=
  calls.flatMap fun call =>
    match call with
    | .write target bytes _ => if target = descriptor then bytes else []
    | _ => []

@[simp]
theorem offeredTo_append (descriptor : ℤ) (front back : List Syscall) :
    offeredTo descriptor (front ++ back) =
      offeredTo descriptor front ++ offeredTo descriptor back := by
  simp [offeredTo]

namespace Kernel

variable (kernel : Kernel)

/-- The log after bytes were offered on a descriptor. -/
def offer (descriptor : ℤ) (log : List Syscall) (bytes : List UInt8) : List Syscall :=
  log ++ [.write descriptor bytes (kernel.write log.length descriptor bytes.length)]

/-- The log after some pieces were offered on a descriptor, in order. -/
def offerAll (descriptor : ℤ) (log : List Syscall) (pieces : List (List UInt8)) : List Syscall :=
  pieces.foldl (kernel.offer descriptor) log

/-- Some offer fails, when the first of them is system call number `index`. -/
def refuses (descriptor : ℤ) : ℕ → List (List UInt8) → Bool
  | _, [] => false
  | index, bytes :: pieces =>
      kernel.write index descriptor bytes.length == -1 || refuses descriptor (index + 1) pieces

@[simp]
theorem offerAll_nil (descriptor : ℤ) (log : List Syscall) :
    kernel.offerAll descriptor log [] = log := rfl

@[simp]
theorem offerAll_cons (descriptor : ℤ) (log : List Syscall) (bytes : List UInt8)
    (pieces : List (List UInt8)) :
    kernel.offerAll descriptor log (bytes :: pieces) =
      kernel.offerAll descriptor (kernel.offer descriptor log bytes) pieces := rfl

theorem offerAll_append (descriptor : ℤ) (log : List Syscall) (front back : List (List UInt8)) :
    kernel.offerAll descriptor log (front ++ back) =
      kernel.offerAll descriptor (kernel.offerAll descriptor log front) back := by
  simp [offerAll, List.foldl_append]

@[simp]
theorem length_offer (descriptor : ℤ) (log : List Syscall) (bytes : List UInt8) :
    (kernel.offer descriptor log bytes).length = log.length + 1 := by
  simp [offer]

@[simp]
theorem length_offerAll (descriptor : ℤ) (log : List Syscall) (pieces : List (List UInt8)) :
    (kernel.offerAll descriptor log pieces).length = log.length + pieces.length := by
  induction pieces generalizing log with
  | nil => simp
  | cons bytes pieces ih =>
      simp [ih]
      omega

/-- The calls that offer some pieces, when the first of them is system call number `index`. -/
def offers (descriptor : ℤ) (index : ℕ) (pieces : List (List UInt8)) : List Syscall :=
  pieces.zipIdx.map fun piece =>
    .write descriptor piece.1 (kernel.write (index + piece.2) descriptor piece.1.length)

/-- Offers only add calls to the log: one for each piece, in order. -/
theorem offerAll_eq_append (descriptor : ℤ) (log : List Syscall) (pieces : List (List UInt8)) :
    kernel.offerAll descriptor log pieces =
      log ++ kernel.offers descriptor log.length pieces := by
  induction pieces using List.reverseRecOn with
  | nil => simp [offers]
  | append_singleton pieces bytes ih =>
      rw [offerAll_append, ih]
      simp [offers, offerAll, offer, List.zipIdx_append]

theorem mem_offers {kernel : Kernel} {descriptor : ℤ} {index : ℕ} {pieces : List (List UInt8)}
    {call : Syscall} :
    call ∈ kernel.offers descriptor index pieces ↔ ∃ piece ∈ pieces.zipIdx,
      call = .write descriptor piece.1
        (kernel.write (index + piece.2) descriptor piece.1.length) := by
  simp only [offers, List.mem_map, eq_comm]

theorem offeredTo_offers (kernel : Kernel) (descriptor : ℤ) (index : ℕ)
    (pieces : List (List UInt8)) :
    offeredTo descriptor (kernel.offers descriptor index pieces) = pieces.flatten := by
  induction pieces using List.reverseRecOn with
  | nil => rfl
  | append_singleton pieces bytes ih =>
      have last : kernel.offers descriptor index (pieces ++ [bytes]) =
          kernel.offers descriptor index pieces ++ [.write descriptor bytes
            (kernel.write (index + pieces.length) descriptor bytes.length)] := by
        simp [offers, List.zipIdx_append]
      rw [last, offeredTo_append, ih]
      simp [offeredTo]

theorem refuses_append (descriptor : ℤ) (index : ℕ) (front back : List (List UInt8)) :
    kernel.refuses descriptor index (front ++ back) =
      (kernel.refuses descriptor index front ||
        kernel.refuses descriptor (index + front.length) back) := by
  induction front generalizing index with
  | nil => simp [refuses]
  | cons bytes front ih =>
      have next : index + 1 + front.length = index + (front.length + 1) := by omega
      simp [refuses, ih, next, Bool.or_assoc]

theorem refuses_iff {descriptor : ℤ} {index : ℕ} {pieces : List (List UInt8)} :
    kernel.refuses descriptor index pieces = true ↔
      ∃ piece ∈ pieces.zipIdx, kernel.write (index + piece.2) descriptor piece.1.length = -1 := by
  induction pieces generalizing index with
  | nil => simp [refuses]
  | cons bytes pieces ih =>
      have shifted : pieces.zipIdx 1 = pieces.zipIdx.map fun piece => (piece.1, piece.2 + 1) :=
        List.zipIdx_succ
      simp [refuses, ih, List.zipIdx_cons, shifted, Nat.add_assoc, Nat.add_comm 1]

/-- Every write on a descriptor accepts all of its bytes. -/
def CompleteOn (descriptor : ℤ) : Prop :=
  ∀ index count, kernel.write index descriptor count = count

theorem offerAll_of_complete {kernel : Kernel} {descriptor : ℤ}
    (complete : kernel.CompleteOn descriptor) (log : List Syscall) (pieces : List (List UInt8)) :
    kernel.offerAll descriptor log pieces =
      log ++ pieces.map fun bytes => .write descriptor bytes bytes.length := by
  induction pieces generalizing log with
  | nil => simp
  | cons bytes pieces ih => simp [ih, offer, complete log.length bytes.length]

theorem writtenTo_complete (descriptor : ℤ) (pieces : List (List UInt8)) :
    writtenTo descriptor (pieces.map fun bytes => .write descriptor bytes bytes.length) =
      pieces.flatten := by
  induction pieces with
  | nil => rfl
  | cons bytes pieces ih =>
      rw [List.map_cons, ← List.singleton_append, writtenTo_append, ih]
      simp [writtenTo]

theorem refuses_of_complete {kernel : Kernel} {descriptor : ℤ}
    (complete : kernel.CompleteOn descriptor) (index : ℕ) (pieces : List (List UInt8)) :
    kernel.refuses descriptor index pieces = false := by
  induction pieces generalizing index with
  | nil => rfl
  | cons bytes pieces ih =>
      have accepted : (bytes.length : ℤ) ≠ -1 := by omega
      simp [refuses, ih, complete index bytes.length, accepted]

/-- A kernel that accepts everything on every descriptor, with a clock that does not move. -/
def accepting : Kernel where
  write _ descriptor count := if descriptor < 0 then -1 else count
  neg_one_le_write := by
    intro index descriptor count
    split <;> omega
  write_le := by
    intro index descriptor count
    split <;> omega
  write_of_neg := by
    intro index descriptor count negative
    exact if_pos negative
  gettimeofday _ := (0, 0)
  errno _ := 0
  malloc _ _ := 0
  rand _ := 0
  rand_nonneg _ := le_refl 0

theorem completeOn_accepting {descriptor : ℤ} (nonneg : 0 ≤ descriptor) :
    accepting.CompleteOn descriptor := by
  intro index count
  exact if_neg (by omega)

end Kernel

/-! ### `kieker_controller_send_string` -/

/-- The registry entry that announces a string under an id. -/
def registryBytes (id : ℤ) (string : List UInt8) : List UInt8 :=
  int32Bytes (-1) ++ int32Bytes id ++ int32Bytes string.length ++ string

@[simp]
theorem length_registryBytes (id : ℤ) (string : List UInt8) :
    (registryBytes id string).length = 12 + string.length := by
  simp [registryBytes]
  omega

namespace Channel

/-- Offers bytes on the socket, and gives up the controller if that fails. -/
def announce (kernel : Kernel) (channel : Channel) (bytes : List UInt8) : Channel :=
  let (result, channel) := channel.write kernel channel.controller.socket bytes
  if result = -1 then
    { channel with
      controller := { channel.controller with error := channel.errno kernel, initState := .failed } }
  else channel

/-- Offers bytes on the socket, and only notes the error if that fails. -/
def transmit (kernel : Kernel) (channel : Channel) (bytes : List UInt8) : Channel :=
  let (result, channel) := channel.write kernel channel.controller.socket bytes
  if result = -1 then
    { channel with controller := { channel.controller with error := channel.errno kernel } }
  else channel

variable (kernel : Kernel) (channel : Channel) (bytes : List UInt8)

@[simp]
theorem world_announce : (channel.announce kernel bytes).world =
    { channel.world with
      log := kernel.offer channel.controller.socket channel.world.log bytes } := by
  by_cases refused : kernel.write channel.world.log.length channel.controller.socket
    bytes.length = -1 <;> simp [announce, write, Kernel.offer, refused]

theorem announce_lookup (lookup : LookupTable) :
    { channel with lookup := lookup }.announce kernel bytes =
      { channel.announce kernel bytes with lookup := lookup } := by
  by_cases refused : kernel.write channel.world.log.length channel.controller.socket
    bytes.length = -1 <;> simp [announce, write, errno, refused]

theorem controller_announce : (channel.announce kernel bytes).controller =
    { channel.controller with
      error := (channel.announce kernel bytes).controller.error
      initState :=
        if kernel.refuses channel.controller.socket channel.world.log.length [bytes] then .failed
        else channel.controller.initState } := by
  by_cases refused : kernel.write channel.world.log.length channel.controller.socket
    bytes.length = -1 <;> simp [announce, write, Kernel.refuses, refused]

@[simp]
theorem lookup_transmit : (channel.transmit kernel bytes).lookup = channel.lookup := by
  by_cases refused : kernel.write channel.world.log.length channel.controller.socket
    bytes.length = -1 <;> simp [transmit, write, refused]

@[simp]
theorem world_transmit : (channel.transmit kernel bytes).world =
    { channel.world with
      log := kernel.offer channel.controller.socket channel.world.log bytes } := by
  by_cases refused : kernel.write channel.world.log.length channel.controller.socket
    bytes.length = -1 <;> simp [transmit, write, Kernel.offer, refused]

theorem controller_transmit : (channel.transmit kernel bytes).controller =
    { channel.controller with error := (channel.transmit kernel bytes).controller.error } := by
  by_cases refused : kernel.write channel.world.log.length channel.controller.socket
    bytes.length = -1 <;> simp [transmit, write, refused]

end Channel

/-- The header and the payload of a registry entry are put together in the string buffer. -/
private theorem bytesFrom_registry {block first second third fourth : Block} {id : ℤ}
    {string : CString} (one : block.store 0 (int32Bytes (-1)) = some first)
    (two : first.store 4 (int32Bytes id) = some second)
    (three : second.store 8 (int32Bytes string.length) = some third)
    (four : third.store 12 string.bytes = some fourth) :
    fourth.bytesFrom 0 (12 + string.length) = registryBytes id string.bytes := by
  have afterOne : first.bytesFrom 0 4 = int32Bytes (-1) := by
    simpa using Block.bytesFrom_store one
  have afterTwo : second.bytesFrom 0 (4 + 4) = first.bytesFrom 0 4 ++ int32Bytes id := by
    simpa using Block.bytesFrom_store_append 0 4 two
  have afterThree : third.bytesFrom 0 (8 + 4) =
      second.bytesFrom 0 8 ++ int32Bytes string.length := by
    simpa using Block.bytesFrom_store_append 0 8 three
  have afterFour : fourth.bytesFrom 0 (12 + string.length) =
      third.bytesFrom 0 12 ++ string.bytes :=
    Block.bytesFrom_store_append 0 12 four
  rw [afterFour, afterThree, afterTwo, afterOne]
  simp [registryBytes, CString.length]

/-- A string that fits into the string buffer is announced on the socket under its id. -/
theorem controllerSendString_of_fits (kernel : Kernel) (string : CString) (id : ℤ)
    {channel : Channel} {block : Block} (ready : channel.controller.stringBuffer = some block)
    (short : string.length < 2 ^ 31) (fits : 12 + string.length ≤ block.size) :
    ∃ stored, stored.size = block.size ∧
      controllerSendString kernel string id channel =
        some ((channel.setStringBuffer stored).announce kernel (registryBytes id string.bytes)) := by
  have exactLength : toInt32 string.length = string.length :=
    toInt32_of_bounds (by omega) (by omega)
  obtain ⟨first, one⟩ := Block.store_isSome block 0 (int32Bytes (-1)) (by simp; omega)
  have firstSize := (Block.store_eq_some one).2
  obtain ⟨second, two⟩ := Block.store_isSome first 4 (int32Bytes id) (by simp; omega)
  have secondSize := (Block.store_eq_some two).2
  obtain ⟨third, three⟩ := Block.store_isSome second 8 (int32Bytes string.length)
    (by simp; omega)
  have thirdSize := (Block.store_eq_some three).2
  obtain ⟨fourth, four⟩ := Block.store_isSome third 12 string.bytes
    (by unfold CString.length at fits; omega)
  have fourthSize := (Block.store_eq_some four).2
  have copied : strncpy third (4 + 4 + 4) string (string.length : ℤ) = some fourth := by
    simpa [strncpy, CString.length] using four
  have loaded : fourth.load 0 ((string.length : ℤ) + 4 + 4 + 4).toNat =
      some (registryBytes id string.bytes) := by
    have count : ((string.length : ℤ) + 4 + 4 + 4).toNat = 12 + string.length := by omega
    rw [count, Block.load_of_le (by omega), bytesFrom_registry one two three four]
  refine ⟨fourth, by omega, ?_⟩
  simp only [controllerSendString, ready, exactLength, serializeInt32_eq, one, two, three, copied,
    loaded, Channel.announce, Option.map_some, Option.bind_eq_bind, Option.bind_some]
  split <;> rfl

theorem controllerSendString_of_not_fits (kernel : Kernel) (string : CString) (id : ℤ)
    {channel : Channel} {block : Block} (ready : channel.controller.stringBuffer = some block)
    (short : string.length < 2 ^ 31) (tooLong : block.size < 12 + string.length) :
    controllerSendString kernel string id channel = none := by
  have exactLength : toInt32 string.length = string.length :=
    toInt32_of_bounds (by omega) (by omega)
  rw [Option.eq_none_iff_forall_ne_some]
  intro sent done
  simp only [controllerSendString, ready, exactLength, serializeInt32_eq, Option.bind_eq_bind,
    Option.bind_some, Option.bind_eq_some_iff, Option.map_eq_some_iff] at done
  rcases done with ⟨_, ⟨first, one, rfl⟩, _, ⟨second, two, rfl⟩, _, ⟨third, three, rfl⟩, fourth,
    copied, -⟩
  have four : third.store 12 string.bytes = some fourth := by
    simpa [strncpy, CString.length] using copied
  have firstSize : first.size = block.size := (Block.store_eq_some one).2
  have secondSize : second.size = first.size := (Block.store_eq_some two).2
  have thirdSize : third.size = second.size := (Block.store_eq_some three).2
  have bound := (Block.store_eq_some four).1
  unfold CString.length at tooLong
  omega

theorem controllerSend_of_fits {kernel : Kernel} {length : ℕ} {channel : Channel} {block : Block}
    (ready : channel.controller.buffer = some block) (fits : length ≤ block.size) :
    controllerSend kernel length channel =
      some (channel.transmit kernel (block.bytesFrom 0 length)) := by
  simp only [controllerSend, ready, Block.load_of_le (show 0 + length ≤ block.size by omega),
    Channel.transmit, Option.bind_eq_bind, Option.bind_some]
  split <;> rfl

/-- A send that has a result offers the front of the buffer. -/
theorem controllerSend_eq_some {kernel : Kernel} {length : ℕ} {channel after : Channel}
    (done : controllerSend kernel length channel = some after) :
    ∃ block, channel.controller.buffer = some block ∧ length ≤ block.size ∧
      after = channel.transmit kernel (block.bytesFrom 0 length) := by
  cases buffer : channel.controller.buffer with
  | none => simp [controllerSend, buffer] at done
  | some block =>
      by_cases fits : length ≤ block.size
      · rw [controllerSend_of_fits buffer fits, Option.some.injEq] at done
        exact ⟨block, rfl, fits, done.symm⟩
      · have refused : block.load 0 length = none := if_neg (by omega)
        simp [controllerSend, buffer, refused] at done

end Kieker
