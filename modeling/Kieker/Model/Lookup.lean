import Kieker.Library.ByteOrder
import Kieker.Model.State

/-!
# Serialising numbers and looking up strings

The number serialisers of `kieker_serialize.c`, the two send functions of
`kieker_controller.c`, and the string table of `kieker_lookup.c`. Every
serialiser returns the size of what it wrote next to the buffer it wrote to.
-/

namespace Kieker

/-! ### Numbers -/

/-- `htonl` on a little-endian host, applied to a `long`. -/
def htonl (value : ℤ) : ℕ :=
  ByteOrder.swapBytes 4 (toUInt32 value)

/-- `bswap_64`, applied to a `long long`. -/
def bswap64 (value : ℤ) : ℕ :=
  ByteOrder.swapBytes 8 (toUInt64 value)

/-- `kieker_serialize_boolean`. -/
def serializeBoolean (buffer : Block) (offset : ℕ) (value : UInt8) : Option (ℕ × Block) := do
  let buffer ← buffer.store offset [value]
  some (1, buffer)

/-- `kieker_serialize_int32`. -/
def serializeInt32 (buffer : Block) (offset : ℕ) (value : ℤ) : Option (ℕ × Block) := do
  let buffer ← buffer.store offset (ByteOrder.littleEndian 4 (htonl value))
  some (4, buffer)

/-- `kieker_serialize_int64`. -/
def serializeInt64 (buffer : Block) (offset : ℕ) (value : ℤ) : Option (ℕ × Block) := do
  let buffer ← buffer.store offset (ByteOrder.littleEndian 8 (bswap64 value))
  some (8, buffer)

/-! ### Sending -/

/-- `strncpy(block + offset, string, length)`, where a negative length counts as a huge one. -/
def strncpy (block : Block) (offset : ℕ) (string : CString) (length : ℤ) : Option Block :=
  if length < 0 then none
  else
    block.store offset (string.bytes.take length.toNat ++
      List.replicate (length.toNat - string.length) 0)

/-- `kieker_controller_send_string`. -/
def controllerSendString (kernel : Kernel) (string : CString) (id : ℤ) (channel : Channel) :
    Option Channel := do
  let length := toInt32 string.length
  let block ← channel.controller.stringBuffer
  let (_, block) ← serializeInt32 block 0 (-1)
  let (_, block) ← serializeInt32 block 4 id
  let (_, block) ← serializeInt32 block 8 length
  let block ← strncpy block (4 + 4 + 4) string length
  let bytes ← block.load 0 (length + 4 + 4 + 4).toNat
  let channel := channel.setStringBuffer block
  let (result, channel) := channel.write kernel channel.controller.socket bytes
  if result = -1 then
    some { channel with
      controller := { channel.controller with error := channel.errno kernel, initState := .failed } }
  else some channel

/-- `kieker_controller_send`. -/
def controllerSend (kernel : Kernel) (length : ℕ) (channel : Channel) : Option Channel := do
  let block ← channel.controller.buffer
  let bytes ← block.load 0 length
  let (result, channel) := channel.write kernel channel.controller.socket bytes
  if result = -1 then
    some { channel with controller := { channel.controller with error := channel.errno kernel } }
  else some channel

/-! ### The string table -/

/-- `KIEKER_LOOKUP_TABLE_INC`. -/
def lookupTableInc : ℕ := 1024

/-- Makes room for one more string; `realloc` keeps the strings there are. -/
def LookupTable.grow (table : LookupTable) : LookupTable :=
  if table.tableTop = table.tableMax then { table with tableMax := table.tableMax + lookupTableInc }
  else table

/-- `strcpy(malloc(length + 1), string)` for the length of the string as an `int`. -/
def copyString (string : CString) : Option CString :=
  if string.length + 1 < 2 ^ 31 then some string else none

/-- `kieker_lookup_string_list_add_value`. -/
def lookupStringListAddValue (kernel : Kernel) (string : CString) (channel : Channel) :
    Option Channel := do
  let channel := { channel with lookup := channel.lookup.grow }
  let value ← copyString string
  let channel ← controllerSendString kernel value (toInt32 channel.lookup.tableTop) channel
  let lookup ← channel.lookup.write channel.lookup.tableTop value
  some { channel with lookup := { lookup with tableTop := lookup.tableTop + 1 } }

/-- The loop of `kieker_lookup_find_key_by_string`, with `remaining` strings still to compare. -/
def lookupScan (table : LookupTable) (string : CString) (index : ℕ) : ℕ → Option (Option ℕ)
  | 0 => some none
  | remaining + 1 => do
      let entry ← table.read index
      if entry = string then some (some index) else lookupScan table string (index + 1) remaining

/-- `kieker_lookup_find_key_by_string`. -/
def lookupFindKeyByString (kernel : Kernel) (string : CString) (channel : Channel) :
    Option (ℕ × Channel) := do
  match ← lookupScan channel.lookup string 0 channel.lookup.tableTop with
  | some index => some (index, channel)
  | none =>
      let channel ← lookupStringListAddValue kernel string channel
      some (channel.lookup.tableTop - 1, channel)

end Kieker
