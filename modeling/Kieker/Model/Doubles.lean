import Kieker.Model.Records
import Mathlib.Algebra.Order.Field.Rat

/-!
# Doubles and the records that contain them

`kieker_serialize_double` and the five records under `common/record/system` with
members of type `double`.
-/

namespace Kieker

/--
A finite double as the rational number it denotes, of a magnitude that a `long long`
can hold; the conversion of a larger one has no defined result.
-/
structure Double where
  value : ℚ
  /-- 53 bits and an exponent. -/
  representable : ∃ mantissa exponent : ℤ, |mantissa| < 2 ^ 53 ∧ -1074 ≤ exponent ∧
    exponent ≤ 971 ∧ value = mantissa * 2 ^ exponent
  small : |value| < 2 ^ 63

/--
The conversion of a double to an integer, which truncates toward zero. The parameter of
`bswap_64` is a `uint64_t`; C does not define the conversion of a value of `-1` or less
to it, and it is assumed to truncate like the conversion to a `long long`.
-/
def Double.toLongLong (double : Double) : ℤ :=
  double.value.num.tdiv double.value.den

/-- `kieker_serialize_double`: the parameter of `bswap_64` is an integer. -/
def serializeDouble (buffer : Block) (offset : ℕ) (value : Double) : Option (ℕ × Block) := do
  let buffer ← buffer.store offset (ByteOrder.littleEndian 8 (bswap64 value.toLongLong))
  some (8, buffer)

/-- A member of a record that may be a double. -/
inductive Member where
  | field (field : Field)
  | double (value : Double)

/-- The serialiser for a member, by its type. -/
def serializeMember (kernel : Kernel) (buffer : Block) (offset : ℕ) (member : Member)
    (channel : Channel) : Option (ℕ × Block × Channel) :=
  match member with
  | .field field => serializeField kernel buffer offset field channel
  | .double value => do
      let (size, buffer) ← serializeDouble buffer offset value
      some (size, buffer, channel)

/-- Serialises members one after another and returns the position behind the last one. -/
def serializeMembers (kernel : Kernel) : List Member → Block → ℕ → Channel →
    Option (ℕ × Block × Channel)
  | [], buffer, position, channel => some (position, buffer, channel)
  | member :: members, buffer, position, channel => do
      let (size, buffer, channel) ← serializeMember kernel buffer position member channel
      serializeMembers kernel members buffer (position + size) channel

/-- A record under `common/record/system` with doubles. -/
inductive SystemRecord where
  | cPUUtilizationRecord (timestamp : ℤ) (hostname cpuID : CString)
      (user system wait nice irq totalUtilization idle : Double)
  | diskUsageRecord (timestamp : ℤ) (hostname deviceName : CString)
      (queue readBytesPerSecond readsPerSecond serviceTime writeBytesPerSecond
        writesPerSecond : Double)
  | loadAverageRecord (timestamp : ℤ) (hostname : CString)
      (oneMinLoadAverage fiveMinLoadAverage fifteenMinLoadAverage : Double)
  | networkUtilizationRecord (timestamp : ℤ) (hostname interfaceName : CString) (speed : ℤ)
      (txBytesPerSecond txCarrierPerSecond txCollisionsPerSecond txDroppedPerSecond
        txErrorsPerSecond txOverrunsPerSecond txPacketsPerSecond rxBytesPerSecond
        rxDroppedPerSecond rxErrorsPerSecond rxFramePerSecond rxOverrunsPerSecond
        rxPacketsPerSecond : Double)
  | resourceUtilizationRecord (timestamp : ℤ) (hostname resourceName : CString)
      (utilization : Double)

namespace SystemRecord

/-- The members of a record that are not doubles; all serialisers write them first. -/
def fields : SystemRecord → List Field
  | .cPUUtilizationRecord timestamp hostname cpuID .. =>
      [.int64 timestamp, .string hostname, .string cpuID]
  | .diskUsageRecord timestamp hostname deviceName .. =>
      [.int64 timestamp, .string hostname, .string deviceName]
  | .loadAverageRecord timestamp hostname .. => [.int64 timestamp, .string hostname]
  | .networkUtilizationRecord timestamp hostname interfaceName speed .. =>
      [.int64 timestamp, .string hostname, .string interfaceName, .int64 speed]
  | .resourceUtilizationRecord timestamp hostname resourceName _ =>
      [.int64 timestamp, .string hostname, .string resourceName]

/-- The members of a record that are doubles, in the order in which they are serialised. -/
def doubles : SystemRecord → List Double
  | .cPUUtilizationRecord _ _ _ user system wait nice irq totalUtilization idle =>
      [user, system, wait, nice, irq, totalUtilization, idle]
  | .diskUsageRecord _ _ _ queue readBytesPerSecond readsPerSecond serviceTime
      writeBytesPerSecond writesPerSecond =>
      [queue, readBytesPerSecond, readsPerSecond, serviceTime, writeBytesPerSecond,
        writesPerSecond]
  | .loadAverageRecord _ _ oneMinLoadAverage fiveMinLoadAverage fifteenMinLoadAverage =>
      [oneMinLoadAverage, fiveMinLoadAverage, fifteenMinLoadAverage]
  | .networkUtilizationRecord _ _ _ _ txBytesPerSecond txCarrierPerSecond txCollisionsPerSecond
      txDroppedPerSecond txErrorsPerSecond txOverrunsPerSecond txPacketsPerSecond
      rxBytesPerSecond rxDroppedPerSecond rxErrorsPerSecond rxFramePerSecond
      rxOverrunsPerSecond rxPacketsPerSecond =>
      [txBytesPerSecond, txCarrierPerSecond, txCollisionsPerSecond, txDroppedPerSecond,
        txErrorsPerSecond, txOverrunsPerSecond, txPacketsPerSecond, rxBytesPerSecond,
        rxDroppedPerSecond, rxErrorsPerSecond, rxFramePerSecond, rxOverrunsPerSecond,
        rxPacketsPerSecond]
  | .resourceUtilizationRecord _ _ _ utilization => [utilization]

/-- The members of a record that are serialised, in order. -/
def members (record : SystemRecord) : List Member :=
  record.fields.map .field ++ record.doubles.map .double

/-- `kieker_common_record_system_..._serialize`. -/
def serialize (kernel : Kernel) (buffer : Block) (offset : ℕ) (record : SystemRecord)
    (channel : Channel) : Option (ℕ × Block × Channel) :=
  serializeMembers kernel record.members buffer offset channel

end SystemRecord

end Kieker
