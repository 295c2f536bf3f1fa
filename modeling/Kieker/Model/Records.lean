import Kieker.Model.Lookup

/-!
# Records

The records under `common/record` that the probes use, and their serialisers. A
serialiser of the source is a sequence of `position += kieker_serialize_...`
lines, one for each member; here it is `serializeFields` applied to the list of
those members.
-/

namespace Kieker

/-- A member of a record as the serialisers see it: a type and a value. -/
inductive Field where
  | boolean (value : UInt8)
  | int32 (value : ℤ)
  | int64 (value : ℤ)
  | string (value : CString)
  deriving DecidableEq

/-- `kieker_serialize_string`. -/
def serializeString (kernel : Kernel) (buffer : Block) (offset : ℕ) (string : CString)
    (channel : Channel) : Option (ℕ × Block × Channel) := do
  let (key, channel) ← lookupFindKeyByString kernel string channel
  let buffer ← buffer.store offset (ByteOrder.littleEndian 4 (htonl key))
  some (4, buffer, channel)

/-- The serialiser for a member, by its type. -/
def serializeField (kernel : Kernel) (buffer : Block) (offset : ℕ) (field : Field)
    (channel : Channel) : Option (ℕ × Block × Channel) :=
  match field with
  | .boolean value => do
      let (size, buffer) ← serializeBoolean buffer offset value
      some (size, buffer, channel)
  | .int32 value => do
      let (size, buffer) ← serializeInt32 buffer offset value
      some (size, buffer, channel)
  | .int64 value => do
      let (size, buffer) ← serializeInt64 buffer offset value
      some (size, buffer, channel)
  | .string value => serializeString kernel buffer offset value channel

/-- Serialises members one after another and returns the position behind the last one. -/
def serializeFields (kernel : Kernel) : List Field → Block → ℕ → Channel →
    Option (ℕ × Block × Channel)
  | [], buffer, position, channel => some (position, buffer, channel)
  | field :: fields, buffer, position, channel => do
      let (size, buffer, channel) ← serializeField kernel buffer position field channel
      serializeFields kernel fields buffer (position + size) channel

/-! ### `TraceMetadata` -/

/-- `kieker_common_record_flow_trace_trace_metadata`. -/
structure TraceMetadata where
  traceId : ℤ
  threadId : ℤ
  sessionId : CString
  hostname : CString
  parentTraceId : ℤ
  parentOrderId : ℤ
  nextOrderId : ℤ
  deriving DecidableEq

/-- The members of a `TraceMetadata` that are serialised, in order. -/
def TraceMetadata.fields (value : TraceMetadata) : List Field :=
  [.int64 value.traceId, .int64 value.threadId, .string value.sessionId, .string value.hostname,
    .int64 value.parentTraceId, .int32 value.parentOrderId]

/-- `kieker_common_record_flow_trace_trace_metadata_serialize`. -/
def traceMetadataSerialize (kernel : Kernel) (buffer : Block) (offset : ℕ) (value : TraceMetadata)
    (channel : Channel) : Option (ℕ × Block × Channel) :=
  serializeFields kernel value.fields buffer offset channel

/-! ### `BeforeOperationEvent` and `AfterOperationEvent` -/

/--
`kieker_common_record_flow_trace_operation_before_operation_event` and
`kieker_common_record_flow_trace_operation_after_operation_event`, which have the
same members.
-/
structure OperationEvent where
  timestamp : ℤ
  traceId : ℤ
  orderIndex : ℤ
  operationSignature : CString
  classSignature : CString
  deriving DecidableEq

/-- The members of an operation event that are serialised, in order. -/
def OperationEvent.fields (value : OperationEvent) : List Field :=
  [.int64 value.timestamp, .int64 value.traceId, .int32 value.orderIndex,
    .string value.operationSignature, .string value.classSignature]

/-- `kieker_common_record_flow_trace_operation_before_operation_event_serialize`. -/
def beforeOperationEventSerialize (kernel : Kernel) (buffer : Block) (offset : ℕ)
    (value : OperationEvent) (channel : Channel) : Option (ℕ × Block × Channel) :=
  serializeFields kernel value.fields buffer offset channel

/-- `kieker_common_record_flow_trace_operation_after_operation_event_serialize`. -/
def afterOperationEventSerialize (kernel : Kernel) (buffer : Block) (offset : ℕ)
    (value : OperationEvent) (channel : Channel) : Option (ℕ × Block × Channel) :=
  serializeFields kernel value.fields buffer offset channel

/-! ### `OperationExecutionRecord` -/

/-- `kieker_common_record_controlflow_operation_execution_record`. -/
structure OperationExecutionRecord where
  operationSignature : CString
  sessionId : CString
  traceId : ℤ
  tin : ℤ
  tout : ℤ
  hostname : CString
  eoi : ℤ
  ess : ℤ
  deriving DecidableEq

/-- The members of an `OperationExecutionRecord` that are serialised, in order. -/
def OperationExecutionRecord.fields (value : OperationExecutionRecord) : List Field :=
  [.string value.operationSignature, .string value.sessionId, .int64 value.traceId,
    .int64 value.tin, .int64 value.tout, .string value.hostname, .int32 value.eoi,
    .int32 value.ess]

/-- `kieker_common_record_controlflow_operation_execution_record_serialize`. -/
def operationExecutionRecordSerialize (kernel : Kernel) (buffer : Block) (offset : ℕ)
    (value : OperationExecutionRecord) (channel : Channel) : Option (ℕ × Block × Channel) :=
  serializeFields kernel value.fields buffer offset channel

end Kieker
