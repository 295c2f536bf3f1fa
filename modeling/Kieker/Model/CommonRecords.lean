import Kieker.Model.Records

/-!
# The records without doubles

Every record under `common/record` whose members are integers, booleans and
strings, with the members of its structure, and the members that its serialiser
writes. Two serialisers leave out a member of the structure, `nextOrderId`.
-/

namespace Kieker

/-- A record of one of the types under `common/record`, grouped by directory. -/
inductive CommonRecord where
  -- `controlflow`
  | branchingRecord (timestamp branchID branchingOutcome : ℤ)
  | operationExecutionRecord (value : OperationExecutionRecord)
  -- `database`
  | afterDatabaseEvent (timestamp : ℤ) (classSignature : CString) (traceId orderIndex : ℤ)
      (returnType returnValue : CString)
  | beforeDatabaseEvent (timestamp : ℤ) (classSignature : CString) (traceId orderIndex : ℤ)
      (parameters technology : CString)
  | databaseFailedEvent (timestamp : ℤ) (classSignature : CString) (traceId orderIndex : ℤ)
      (cause : CString)
  -- `flow/thread`
  | afterFailedThreadBasedEvent (timestamp threadId orderIndex : ℤ) (operationSignature
      classSignature cause : CString)
  | afterThreadBasedEvent (timestamp threadId orderIndex : ℤ) (operationSignature
      classSignature : CString)
  | beforeThreadBasedEvent (timestamp threadId orderIndex : ℤ) (operationSignature
      classSignature : CString)
  -- `flow/trace`
  | applicationTraceMetadata (traceId threadId : ℤ) (sessionId hostname : CString) (parentTraceId
      parentOrderId nextOrderId : ℤ) (applicationName : CString)
  | beforeReceivedRemoteEvent (timestamp callerTraceId callerOrderIndex traceId orderIndex : ℤ)
  | beforeSentRemoteEvent (timestamp traceId orderIndex : ℤ) (technology : CString)
  | constructionEvent (timestamp traceId orderIndex : ℤ) (classSignature : CString) (objectId : ℤ)
  | traceMetadata (value : TraceMetadata)
  -- `flow/trace/concurrency`
  | joinEvent (timestamp traceId orderIndex joinedTraceId : ℤ)
  | splitEvent (timestamp traceId orderIndex : ℤ)
  -- `flow/trace/concurrency/monitor`
  | monitorEntryEvent (timestamp traceId orderIndex lockId : ℤ)
  | monitorExitEvent (timestamp traceId orderIndex lockId : ℤ)
  | monitorNotifyAllEvent (timestamp traceId orderIndex lockId : ℤ)
  | monitorNotifyEvent (timestamp traceId orderIndex lockId : ℤ)
  | monitorRequestEvent (timestamp traceId orderIndex lockId : ℤ)
  | monitorWaitEvent (timestamp traceId orderIndex lockId : ℤ)
  -- `flow/trace/operation`
  | afterOperationEvent (value : OperationEvent)
  | afterOperationFailedEvent (timestamp traceId orderIndex : ℤ) (operationSignature classSignature
      cause : CString)
  | beforeOperationEvent (value : OperationEvent)
  | callOperationEvent (timestamp traceId orderIndex : ℤ) (operationSignature classSignature
      calleeOperationSignature calleeClassSignature : CString)
  -- `flow/trace/operation/constructor`
  | afterConstructorEvent (timestamp traceId orderIndex : ℤ) (operationSignature
      classSignature : CString)
  | afterConstructorFailedEvent (timestamp traceId orderIndex : ℤ) (operationSignature
      classSignature cause : CString)
  | beforeConstructorEvent (timestamp traceId orderIndex : ℤ) (operationSignature
      classSignature : CString)
  | callConstructorEvent (timestamp traceId orderIndex : ℤ) (operationSignature classSignature
      calleeOperationSignature calleeClassSignature : CString)
  -- `flow/trace/operation/constructor/object`
  | afterConstructorFailedObjectEvent (timestamp traceId orderIndex : ℤ) (operationSignature
      classSignature cause : CString) (objectId : ℤ)
  | afterConstructorObjectEvent (timestamp traceId orderIndex : ℤ) (operationSignature
      classSignature : CString) (objectId : ℤ)
  | beforeConstructorObjectEvent (timestamp traceId orderIndex : ℤ) (operationSignature
      classSignature : CString) (objectId : ℤ)
  | beforeConstructorObjectInterfaceEvent (timestamp traceId orderIndex : ℤ) (operationSignature
      classSignature : CString) (objectId : ℤ) (interface : CString)
  | callConstructorObjectEvent (timestamp traceId orderIndex : ℤ) (operationSignature classSignature
      calleeOperationSignature calleeClassSignature : CString) (objectId calleeObjectId : ℤ)
  -- `flow/trace/operation/object`
  | afterOperationFailedObjectEvent (timestamp traceId orderIndex : ℤ) (operationSignature
      classSignature cause : CString) (objectId : ℤ)
  | afterOperationObjectEvent (timestamp traceId orderIndex : ℤ) (operationSignature
      classSignature : CString) (objectId : ℤ)
  | beforeOperationObjectEvent (timestamp traceId orderIndex : ℤ) (operationSignature
      classSignature : CString) (objectId : ℤ)
  | beforeOperationObjectInterfaceEvent (timestamp traceId orderIndex : ℤ) (operationSignature
      classSignature : CString) (objectId : ℤ) (interface : CString)
  | callOperationObjectEvent (timestamp traceId orderIndex : ℤ) (operationSignature classSignature
      calleeOperationSignature calleeClassSignature : CString) (objectId calleeObjectId : ℤ)
  -- `jvm`
  | classLoadingRecord (timestamp : ℤ) (hostname vmName : CString) (totalLoadedClassCount
      loadedClassCount unloadedClassCount : ℤ)
  | compilationRecord (timestamp : ℤ) (hostname vmName jitCompilerName : CString)
      (totalCompilationTimeMS : ℤ)
  | gCRecord (timestamp : ℤ) (hostname vmName gcName : CString) (collectionCount
      collectionTimeMS : ℤ)
  | memoryRecord (timestamp : ℤ) (hostname vmName : CString) (heapMaxBytes heapUsedBytes
      heapCommittedBytes heapInitBytes nonHeapMaxBytes nonHeapUsedBytes nonHeapCommittedBytes
      nonHeapInitBytes objectPendingFinalizationCount : ℤ)
  | threadsStatusRecord (timestamp : ℤ) (hostname vmName : CString) (threadCount daemonThreadCount
      peakThreadCount totalStartedThreadCount : ℤ)
  | uptimeRecord (timestamp : ℤ) (hostname vmName : CString) (uptimeMS : ℤ)
  -- `misc`
  | emptyRecord
  | hostApplicationMetaData (systemName ipAddress hostname applicationName : CString)
  | kiekerMetadataRecord (version controllerName hostname : CString) (experimentId : ℤ)
      (debugMode : UInt8) (timeOffset : ℤ) (timeUnit : CString) (numberOfRecords : ℤ)
  | threadMetaData (hostname : CString) (threadId : ℤ)
  | timestampRecord (timestamp : ℤ)
  -- `remotecontrol`
  | activationEvent (pattern : CString)
  | activationParameterEvent (pattern name values : CString)
  | addParameterValueEvent (pattern name value : CString)
  | deactivationEvent (pattern : CString)
  | removeParameterValueEvent (pattern name value : CString)
  | updateParameterEvent (pattern name values : CString)
  -- `system`
  | memSwapUsageRecord (timestamp : ℤ) (hostname : CString) (memTotal memUsed memFree swapTotal
      swapUsed swapFree : ℤ)

/-- The members of a record that are serialised, in order. -/
def CommonRecord.fields : CommonRecord → List Field
  | .branchingRecord timestamp branchID branchingOutcome =>
      [.int64 timestamp, .int32 branchID, .int32 branchingOutcome]
  | .operationExecutionRecord value => value.fields
  | .afterDatabaseEvent timestamp classSignature traceId orderIndex returnType returnValue =>
      [.int64 timestamp, .string classSignature, .int64 traceId, .int32 orderIndex,
        .string returnType, .string returnValue]
  | .beforeDatabaseEvent timestamp classSignature traceId orderIndex parameters technology =>
      [.int64 timestamp, .string classSignature, .int64 traceId, .int32 orderIndex,
        .string parameters, .string technology]
  | .databaseFailedEvent timestamp classSignature traceId orderIndex cause =>
      [.int64 timestamp, .string classSignature, .int64 traceId, .int32 orderIndex, .string cause]
  | .afterFailedThreadBasedEvent timestamp threadId orderIndex operationSignature classSignature
      cause =>
      [.int64 timestamp, .int64 threadId, .int32 orderIndex, .string operationSignature,
        .string classSignature, .string cause]
  | .afterThreadBasedEvent timestamp threadId orderIndex operationSignature classSignature =>
      [.int64 timestamp, .int64 threadId, .int32 orderIndex, .string operationSignature,
        .string classSignature]
  | .beforeThreadBasedEvent timestamp threadId orderIndex operationSignature classSignature =>
      [.int64 timestamp, .int64 threadId, .int32 orderIndex, .string operationSignature,
        .string classSignature]
  | .applicationTraceMetadata traceId threadId sessionId hostname parentTraceId parentOrderId _
      applicationName =>
      [.int64 traceId, .int64 threadId, .string sessionId, .string hostname, .int64 parentTraceId,
        .int32 parentOrderId, .string applicationName]
  | .beforeReceivedRemoteEvent timestamp callerTraceId callerOrderIndex traceId orderIndex =>
      [.int64 timestamp, .int64 callerTraceId, .int32 callerOrderIndex, .int64 traceId,
        .int32 orderIndex]
  | .beforeSentRemoteEvent timestamp traceId orderIndex technology =>
      [.int64 timestamp, .int64 traceId, .int32 orderIndex, .string technology]
  | .constructionEvent timestamp traceId orderIndex classSignature objectId =>
      [.int64 timestamp, .int64 traceId, .int32 orderIndex, .string classSignature, .int32 objectId]
  | .traceMetadata value => value.fields
  | .joinEvent timestamp traceId orderIndex joinedTraceId =>
      [.int64 timestamp, .int64 traceId, .int32 orderIndex, .int64 joinedTraceId]
  | .splitEvent timestamp traceId orderIndex =>
      [.int64 timestamp, .int64 traceId, .int32 orderIndex]
  | .monitorEntryEvent timestamp traceId orderIndex lockId =>
      [.int64 timestamp, .int64 traceId, .int32 orderIndex, .int32 lockId]
  | .monitorExitEvent timestamp traceId orderIndex lockId =>
      [.int64 timestamp, .int64 traceId, .int32 orderIndex, .int32 lockId]
  | .monitorNotifyAllEvent timestamp traceId orderIndex lockId =>
      [.int64 timestamp, .int64 traceId, .int32 orderIndex, .int32 lockId]
  | .monitorNotifyEvent timestamp traceId orderIndex lockId =>
      [.int64 timestamp, .int64 traceId, .int32 orderIndex, .int32 lockId]
  | .monitorRequestEvent timestamp traceId orderIndex lockId =>
      [.int64 timestamp, .int64 traceId, .int32 orderIndex, .int32 lockId]
  | .monitorWaitEvent timestamp traceId orderIndex lockId =>
      [.int64 timestamp, .int64 traceId, .int32 orderIndex, .int32 lockId]
  | .afterOperationEvent value => value.fields
  | .afterOperationFailedEvent timestamp traceId orderIndex operationSignature classSignature cause
      =>
      [.int64 timestamp, .int64 traceId, .int32 orderIndex, .string operationSignature,
        .string classSignature, .string cause]
  | .beforeOperationEvent value => value.fields
  | .callOperationEvent timestamp traceId orderIndex operationSignature classSignature
      calleeOperationSignature calleeClassSignature =>
      [.int64 timestamp, .int64 traceId, .int32 orderIndex, .string operationSignature,
        .string classSignature, .string calleeOperationSignature, .string calleeClassSignature]
  | .afterConstructorEvent timestamp traceId orderIndex operationSignature classSignature =>
      [.int64 timestamp, .int64 traceId, .int32 orderIndex, .string operationSignature,
        .string classSignature]
  | .afterConstructorFailedEvent timestamp traceId orderIndex operationSignature classSignature
      cause =>
      [.int64 timestamp, .int64 traceId, .int32 orderIndex, .string operationSignature,
        .string classSignature, .string cause]
  | .beforeConstructorEvent timestamp traceId orderIndex operationSignature classSignature =>
      [.int64 timestamp, .int64 traceId, .int32 orderIndex, .string operationSignature,
        .string classSignature]
  | .callConstructorEvent timestamp traceId orderIndex operationSignature classSignature
      calleeOperationSignature calleeClassSignature =>
      [.int64 timestamp, .int64 traceId, .int32 orderIndex, .string operationSignature,
        .string classSignature, .string calleeOperationSignature, .string calleeClassSignature]
  | .afterConstructorFailedObjectEvent timestamp traceId orderIndex operationSignature
      classSignature cause objectId =>
      [.int64 timestamp, .int64 traceId, .int32 orderIndex, .string operationSignature,
        .string classSignature, .string cause, .int32 objectId]
  | .afterConstructorObjectEvent timestamp traceId orderIndex operationSignature classSignature
      objectId =>
      [.int64 timestamp, .int64 traceId, .int32 orderIndex, .string operationSignature,
        .string classSignature, .int32 objectId]
  | .beforeConstructorObjectEvent timestamp traceId orderIndex operationSignature classSignature
      objectId =>
      [.int64 timestamp, .int64 traceId, .int32 orderIndex, .string operationSignature,
        .string classSignature, .int32 objectId]
  | .beforeConstructorObjectInterfaceEvent timestamp traceId orderIndex operationSignature
      classSignature objectId interface =>
      [.int64 timestamp, .int64 traceId, .int32 orderIndex, .string operationSignature,
        .string classSignature, .int32 objectId, .string interface]
  | .callConstructorObjectEvent timestamp traceId orderIndex operationSignature classSignature
      calleeOperationSignature calleeClassSignature objectId calleeObjectId =>
      [.int64 timestamp, .int64 traceId, .int32 orderIndex, .string operationSignature,
        .string classSignature, .string calleeOperationSignature, .string calleeClassSignature,
        .int32 objectId, .int32 calleeObjectId]
  | .afterOperationFailedObjectEvent timestamp traceId orderIndex operationSignature classSignature
      cause objectId =>
      [.int64 timestamp, .int64 traceId, .int32 orderIndex, .string operationSignature,
        .string classSignature, .string cause, .int32 objectId]
  | .afterOperationObjectEvent timestamp traceId orderIndex operationSignature classSignature
      objectId =>
      [.int64 timestamp, .int64 traceId, .int32 orderIndex, .string operationSignature,
        .string classSignature, .int32 objectId]
  | .beforeOperationObjectEvent timestamp traceId orderIndex operationSignature classSignature
      objectId =>
      [.int64 timestamp, .int64 traceId, .int32 orderIndex, .string operationSignature,
        .string classSignature, .int32 objectId]
  | .beforeOperationObjectInterfaceEvent timestamp traceId orderIndex operationSignature
      classSignature objectId interface =>
      [.int64 timestamp, .int64 traceId, .int32 orderIndex, .string operationSignature,
        .string classSignature, .int32 objectId, .string interface]
  | .callOperationObjectEvent timestamp traceId orderIndex operationSignature classSignature
      calleeOperationSignature calleeClassSignature objectId calleeObjectId =>
      [.int64 timestamp, .int64 traceId, .int32 orderIndex, .string operationSignature,
        .string classSignature, .string calleeOperationSignature, .string calleeClassSignature,
        .int32 objectId, .int32 calleeObjectId]
  | .classLoadingRecord timestamp hostname vmName totalLoadedClassCount loadedClassCount
      unloadedClassCount =>
      [.int64 timestamp, .string hostname, .string vmName, .int64 totalLoadedClassCount,
        .int32 loadedClassCount, .int64 unloadedClassCount]
  | .compilationRecord timestamp hostname vmName jitCompilerName totalCompilationTimeMS =>
      [.int64 timestamp, .string hostname, .string vmName, .string jitCompilerName,
        .int64 totalCompilationTimeMS]
  | .gCRecord timestamp hostname vmName gcName collectionCount collectionTimeMS =>
      [.int64 timestamp, .string hostname, .string vmName, .string gcName, .int64 collectionCount,
        .int64 collectionTimeMS]
  | .memoryRecord timestamp hostname vmName heapMaxBytes heapUsedBytes heapCommittedBytes
      heapInitBytes nonHeapMaxBytes nonHeapUsedBytes nonHeapCommittedBytes nonHeapInitBytes
      objectPendingFinalizationCount =>
      [.int64 timestamp, .string hostname, .string vmName, .int64 heapMaxBytes,
        .int64 heapUsedBytes, .int64 heapCommittedBytes, .int64 heapInitBytes,
        .int64 nonHeapMaxBytes, .int64 nonHeapUsedBytes, .int64 nonHeapCommittedBytes,
        .int64 nonHeapInitBytes, .int32 objectPendingFinalizationCount]
  | .threadsStatusRecord timestamp hostname vmName threadCount daemonThreadCount peakThreadCount
      totalStartedThreadCount =>
      [.int64 timestamp, .string hostname, .string vmName, .int64 threadCount,
        .int64 daemonThreadCount, .int64 peakThreadCount, .int64 totalStartedThreadCount]
  | .uptimeRecord timestamp hostname vmName uptimeMS =>
      [.int64 timestamp, .string hostname, .string vmName, .int64 uptimeMS]
  | .emptyRecord => []
  | .hostApplicationMetaData systemName ipAddress hostname applicationName =>
      [.string systemName, .string ipAddress, .string hostname, .string applicationName]
  | .kiekerMetadataRecord version controllerName hostname experimentId debugMode timeOffset timeUnit
      numberOfRecords =>
      [.string version, .string controllerName, .string hostname, .int32 experimentId,
        .boolean debugMode, .int64 timeOffset, .string timeUnit, .int64 numberOfRecords]
  | .threadMetaData hostname threadId => [.string hostname, .int64 threadId]
  | .timestampRecord timestamp => [.int64 timestamp]
  | .activationEvent pattern => [.string pattern]
  | .activationParameterEvent pattern name values => [.string pattern, .string name, .string values]
  | .addParameterValueEvent pattern name value => [.string pattern, .string name, .string value]
  | .deactivationEvent pattern => [.string pattern]
  | .removeParameterValueEvent pattern name value => [.string pattern, .string name, .string value]
  | .updateParameterEvent pattern name values => [.string pattern, .string name, .string values]
  | .memSwapUsageRecord timestamp hostname memTotal memUsed memFree swapTotal swapUsed swapFree =>
      [.int64 timestamp, .string hostname, .int64 memTotal, .int64 memUsed, .int64 memFree,
        .int64 swapTotal, .int64 swapUsed, .int64 swapFree]

/--
`kieker_common_record_..._serialize`: every serialiser writes the members of its
record, each behind the one before it, and returns the position behind the last.
-/
def CommonRecord.serialize (kernel : Kernel) (buffer : Block) (offset : ℕ) (record : CommonRecord)
    (channel : Channel) : Option (ℕ × Block × Channel) :=
  serializeFields kernel record.fields buffer offset channel

end Kieker
