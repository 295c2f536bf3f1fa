import Kieker.Model.Controller

/-!
# Probes

The functions that instrumented code calls: `kieker_probe_events.c`,
`kieker_probe_plain.c`, and the two aspect probes. The calling thread is an
argument, as `pthread_self` returns it. A probe call is one step here; the
interleaving of the calls inside it has a model of its own.
-/

namespace Kieker

/-- `KIEKER_FLOW_TRACE_METADATA`. -/
def flowTraceMetadata : ℤ := 0

/-- `KIEKER_FLOW_BEFORE_OPERATION`. -/
def flowBeforeOperation : ℤ := 1

/-- `KIEKER_FLOW_AFTER_OPERATION`. -/
def flowAfterOperation : ℤ := 2

/-! ### Counters -/

namespace KiekerTrace

/-- `trace->order_index++`. -/
def advance (trace : KiekerTrace) : KiekerTrace :=
  { trace with orderIndex := trace.orderIndex + 1 }

/-- `trace->stack++`. -/
def push (trace : KiekerTrace) : KiekerTrace :=
  { trace with stack := trace.stack + 1 }

/-- `trace->stack--`. -/
def pop (trace : KiekerTrace) : KiekerTrace :=
  { trace with stack := trace.stack - 1 }

/-- Both counters when an operation is entered. -/
def enter (trace : KiekerTrace) : KiekerTrace := trace.advance.push

/-- Both counters when an operation is left. -/
def leave (trace : KiekerTrace) : KiekerTrace := trace.advance.pop

end KiekerTrace

/-! ### `kieker_probe_events.c` -/

/-- The record that `kieker_probe_create_trace_metadata` fills in. -/
def traceMetadataOf (hostname : CString) (trace : KiekerTrace) : TraceMetadata where
  traceId := trace.traceId
  threadId := trace.threadId
  sessionId := .literal "<no-session>"
  hostname := hostname
  parentTraceId := -1
  parentOrderId := 0
  nextOrderId := 1

/-- The record that the functions creating an operation event fill in. -/
def operationEventOf (timestamp : ℤ) (trace : KiekerTrace)
    (classSignature operationSignature : CString) : OperationEvent where
  timestamp := timestamp
  traceId := trace.traceId
  orderIndex := trace.orderIndex
  operationSignature := operationSignature
  classSignature := classSignature

/-- `kieker_probe_create_trace_metadata`. -/
def probeCreateTraceMetadata (kernel : Kernel) (position : ℕ) (trace : KiekerTrace)
    (channel : Channel) : Option (ℕ × Channel) := do
  let hostname ← channel.controller.localHostname
  let traceMetadata := traceMetadataOf hostname trace
  let (position, channel) ← controllerPrefixSerialize kernel flowTraceMetadata position channel
  let block ← channel.controller.buffer
  let (position, block, channel) ← traceMetadataSerialize kernel block position traceMetadata channel
  some (position, channel.setBuffer block)

/-- `kieker_probe_create_before_operation_event`. -/
def probeCreateBeforeOperationEvent (kernel : Kernel) (position : ℕ) (trace : KiekerTrace)
    (classSignature operationSignature : CString) (channel : Channel) : Option (ℕ × Channel) := do
  let (timestamp, channel) := controllerGetTimeMs kernel channel
  let event := operationEventOf timestamp trace classSignature operationSignature
  let (position, channel) ← controllerPrefixSerialize kernel flowBeforeOperation position channel
  let block ← channel.controller.buffer
  let (position, block, channel) ← beforeOperationEventSerialize kernel block position event channel
  some (position, channel.setBuffer block)

/-- `kieker_probe_create_after_operation_event`. -/
def probeCreateAfterOperationEvent (kernel : Kernel) (position : ℕ) (trace : KiekerTrace)
    (classSignature operationSignature : CString) (channel : Channel) : Option (ℕ × Channel) := do
  let (timestamp, channel) := controllerGetTimeMs kernel channel
  let event := operationEventOf timestamp trace classSignature operationSignature
  let (position, channel) ← controllerPrefixSerialize kernel flowAfterOperation position channel
  let block ← channel.controller.buffer
  let (position, block, channel) ← afterOperationEventSerialize kernel block position event channel
  some (position, channel.setBuffer block)

/--
What both kinds of probes do first when an operation is entered: the metadata of
a new trace goes to the front of the buffer. Returns the position behind it.
-/
def probeOpenTrace (kernel : Kernel) (trace : KiekerTrace) (channel : Channel) :
    Option (ℕ × Channel) :=
  if trace.orderIndex = -1 then probeCreateTraceMetadata kernel 0 trace channel
  else some (0, channel)

/-! ### `kieker_probe_plain.c` -/

/-- `kieker_probe_before_operation_event`. -/
def probeBeforeOperationEvent (kernel : Kernel) (self : PthreadSelf)
    (classSignature operationSignature : CString) (library : Library) : Option Library := do
  let (trace, registry) := library.registry.traceGet kernel self
  let data ← registry.deref trace
  let (position, channel) ← probeOpenTrace kernel data library.channel
  let registry := registry.assign trace KiekerTrace.enter
  let data ← registry.deref trace
  let (position, channel) ←
    probeCreateBeforeOperationEvent kernel position data classSignature operationSignature channel
  let channel ← controllerSend kernel position channel
  some { library with channel := channel, registry := registry }

/-- `kieker_probe_after_operation_event`. -/
def probeAfterOperationEvent (kernel : Kernel) (self : PthreadSelf)
    (classSignature operationSignature : CString) (library : Library) : Option Library := do
  let (trace, registry) := library.registry.traceGet kernel self
  let registry := registry.assign trace KiekerTrace.leave
  let data ← registry.deref trace
  let (position, channel) ←
    probeCreateAfterOperationEvent kernel 0 data classSignature operationSignature library.channel
  let channel ← controllerSend kernel position channel
  let data ← registry.deref trace
  let registry := if data.stack = 0 then registry.traceRemove trace else registry
  some { library with channel := channel, registry := registry }

/-! ### `aspect/event_trace.c` -/

/-- `kieker_probe_aspect_event_before_operation`: the trace that it returns, and what it does. -/
def probeAspectEventBeforeOperation (kernel : Kernel) (self : PthreadSelf)
    (operationSignature classSignature : CString) (library : Library) : Option (ℕ × Library) := do
  let (trace, registry) := library.registry.traceGet kernel self
  let data ← registry.deref trace
  let (position, channel) ← probeOpenTrace kernel data library.channel
  let registry := registry.assign trace KiekerTrace.push
  if library.filter.isClassExcluded classSignature = false then
    let registry := registry.assign trace KiekerTrace.advance
    let data ← registry.deref trace
    let (position, channel) ←
      probeCreateBeforeOperationEvent kernel position data classSignature operationSignature channel
    let channel ← controllerSend kernel position channel
    some (trace, { library with channel := channel, registry := registry })
  else some (trace, { library with channel := channel, registry := registry })

/-- `kieker_probe_aspect_event_after_operation`. -/
def probeAspectEventAfterOperation (kernel : Kernel) (trace : ℕ)
    (operationSignature classSignature : CString) (library : Library) : Option Library := do
  let (registry, channel) ←
    if library.filter.isClassExcluded classSignature = false then do
      let data ← library.registry.deref trace
      let (position, channel) ←
        probeCreateAfterOperationEvent kernel 0 data classSignature operationSignature library.channel
      let registry := library.registry.assign trace KiekerTrace.advance
      let channel ← controllerSend kernel position channel
      some (registry, channel)
    else some (library.registry, library.channel)
  let registry := registry.assign trace KiekerTrace.pop
  let data ← registry.deref trace
  let registry := if data.stack = -1 then registry.traceRemove trace else registry
  some { library with channel := channel, registry := registry }

/-! ### `aspect/controlflow.c` -/

/-- What `kieker_probe_aspect_controlflow_before` fills in; the other members are not set yet. -/
structure OpenExecution where
  sessionId : CString
  hostname : Option CString
  traceId : ℤ
  eoi : ℤ
  ess : ℤ
  tin : ℤ

/--
The record with the exit time, and with the signature that the aspect sets
itself. A record with a null hostname cannot be serialised.
-/
def OpenExecution.close (execution : OpenExecution) (tout : ℤ) (operationSignature : CString) :
    Option OperationExecutionRecord := do
  let hostname ← execution.hostname
  some {
    operationSignature := operationSignature
    sessionId := execution.sessionId
    traceId := execution.traceId
    tin := execution.tin
    tout := tout
    hostname := hostname
    eoi := execution.eoi
    ess := execution.ess }

/-- `kieker_probe_aspect_controlflow_before`: the trace and the record, and what it does. -/
def probeAspectControlflowBefore (kernel : Kernel) (self : PthreadSelf) (library : Library) :
    Option (ℕ × OpenExecution × Library) := do
  let (trace, registry) := library.registry.traceGet kernel self
  let registry := registry.assign trace KiekerTrace.enter
  let data ← registry.deref trace
  let (tin, channel) := controllerGetTimeMs kernel library.channel
  some (trace,
    { sessionId := .literal "<no session>"
      hostname := library.channel.controller.localHostname
      traceId := data.traceId
      eoi := data.orderIndex
      ess := data.stack
      tin := tin },
    { library with channel := channel, registry := registry })

/-- `kieker_probe_aspect_controlflow_after`: the exit time, and what it does. -/
def probeAspectControlflowAfter (kernel : Kernel) (trace : ℕ) (library : Library) :
    Option (ℤ × Library) := do
  let (tout, channel) := controllerGetTimeMs kernel library.channel
  let _ ← library.registry.deref trace
  let registry := library.registry.assign trace KiekerTrace.pop
  some (tout, { library with channel := channel, registry := registry })

/--
`kieker_probe_aspect_controlflow_send`: the record is serialised into the trace's
buffer, which is returned, and the length is passed on.
-/
def probeAspectControlflowSend (kernel : Kernel) (record : OperationExecutionRecord)
    (buffer : Block) (channel : Channel) : Option (Block × Channel) := do
  let (length, buffer, channel) ← operationExecutionRecordSerialize kernel buffer 0 record channel
  let channel ← controllerSend kernel length channel
  some (buffer, channel)

/-- `kieker_probe_aspect_controlflow_after2`. -/
def probeAspectControlflowAfter2 (kernel : Kernel) (trace : ℕ) (record : OperationExecutionRecord)
    (library : Library) : Option Library := do
  let data ← library.registry.deref trace
  let (buffer, channel) ← probeAspectControlflowSend kernel record data.buffer library.channel
  let registry := library.registry.assign trace fun data => { data with buffer := buffer }
  let data ← registry.deref trace
  let registry := if data.stack = -1 then registry.traceRemove trace else registry
  some { library with channel := channel, registry := registry }

end Kieker
