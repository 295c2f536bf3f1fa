import Kieker.Model.Probes
import Mathlib.Logic.Function.Basic

/-!
# Probe calls statement by statement

The plain probes again, now as programs of threads that take turns: a turn is one
call of a `kieker_serialize_...` function, one `kieker_controller_send`, or one of
the statements between them. The buffer, the string table and the trace map are
shared; the position in the buffer is a variable of the call. Nothing holds
`kieker_controller_access_lock`, which is declared and never used.

Two histories are kept for the specification: what a call has serialised so far,
and which thread stored each byte of the buffer last.
-/

namespace Kieker

/-- A call of a plain probe by the thread `self`. -/
inductive PlainCall where
  | before (self : PthreadSelf) (classSignature operationSignature : CString)
  | after (self : PthreadSelf) (classSignature operationSignature : CString)

/-- A value to be serialised: a member, or the time at which its turn comes. -/
inductive Pending where
  | member (field : Field)
  | now
  deriving DecidableEq

/-- Where a call goes on when all values of the current record are serialised. -/
inductive Stage where
  /-- `if (trace->order_index == -1)`. -/
  | test (classSignature operationSignature : CString)
  /-- `trace->order_index++; trace->stack++;` -/
  | enter (classSignature operationSignature : CString)
  /-- `trace->order_index++; trace->stack--;` -/
  | leave (classSignature operationSignature : CString)
  /-- The members of the event are filled in. -/
  | createBefore (classSignature operationSignature : CString)
  | createAfter (classSignature operationSignature : CString)
  /-- `kieker_controller_send(position)`, with more to do afterwards if an operation is left. -/
  | send (leaves : Bool)
  /-- `if (trace->stack == 0)`. -/
  | release
  deriving DecidableEq

/-- The variables of a running call. -/
structure ProbeLocals where
  /-- `kieker_trace_t* trace`. -/
  trace : ℕ
  /-- `int position`. -/
  position : ℕ
  pending : List Pending
  stage : Stage
  /-- What the call has serialised so far. -/
  written : List UInt8

/-- What is serialised for a record: the prefix and the members. -/
def planned (id : ℤ) (fields : List Field) : List Pending :=
  .member (.int32 id) :: .now :: fields.map .member

/-- The value that is serialised, and the channel after a look at the clock. -/
def Pending.resolve (kernel : Kernel) (channel : Channel) : Pending → Field × Channel
  | .member field => (field, channel)
  | .now =>
      let (time, channel) := controllerGetTimeMs kernel channel
      (.int64 time, channel)

namespace ProbeLocals

/-- `position += kieker_serialize_...(buffer, position, ...)`. -/
def serialize (kernel : Kernel) (library : Library) (locals : ProbeLocals) (next : Pending)
    (rest : List Pending) : Option (Library × Option ProbeLocals) := do
  let (field, channel) := next.resolve kernel library.channel
  let block ← channel.controller.buffer
  let (size, block, channel) ← serializeField kernel block locals.position field channel
  some ({ library with channel := channel.setBuffer block }, some { locals with
    position := locals.position + size
    pending := rest
    written := locals.written ++ block.bytesFrom locals.position size })

/-- The next statement of a call with nothing left to serialise. -/
def proceed (kernel : Kernel) (library : Library) (locals : ProbeLocals) :
    Option (Library × Option ProbeLocals) :=
  match locals.stage with
  | .test classSignature operationSignature => do
      let data ← library.registry.deref locals.trace
      let opened := { locals with stage := .enter classSignature operationSignature }
      if data.orderIndex = -1 then do
        let hostname ← library.channel.controller.localHostname
        some (library, some { opened with
          pending := planned flowTraceMetadata (traceMetadataOf hostname data).fields })
      else some (library, some opened)
  | .enter classSignature operationSignature =>
      some ({ library with registry := library.registry.assign locals.trace KiekerTrace.enter },
        some { locals with stage := .createBefore classSignature operationSignature })
  | .leave classSignature operationSignature =>
      some ({ library with registry := library.registry.assign locals.trace KiekerTrace.leave },
        some { locals with stage := .createAfter classSignature operationSignature })
  | .createBefore classSignature operationSignature => do
      let data ← library.registry.deref locals.trace
      let (timestamp, channel) := controllerGetTimeMs kernel library.channel
      let event := operationEventOf timestamp data classSignature operationSignature
      some ({ library with channel := channel }, some { locals with
        pending := planned flowBeforeOperation event.fields
        stage := .send false })
  | .createAfter classSignature operationSignature => do
      let data ← library.registry.deref locals.trace
      let (timestamp, channel) := controllerGetTimeMs kernel library.channel
      let event := operationEventOf timestamp data classSignature operationSignature
      some ({ library with channel := channel }, some { locals with
        pending := planned flowAfterOperation event.fields
        stage := .send true })
  | .send leaves => do
      let channel ← controllerSend kernel locals.position library.channel
      some ({ library with channel := channel },
        if leaves then some { locals with stage := .release } else none)
  | .release => do
      let data ← library.registry.deref locals.trace
      let registry :=
        if data.stack = 0 then library.registry.traceRemove locals.trace else library.registry
      some ({ library with registry := registry }, none)

/-- One turn of a running call; the call has ended if no variables are left. -/
def resume (kernel : Kernel) (library : Library) (locals : ProbeLocals) :
    Option (Library × Option ProbeLocals) :=
  match locals.pending with
  | next :: rest => locals.serialize kernel library next rest
  | [] => locals.proceed kernel library

end ProbeLocals

/-- A call begins with `kieker_trace_get`. -/
def PlainCall.begin (kernel : Kernel) (library : Library) : PlainCall → Library × ProbeLocals
  | .before self classSignature operationSignature =>
      let (trace, registry) := library.registry.traceGet kernel self
      ({ library with registry := registry },
        { trace := trace, position := 0, pending := [], written := []
          stage := .test classSignature operationSignature })
  | .after self classSignature operationSignature =>
      let (trace, registry) := library.registry.traceGet kernel self
      ({ library with registry := registry },
        { trace := trace, position := 0, pending := [], written := []
          stage := .leave classSignature operationSignature })

/-- The library, and the calls that threads are in the middle of. -/
structure Machine (Thread : Type) where
  library : Library
  running : Thread → Option ProbeLocals
  /-- The thread that stored each byte of the buffer last. -/
  author : ℕ → Option Thread

/-- What a thread does next. -/
inductive Turn (Thread : Type) where
  | begin (thread : Thread) (call : PlainCall)
  | resume (thread : Thread)

namespace Machine

variable {Thread : Type} [DecidableEq Thread]

/-- One turn of one thread. -/
def turn (kernel : Kernel) (machine : Machine Thread) : Turn Thread → Option (Machine Thread)
  | .begin thread call =>
      match machine.running thread with
      | some _ => none
      | none =>
          let (library, locals) := call.begin kernel machine.library
          some { machine with
            library := library
            running := Function.update machine.running thread (some locals) }
  | .resume thread => do
      let locals ← machine.running thread
      let (library, later) ← locals.resume kernel machine.library
      let reached := (later.map ProbeLocals.position).getD locals.position
      some {
        library := library
        running := Function.update machine.running thread later
        author := fun index =>
          if locals.position ≤ index ∧ index < reached then some thread
          else machine.author index }

/-- Turns one after another. -/
def turns (kernel : Kernel) (machine : Machine Thread) (schedule : List (Turn Thread)) :
    Option (Machine Thread) :=
  schedule.foldlM (turn kernel) machine

/-- No thread is in a call. -/
def idle (library : Library) : Machine Thread where
  library := library
  running := fun _ => none
  author := fun _ => none

end Machine

end Kieker
