import Kieker.Model.State

/-!
# Traces

`kieker_trace.c`: the map from threads to their current traces and the counter
that numbers traces. The map is a list of the trace objects in it, latest first;
an object is known by the address that `malloc` gave it, which no other object of
the same run has. Each function is one step here, since the map is only touched
with the lock held.
-/

namespace Kieker

/-- The 64 bits of a `pthread_t`. -/
abbrev PthreadSelf := BitVec 64

/-- `(int) pthread_self()`. -/
def threadIdOf (self : PthreadSelf) : ℤ := toInt32 self.toNat

/-- `kieker_trace_t`. -/
structure KiekerTrace where
  /-- Where the object lives. -/
  address : ℕ
  traceId : ℤ
  orderIndex : ℤ
  stack : ℤ
  buffer : Block
  threadId : ℤ

/-- The variables of `kieker_trace.c`. -/
structure TraceRegistry where
  /-- `kieker_traces`. -/
  traces : List KiekerTrace
  /-- `kieker_trace_current_id`. -/
  currentId : ℤ
  /-- How many trace objects were allocated. -/
  allocated : ℕ

/-- The initial values of the variables of `kieker_trace.c`. -/
def TraceRegistry.initial : TraceRegistry where
  traces := []
  currentId := 0
  allocated := 0

namespace TraceRegistry

/-- `kieker_trace_find`. -/
def traceFind (registry : TraceRegistry) (threadId : ℤ) : Option KiekerTrace :=
  registry.traces.find? fun trace => trace.threadId = threadId

/-- `kieker_trace_delete`. -/
def traceDelete (registry : TraceRegistry) (address : ℕ) : TraceRegistry :=
  { registry with traces := registry.traces.filter fun trace => trace.address ≠ address }

/-- `kieker_trace_get_next_id`. -/
def traceGetNextId (registry : TraceRegistry) : ℤ × TraceRegistry :=
  (registry.currentId, { registry with currentId := registry.currentId + 1 })

/-- `kieker_trace_create`, on a new object. -/
def traceCreate (kernel : Kernel) (address : ℕ) (threadId traceId : ℤ) : KiekerTrace where
  address := address
  traceId := traceId
  orderIndex := -1
  stack := 0
  buffer := { size := 1024, byte := kernel.malloc address }
  threadId := threadId

/-- `kieker_trace_get`: the address of the calling thread's trace. -/
def traceGet (kernel : Kernel) (self : PthreadSelf) (registry : TraceRegistry) :
    ℕ × TraceRegistry :=
  let threadId := threadIdOf self
  match registry.traceFind threadId with
  | some data => (data.address, registry)
  | none =>
      let address := registry.allocated
      let (traceId, registry) := registry.traceGetNextId
      let data := traceCreate kernel address threadId traceId
      (address, { registry with traces := data :: registry.traces, allocated := address + 1 })

/-- `kieker_trace_remove`: the object leaves the map and is freed. -/
def traceRemove (registry : TraceRegistry) (address : ℕ) : TraceRegistry :=
  registry.traceDelete address

/-- Follows a pointer to a trace object; a pointer to a freed object leads nowhere. -/
def deref (registry : TraceRegistry) (address : ℕ) : Option KiekerTrace :=
  registry.traces.find? fun trace => trace.address = address

/-- Assigns to members of the object at an address. -/
def assign (registry : TraceRegistry) (address : ℕ) (change : KiekerTrace → KiekerTrace) :
    TraceRegistry :=
  { registry with
    traces := registry.traces.map fun trace => if trace.address = address then change trace else trace }

/-- `kieker_trace_init`, for the results of `pthread_rwlock_init` and `time`. -/
def traceInit (kernel : Kernel) (rwlockInit time : ℤ) (registry : TraceRegistry) :
    Bool × TraceRegistry :=
  if rwlockInit ≠ 0 then (false, registry)
  else
    let val := kernel.rand time % 1000000000
    (true, { registry with currentId := val * 2 ^ 8 })

end TraceRegistry

end Kieker
