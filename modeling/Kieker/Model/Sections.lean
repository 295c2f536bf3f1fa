import Kieker.Model.Trace
import Mathlib.Logic.Function.Basic

/-!
# Lookups section by section

`kieker_trace_get` and `kieker_trace_remove` again, now with the sections that
hold `kieker_trace_hash_lock` as single turns of the threads. A lookup is a
section of its own; if it finds nothing, the object is created without the lock
and added in a second section, which does not look again.

A thread is known by its `pthread_self()`. Two histories are kept for the
specification: what each thread was given last and has not removed yet, and which
thread created the object at an address.
-/

namespace Kieker

/-- Where a thread is in `kieker_trace_get`. -/
inductive LookupPlace where
  | outside
  /-- `data == NULL`. -/
  | missed
  /-- The object is created and not in the map yet. -/
  | created (data : KiekerTrace)

/-- A turn of a thread. -/
inductive LookupTurn where
  /-- The read-locked section of `kieker_trace_get`. -/
  | find (self : PthreadSelf)
  /-- The statements between the two sections. -/
  | create (self : PthreadSelf)
  /-- The write-locked section of `kieker_trace_get`. -/
  | add (self : PthreadSelf)
  /-- `kieker_trace_remove`, for the object that the thread was given. -/
  | remove (self : PthreadSelf)
  deriving DecidableEq

/-- The thread whose turn it is. -/
def LookupTurn.self : LookupTurn → PthreadSelf
  | .find self | .create self | .add self | .remove self => self

/-- The trace map and the threads that use it. -/
structure LookupMachine where
  registry : TraceRegistry
  place : PthreadSelf → LookupPlace
  /-- The object that the thread was given last, until the thread removes it. -/
  held : PthreadSelf → Option ℕ
  /-- The thread that created the object at an address. -/
  creator : ℕ → Option PthreadSelf

namespace LookupMachine

/-- No thread has a trace. -/
def start (currentId : ℤ) : LookupMachine where
  registry := { TraceRegistry.initial with currentId := currentId }
  place _ := .outside
  held _ := none
  creator _ := none

/-- `kieker_trace_find`, with the lock held. -/
def find (machine : LookupMachine) (self : PthreadSelf) : Option LookupMachine :=
  match machine.place self with
  | .outside =>
      match machine.registry.traceFind (threadIdOf self) with
      | some data =>
          some { machine with held := Function.update machine.held self (some data.address) }
      | none => some { machine with place := Function.update machine.place self .missed }
  | _ => none

/-- `malloc`, `kieker_trace_get_next_id` and `kieker_trace_create`. -/
def create (kernel : Kernel) (machine : LookupMachine) (self : PthreadSelf) :
    Option LookupMachine :=
  match machine.place self with
  | .missed =>
      let address := machine.registry.allocated
      let (traceId, registry) := machine.registry.traceGetNextId
      let data := TraceRegistry.traceCreate kernel address (threadIdOf self) traceId
      some { machine with
        registry := { registry with allocated := address + 1 }
        place := Function.update machine.place self (.created data)
        creator := Function.update machine.creator address (some self) }
  | _ => none

/-- `HASH_ADD_INT`, with the lock held. -/
def add (machine : LookupMachine) (self : PthreadSelf) : Option LookupMachine :=
  match machine.place self with
  | .created data =>
      some { machine with
        registry := { machine.registry with traces := data :: machine.registry.traces }
        place := Function.update machine.place self .outside
        held := Function.update machine.held self (some data.address) }
  | _ => none

/-- `kieker_trace_remove`, which is given a pointer to an object in the map. -/
def remove (machine : LookupMachine) (self : PthreadSelf) : Option LookupMachine :=
  match machine.place self with
  | .outside => do
      let address ← machine.held self
      let _ ← machine.registry.deref address
      some { machine with
        registry := machine.registry.traceRemove address
        held := Function.update machine.held self none }
  | _ => none

/-- One turn of one thread. -/
def turn (kernel : Kernel) (machine : LookupMachine) : LookupTurn → Option LookupMachine
  | .find self => machine.find self
  | .create self => machine.create kernel self
  | .add self => machine.add self
  | .remove self => machine.remove self

end LookupMachine

end Kieker
