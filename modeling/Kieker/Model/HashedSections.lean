import Kieker.Library.ByteOrder
import Kieker.Model.Sections
import Kieker.Model.UtHash

/-!
# The trace map as a hash table

`kieker_trace.c` once more, section by section, with the map as the hash table
that it is. `kieker_traces` points to the first trace object, the objects carry
the handles, and the key of an object is its `thread_id`. The list of
`LookupMachine` is what this table stands for.
-/

namespace Kieker

/-- The bytes of an `int`, as `HASH_ADD_INT` and `HASH_FIND_INT` read them. -/
def intKey (value : ℤ) : List UInt8 :=
  ByteOrder.littleEndian 4 (toUInt32 value)

/-- The variables of `kieker_trace.c`, its objects, and the threads that use them. -/
structure HashedMachine where
  /-- `kieker_traces`. -/
  kiekerTraces : Option ℕ
  /-- The handles in the objects, and the tables. -/
  hash : HashMemory
  /-- The other members of the objects. -/
  object : ℕ → Option KiekerTrace
  /-- `kieker_trace_current_id`. -/
  currentId : ℤ
  /-- How many trace objects were allocated. -/
  allocated : ℕ
  place : PthreadSelf → LookupPlace
  /-- The object that the thread was given last, until the thread removes it. -/
  held : PthreadSelf → Option ℕ

namespace HashedMachine

/-- No thread has a trace. -/
def start (currentId : ℤ) : HashedMachine where
  kiekerTraces := none
  hash := .empty
  object _ := none
  currentId := currentId
  allocated := 0
  place _ := .outside
  held _ := none

/-- `kieker_trace_find`, with the lock held. -/
def find (fuel : ℕ) (machine : HashedMachine) (self : PthreadSelf) : Option HashedMachine :=
  match machine.place self with
  | .outside => do
      match ← hashFind hashJen fuel machine.hash machine.kiekerTraces (intKey (threadIdOf self)) with
      | some data => some { machine with held := Function.update machine.held self (some data) }
      | none => some { machine with place := Function.update machine.place self .missed }
  | _ => none

/--
`malloc`, `kieker_trace_get_next_id` and `kieker_trace_create`. The handle of the new
object is what `malloc` leaves there.
-/
def create (kernel : Kernel) (leftover : ℕ → UTHashHandle) (machine : HashedMachine)
    (self : PthreadSelf) : Option HashedMachine :=
  match machine.place self with
  | .missed =>
      let address := machine.allocated
      let data := TraceRegistry.traceCreate kernel address (threadIdOf self) machine.currentId
      some { machine with
        hash := machine.hash.malloc address (leftover address)
        object := Function.update machine.object address (some data)
        currentId := machine.currentId + 1
        allocated := address + 1
        place := Function.update machine.place self (.created data) }
  | _ => none

/-- `HASH_ADD_INT`, with the lock held. -/
def add (fuel : ℕ) (machine : HashedMachine) (self : PthreadSelf) : Option HashedMachine :=
  match machine.place self with
  | .created data => do
      let (head, hash) ← hashAddKeyptr hashJen fuel machine.hash machine.kiekerTraces
        (intKey data.threadId) data.address
      some { machine with
        kiekerTraces := some head
        hash := hash
        place := Function.update machine.place self .outside
        held := Function.update machine.held self (some data.address) }
  | _ => none

/-- `kieker_trace_remove`, for the object that the thread was given. -/
def remove (machine : HashedMachine) (self : PthreadSelf) : Option HashedMachine :=
  match machine.place self with
  | .outside => do
      let address ← machine.held self
      let (kiekerTraces, hash) ← hashDelete machine.hash machine.kiekerTraces address
      some { machine with
        kiekerTraces := kiekerTraces
        hash := hash.free address
        object := Function.update machine.object address none
        held := Function.update machine.held self none }
  | _ => none

/-- One turn of one thread. -/
def turn (kernel : Kernel) (leftover : ℕ → UTHashHandle) (fuel : ℕ) (machine : HashedMachine) :
    LookupTurn → Option HashedMachine
  | .find self => machine.find fuel self
  | .create self => machine.create kernel leftover self
  | .add self => machine.add fuel self
  | .remove self => machine.remove self

end HashedMachine

end Kieker
