import Kieker.Connection.Failures
import Kieker.Probes.Controlflow

/-!
# Execution records on the wire

The controlflow aspect serialises an execution record into the buffer of a trace
and passes the length on to `kieker_controller_send`, which takes that many bytes
from the buffer of the controller. So the record does not reach the connection:
what does are bytes that earlier calls left behind, without a type id and without
a logging timestamp.
-/

namespace Kieker

/-- The name under which execution records have to be registered. -/
def executionType : CString :=
  .literal "kieker.common.record.controlflow.OperationExecutionRecord"

/-- The library with another content of `kieker_controller.buffer`. -/
def Library.withBuffer (library : Library) (block : Block) : Library :=
  { library with channel := library.channel.setBuffer block }

variable {kernel : Kernel} {library after : Library} {known : List CString} {hostname : CString}
  {trace : ℕ} {record : OperationExecutionRecord}

/--
Apart from the registry entries for new strings, the call writes one complete entry
for the record: a type id that is registered for execution records, a logging
timestamp, and the eight members.
-/
def SendsExecution (kernel : Kernel) (known : List CString) (trace : ℕ)
    (record : OperationExecutionRecord) (library : Library) : Prop :=
  let table := Interning.internAll known (Field.stringsAll record.fields)
  ∃ (after : Library) (calls : List Syscall) (id : ℕ) (timestamp : ℤ),
    probeAspectControlflowAfter2 kernel trace record library = some after ∧
    after.channel.world.log = library.channel.world.log ++ calls ∧
    table[id]? = some executionType ∧
    offeredTo library.channel.controller.socket calls =
      (registryPieces known (Field.stringsAll record.fields)).flatten ++
        (int32Bytes id ++ int64Bytes timestamp ++ Field.bytesAll table record.fields)

/-- The call writes the same whatever `kieker_controller.buffer` contained. -/
def IgnoresBuffer (kernel : Kernel) (trace : ℕ) (record : OperationExecutionRecord)
    (library : Library) : Prop :=
  ∀ (first second : Block), first.size = bufferSize → second.size = bufferSize →
    ∀ afterFirst afterSecond,
      probeAspectControlflowAfter2 kernel trace record (library.withBuffer first) =
        some afterFirst →
      probeAspectControlflowAfter2 kernel trace record (library.withBuffer second) =
        some afterSecond →
      afterFirst.channel.world.log = afterSecond.channel.world.log

/-- The last write of the call passes on what the buffer contained before. -/
theorem probeAspectControlflowAfter2_log (idle : library.Idle known hostname)
    (done : probeAspectControlflowAfter2 kernel trace record library = some after) :
    Usable known (Field.stringsAll record.fields) ∧
      ∃ block, library.channel.controller.buffer = some block ∧
        after.channel.world.log = kernel.offerAll library.channel.controller.socket
          library.channel.world.log (registryPieces known (Field.stringsAll record.fields) ++
            [block.bytesFrom 0 44]) := by
  simp only [probeAspectControlflowAfter2, Option.bind_eq_bind, Option.bind_eq_some_iff,
    Option.some.injEq] at done
  rcases done with ⟨data, -, ⟨buffer, sent⟩, sends, _, -, rfl⟩
  rcases probeAspectControlflowSend_eq_some idle.ready sends with ⟨usable, -, -, -, leftovers⟩
  exact ⟨usable, leftovers⟩

theorem Library.Idle.withBuffer (idle : library.Idle known hostname) {block : Block}
    (size : block.size = bufferSize) : (library.withBuffer block).Idle known hostname where
  ready := ⟨⟨idle.ready.holds, idle.ready.ready⟩, block, rfl, size⟩
  named := idle.named
  wellFormed := idle.wellFormed

/-- Whether the call is defined does not depend on what the buffer contained. -/
theorem probeAspectControlflowAfter2_withBuffer (idle : library.Idle known hostname)
    (done : probeAspectControlflowAfter2 kernel trace record library = some after) {block : Block}
    (size : block.size = bufferSize) :
    ∃ other, probeAspectControlflowAfter2 kernel trace record (library.withBuffer block) =
      some other := by
  simp only [probeAspectControlflowAfter2, Option.bind_eq_bind, Option.bind_eq_some_iff,
    Option.some.injEq] at done
  rcases done with ⟨data, found, ⟨buffer, sent⟩, sends, later, laterFound, -⟩
  rcases probeAspectControlflowSend_eq_some idle.ready sends with ⟨usable, room, -⟩
  rcases TraceRegistry.mem_of_deref found with ⟨inMap, rfl⟩
  exact probeAspectControlflowAfter2_isSome kernel (idle.withBuffer size) inMap usable room

/-- No execution record is ever sent as a complete entry. -/
theorem not_sendsExecution (idle : library.Idle known hostname) :
    ¬SendsExecution kernel known trace record library := by
  rintro ⟨after, calls, id, timestamp, done, logEq, -, sent⟩
  rcases (probeAspectControlflowAfter2_log idle done).2 with ⟨block, -, leftovers⟩
  rw [Kernel.offerAll_eq_append, logEq] at leftovers
  rw [List.append_cancel_left leftovers, Kernel.offeredTo_offers, List.flatten_append,
    List.flatten_singleton] at sent
  -- The record alone has 44 bytes, a complete entry has 12 more in front.
  have lengths := congrArg List.length (List.append_cancel_left sent)
  have width : Field.widthAll record.fields = 44 := rfl
  simp [width] at lengths

/-- A buffer of the controller that is full of one byte. -/
def filledBlock (byte : UInt8) : Block := ⟨bufferSize, fun _ => byte⟩

/-- Whenever the call is defined, what it writes depends on what was left in the buffer. -/
theorem not_ignoresBuffer (idle : library.Idle known hostname)
    (done : probeAspectControlflowAfter2 kernel trace record library = some after) :
    ¬IgnoresBuffer kernel trace record library := by
  intro ignores
  have size : ∀ byte, (filledBlock byte).size = bufferSize := fun _ => rfl
  have writes : ∀ byte, ∃ other,
      probeAspectControlflowAfter2 kernel trace record (library.withBuffer (filledBlock byte)) =
        some other ∧
      other.channel.world.log = kernel.offerAll library.channel.controller.socket
        library.channel.world.log (registryPieces known (Field.stringsAll record.fields) ++
          [(filledBlock byte).bytesFrom 0 44]) := by
    intro byte
    rcases probeAspectControlflowAfter2_withBuffer idle done (size byte) with ⟨other, otherDone⟩
    rcases (probeAspectControlflowAfter2_log (idle.withBuffer (size byte)) otherDone).2 with
      ⟨block, blockEq, logEq⟩
    have isFilled : filledBlock byte = block := Option.some.inj blockEq
    rw [← isFilled] at logEq
    exact ⟨other, otherDone, logEq⟩
  rcases writes 0 with ⟨first, firstDone, firstLog⟩
  rcases writes 1 with ⟨second, secondDone, secondLog⟩
  have same := ignores (filledBlock 0) (filledBlock 1) rfl rfl first second firstDone secondDone
  rw [firstLog, secondLog, Kernel.offerAll_eq_append, Kernel.offerAll_eq_append] at same
  have offered := congrArg (offeredTo library.channel.controller.socket)
    (List.append_cancel_left same)
  rw [Kernel.offeredTo_offers, Kernel.offeredTo_offers, List.flatten_append,
    List.flatten_append] at offered
  have leftovers := List.append_cancel_left offered
  exact absurd leftovers (by decide)

/--
The record given to `kieker_probe_aspect_controlflow_after2` never reaches the
connection, and what is written in its place is what earlier calls left behind.
-/
theorem controlflow_sends_leftovers (idle : library.Idle known hostname) :
    ¬SendsExecution kernel known trace record library ∧
      ∀ after, probeAspectControlflowAfter2 kernel trace record library = some after →
        ¬IgnoresBuffer kernel trace record library :=
  ⟨not_sendsExecution idle, fun _ done => not_ignoresBuffer idle done⟩

/-- An operation as the controlflow aspect measures it. -/
def measured : OperationExecutionRecord where
  operationSignature := .literal "int main()"
  sessionId := .literal "<no session>"
  traceId := 0
  tin := 0
  tout := 0
  hostname := .literal "host"
  eoi := 0
  ess := 1

/-- A thread has entered an operation, and can leave it again with the record. -/
private theorem exists_measured :
    ∃ initialized address execution library after,
      controllerInitialize Kernel.accepting StartUp.smooth Library.initial = some initialized ∧
      probeAspectControlflowBefore Kernel.accepting 0 initialized =
        some (address, execution, library) ∧
      library.Idle (Interning.internAll [] eventTypes) (.literal "host") ∧
      probeAspectControlflowAfter2 Kernel.accepting address measured library = some after := by
  rcases exists_idle Kernel.accepting with ⟨initialized, done, idle, noTraces⟩
  rcases probeAspectControlflowBefore_eq Kernel.accepting 0 idle with
    ⟨library, enters, sameMap, enteredIdle⟩
  have usable : Usable (Interning.internAll [] eventTypes) (Field.stringsAll measured.fields) := by
    have short : ∀ string ∈ Field.stringsAll measured.fields, string.Fits := by decide
    exact fun string string_mem => Or.inr (short string string_mem)
  have new : initialized.registry.current Kernel.accepting 0 =
      TraceRegistry.traceCreate Kernel.accepting initialized.registry.allocated (threadIdOf 0)
        initialized.registry.currentId := by
    apply TraceRegistry.current_of_notMem
    rw [noTraces]
    exact fun _ inMap => absurd inMap List.not_mem_nil
  have inMap : (initialized.registry.current Kernel.accepting 0).enter ∈
      library.registry.traces := by
    rw [sameMap, TraceRegistry.mem_entering idle.wellFormed]
    exact Or.inl rfl
  have room : 44 ≤ (initialized.registry.current Kernel.accepting 0).enter.buffer.size := by
    rw [new]
    change 44 ≤ 1024
    norm_num
  rcases probeAspectControlflowAfter2_isSome Kernel.accepting enteredIdle inMap usable room with
    ⟨after, sends⟩
  exact ⟨initialized, _, _, library, after, done, enters, enteredIdle, sends⟩

theorem controlflow_sends_leftovers_measured :
    ∃ initialized address execution library after,
      controllerInitialize Kernel.accepting StartUp.smooth Library.initial = some initialized ∧
      probeAspectControlflowBefore Kernel.accepting 0 initialized =
        some (address, execution, library) ∧
      probeAspectControlflowAfter2 Kernel.accepting address measured library = some after ∧
      ¬IgnoresBuffer Kernel.accepting address measured library := by
  rcases exists_measured with
    ⟨initialized, address, execution, library, after, done, enters, idle, sends⟩
  exact ⟨initialized, address, execution, library, after, done, enters, sends,
    (controlflow_sends_leftovers idle).2 after sends⟩

/-- A thread enters and leaves one operation: the record of it is not what is sent. -/
theorem measured_not_sent :
    ∃ initialized address execution library after,
      controllerInitialize Kernel.accepting StartUp.smooth Library.initial = some initialized ∧
      probeAspectControlflowBefore Kernel.accepting 0 initialized =
        some (address, execution, library) ∧
      probeAspectControlflowAfter2 Kernel.accepting address measured library = some after ∧
      ¬SendsExecution Kernel.accepting (Interning.internAll [] eventTypes) address measured
        library := by
  rcases exists_measured with
    ⟨initialized, address, execution, library, after, done, enters, idle, sends⟩
  exact ⟨initialized, address, execution, library, after, done, enters, sends,
    not_sendsExecution idle⟩

end Kieker
