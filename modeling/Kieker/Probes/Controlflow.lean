import Kieker.Probes.Calls

/-!
# What the controlflow probes do

The controlflow aspect keeps its record in the application and counts the
operation in the trace of the thread; the record is serialised into a buffer of
the trace when the operation is left. Here is what each call does to the trace
map, and that the library stays ready for further calls.
-/

namespace Kieker

variable {kernel : Kernel} {self : PthreadSelf} {library after : Library} {known : List CString}
  {hostname : CString} {trace : KiekerTrace} {address : ℕ}

/-- What the aspect notes about an operation that is entered, counted in a trace. -/
def openExecutionOf (kernel : Kernel) (hostname : CString) (reading : ℕ) (trace : KiekerTrace) :
    OpenExecution where
  sessionId := .literal "<no session>"
  hostname := some hostname
  traceId := trace.traceId
  eoi := trace.orderIndex
  ess := trace.stack
  tin := timeAt kernel reading

/-- Entering an operation counts it in the current trace of the thread. -/
theorem probeAspectControlflowBefore_eq (kernel : Kernel) (self : PthreadSelf)
    (idle : library.Idle known hostname) :
    ∃ after, probeAspectControlflowBefore kernel self library =
        some ((library.registry.current kernel self).address,
          openExecutionOf kernel hostname library.channel.world.clockReads
            (library.registry.current kernel self).enter, after) ∧
      after.registry = library.registry.entering kernel self KiekerTrace.enter ∧
      after.Idle known hostname := by
  have keeps := TraceRegistry.keepsIdentity_enter
  refine ⟨{ library with
    channel := (controllerGetTimeMs kernel library.channel).2
    registry := library.registry.entering kernel self KiekerTrace.enter }, ?_, rfl, ?_⟩
  · simp only [probeAspectControlflowBefore, TraceRegistry.traceGet_fst,
      idle.wellFormed.deref_current keeps, controllerGetTimeMs, idle.named, Option.bind_eq_bind,
      Option.bind_some]
    rfl
  · exact ⟨⟨⟨idle.ready.holds, idle.ready.ready⟩, idle.ready.buffer⟩, idle.named,
      idle.wellFormed.entering keeps⟩

theorem probeAspectControlflowBefore_eq_some (idle : library.Idle known hostname)
    {execution : OpenExecution}
    (done : probeAspectControlflowBefore kernel self library = some (address, execution, after)) :
    address = (library.registry.current kernel self).address ∧
      execution = openExecutionOf kernel hostname library.channel.world.clockReads
        (library.registry.current kernel self).enter ∧
      after.registry = library.registry.entering kernel self KiekerTrace.enter ∧
      after.Idle known hostname := by
  rcases probeAspectControlflowBefore_eq kernel self idle with ⟨other, otherDone, kept⟩
  rw [otherDone, Option.some.injEq, Prod.mk.injEq, Prod.mk.injEq] at done
  rcases done with ⟨rfl, rfl, rfl⟩
  exact ⟨rfl, rfl, kept⟩

theorem probeAspectControlflowAfter_isSome (kernel : Kernel) (idle : library.Idle known hostname)
    (inMap : trace ∈ library.registry.traces) :
    ∃ result, probeAspectControlflowAfter kernel trace.address library = some result := by
  simp [probeAspectControlflowAfter, idle.wellFormed.deref_of_mem inMap]

theorem probeAspectControlflowAfter_eq_some (idle : library.Idle known hostname) {tout : ℤ}
    (done : probeAspectControlflowAfter kernel address library = some (tout, after)) :
    after.registry = library.registry.assign address KiekerTrace.pop ∧
      after.Idle known hostname := by
  simp only [probeAspectControlflowAfter, controllerGetTimeMs, Option.bind_eq_bind,
    Option.bind_eq_some_iff, Option.some.injEq, Prod.mk.injEq] at done
  rcases done with ⟨_, _, -, rfl⟩
  exact ⟨rfl, ⟨⟨idle.ready.holds, idle.ready.ready⟩, idle.ready.buffer⟩, idle.named,
    idle.wellFormed.assign _ TraceRegistry.keepsIdentity_pop⟩

/--
Serialising a record into a trace's buffer and sending keeps the channel ready.
What is sent are the first bytes of the controller's buffer, as they were.
-/
theorem probeAspectControlflowSend_eq_some {channel sent : Channel} (ready : channel.Ready known)
    {record : OperationExecutionRecord} {buffer stored : Block}
    (done : probeAspectControlflowSend kernel record buffer channel = some (stored, sent)) :
    Usable known (Field.stringsAll record.fields) ∧ 44 ≤ buffer.size ∧
      sent.Ready (Interning.internAll known (Field.stringsAll record.fields)) ∧
      sent.controller.localHostname = channel.controller.localHostname ∧
      ∃ block, channel.controller.buffer = some block ∧
        sent.world.log = kernel.offerAll channel.controller.socket channel.world.log
          (registryPieces known (Field.stringsAll record.fields) ++ [block.bytesFrom 0 44]) := by
  simp only [probeAspectControlflowSend, operationExecutionRecordSerialize, Option.bind_eq_bind,
    Option.bind_eq_some_iff, Option.some.injEq, Prod.mk.injEq] at done
  rcases done with ⟨⟨length, written, middle⟩, serialized, after, sends, -, rfl⟩
  rcases serializeFields_eq_some ready.toServes (Nat.zero_le _) serialized with
    ⟨position, usable, interns, grown⟩
  have length_eq : length = 44 := position
  rcases controllerSend_eq_some sends with ⟨block, blockEq, -, rfl⟩
  refine ⟨usable, ?_, ⟨⟨?_, ?_⟩, ?_⟩, ?_, block, ?_, ?_⟩
  · have room := grown.room
    rw [Field.length_bytesAll, Nat.zero_add] at room
    exact room
  · rw [Channel.lookup_transmit]
    exact interns.serves.holds
  · rw [Channel.controller_transmit]
    exact interns.serves.ready
  · rw [Channel.controller_transmit, interns.buffer]
    exact ready.buffer
  · rw [Channel.controller_transmit]
    exact interns.localHostname
  · rw [← interns.buffer, blockEq]
  · rw [Channel.world_transmit, interns.socket, interns.log, Kernel.offerAll_append, length_eq]
    rfl

/-- A record whose strings can be used is serialised and something is sent. -/
theorem probeAspectControlflowSend_isSome (kernel : Kernel) {channel : Channel}
    (ready : channel.Ready known) {record : OperationExecutionRecord} {buffer : Block}
    (usable : Usable known (Field.stringsAll record.fields)) (room : 44 ≤ buffer.size) :
    ∃ result, probeAspectControlflowSend kernel record buffer channel = some result := by
  have enough : 0 + Field.widthAll record.fields ≤ buffer.size := room
  rcases serializeFields_isSome kernel record.fields buffer 0 ready.toServes usable enough with
    ⟨⟨length, written, middle⟩, serialized⟩
  rcases serializeFields_eq_some ready.toServes (Nat.zero_le _) serialized with
    ⟨position, -, interns, -⟩
  have length_eq : length = 44 := position
  rcases ready.buffer with ⟨block, allocated, size⟩
  rw [← interns.buffer] at allocated
  have fits : length ≤ block.size := by
    rw [size, length_eq]
    decide
  have sends : controllerSend kernel length middle = _ := controllerSend_of_fits allocated fits
  simp [probeAspectControlflowSend, operationExecutionRecordSerialize, serialized, sends]

/-- A record whose strings can be used is sent if it fits into the buffer of its trace. -/
theorem probeAspectControlflowAfter2_isSome (kernel : Kernel) (idle : library.Idle known hostname)
    (inMap : trace ∈ library.registry.traces) {record : OperationExecutionRecord}
    (usable : Usable known (Field.stringsAll record.fields)) (room : 44 ≤ trace.buffer.size) :
    ∃ after, probeAspectControlflowAfter2 kernel trace.address record library = some after := by
  rcases probeAspectControlflowSend_isSome kernel idle.ready usable room with
    ⟨⟨stored, sent⟩, sends⟩
  have keeps : TraceRegistry.KeepsIdentity fun data => { data with buffer := stored } :=
    ⟨fun _ => rfl, fun _ => rfl, fun _ => rfl⟩
  have stillFound := idle.wellFormed.deref_assign keeps inMap
  simp [probeAspectControlflowAfter2, idle.wellFormed.deref_of_mem inMap, sends, stillFound]

/-- The trace that is given is one in the map. -/
theorem probeAspectControlflowAfter2_found {record : OperationExecutionRecord}
    (done : probeAspectControlflowAfter2 kernel address record library = some after) :
    ∃ trace ∈ library.registry.traces, trace.address = address := by
  rw [probeAspectControlflowAfter2, Option.bind_eq_bind, Option.bind_eq_some_iff] at done
  rcases done with ⟨trace, found, -⟩
  exact ⟨trace, TraceRegistry.mem_of_deref found⟩

theorem probeAspectControlflowAfter2_eq_some (idle : library.Idle known hostname)
    (inMap : trace ∈ library.registry.traces) {record : OperationExecutionRecord}
    (done : probeAspectControlflowAfter2 kernel trace.address record library = some after) :
    ∃ buffer known, after.registry = library.registry.leaving trace.address
        (fun data => { data with buffer := buffer }) (-1) trace ∧
      after.Idle known hostname := by
  have keeps : ∀ buffer : Block, TraceRegistry.KeepsIdentity fun data =>
      { data with buffer := buffer } :=
    fun _ => ⟨fun _ => rfl, fun _ => rfl, fun _ => rfl⟩
  simp only [probeAspectControlflowAfter2, idle.wellFormed.deref_of_mem inMap,
    Option.bind_eq_bind, Option.bind_some, Option.bind_eq_some_iff] at done
  rcases done with ⟨⟨buffer, sent⟩, sends, data, found, same⟩
  rw [idle.wellFormed.deref_assign (keeps buffer) inMap, Option.some.injEq] at found
  subst found
  rw [Option.some.injEq] at same
  subst same
  rcases probeAspectControlflowSend_eq_some idle.ready sends with ⟨-, -, ready, named, -⟩
  exact ⟨buffer, _, rfl, ready, named.trans idle.named, idle.wellFormed.leaving (keeps buffer)⟩

end Kieker
