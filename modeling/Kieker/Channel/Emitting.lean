import Kieker.Channel.Building

/-!
# What a probe call emits

A probe call builds some records, and sends them unless the filter excludes the
class. Its `Emission` says which records these are; `Channel.Emits` says what
the call then does to the channel, as a function of the emission and of the
strings in the table.
-/

namespace Kieker

/-- The records that a probe call builds, and whether it sends them. -/
structure Emission where
  built : List Logged
  isSent : Bool

namespace Emission

/-- The records that are sent. -/
def records (emission : Emission) : List Logged :=
  if emission.isSent then emission.built else []

/-- The strings that are used, in order. -/
def strings (emission : Emission) : List CString :=
  Logged.stringsAll emission.built

/-- What is offered to the socket: announcements of new strings, then the records in one piece. -/
def pieces (known : List CString) (emission : Emission) : List (List UInt8) :=
  registryPieces known emission.strings ++
    if emission.isSent then
      [Logged.bytesAll (Interning.internAll known emission.strings) emission.built]
    else []

end Emission

namespace Channel

/-- What a probe call with a given emission does to the channel. -/
structure Emits (kernel : Kernel) (before after : Channel) (known : List CString)
    (emission : Emission) : Prop where
  ready : after.Ready (Interning.internAll known emission.strings)
  usable : Usable known emission.strings
  log : after.world.log =
    kernel.offerAll before.controller.socket before.world.log (emission.pieces known)
  clockReads : after.world.clockReads =
    before.world.clockReads + Logged.clockReadsAll emission.built
  controller : after.controller =
    { before.controller with
      buffer := after.controller.buffer
      stringBuffer := after.controller.stringBuffer
      error := after.controller.error
      initState := after.controller.initState }
  initState : after.controller.initState =
    if kernel.refuses before.controller.socket before.world.log.length
        (registryPieces known emission.strings)
    then .failed else before.controller.initState

variable {kernel : Kernel} {before middle after : Channel} {known : List CString}
  {emission : Emission} {built : List Logged}

namespace Emits

theorem socket (emits : Emits kernel before after known emission) :
    after.controller.socket = before.controller.socket := by
  rw [emits.controller]

theorem localHostname (emits : Emits kernel before after known emission) :
    after.controller.localHostname = before.controller.localHostname := by
  rw [emits.controller]

theorem refl (ready : before.Ready known) : Emits kernel before before known ⟨[], false⟩ where
  ready := ready
  usable := by simp [Usable, Emission.strings, Logged.stringsAll, Logged.membersAll,
    Field.stringsAll]
  log := rfl
  clockReads := rfl
  controller := rfl
  initState := rfl

end Emits

namespace Builds

theorem emits_unsent (ready : before.Ready known)
    (builds : Builds kernel before after known 0 (Logged.membersAll built))
    (reads : after.world.clockReads = before.world.clockReads + Logged.clockReadsAll built) :
    Emits kernel before after known ⟨built, false⟩ where
  ready := builds.ready ready
  usable := builds.usable
  log := by
    rw [builds.log]
    simp [Emission.pieces, Emission.strings, Logged.stringsAll]
  clockReads := reads
  controller := builds.controller
  initState := builds.initState

/-- Sending what was built from the front of the buffer offers exactly its bytes. -/
theorem controllerSend_eq
    (builds : Builds kernel before middle known 0 (Logged.membersAll built)) :
    controllerSend kernel (Field.widthAll (Logged.membersAll built)) middle =
      some (middle.transmit kernel
        (Logged.bytesAll (Interning.internAll known (Logged.stringsAll built)) built)) := by
  rcases builds.buffer with ⟨old, new, -, newEq, grown⟩
  have room := grown.room
  have front := grown.front
  rw [Field.length_bytesAll, Nat.zero_add] at room front
  rw [controllerSend_of_fits newEq (by rw [grown.size]; exact room), front]
  simp [Logged.bytesAll, Logged.stringsAll]

theorem emits_sent (ready : before.Ready known)
    (builds : Builds kernel before middle known 0 (Logged.membersAll built))
    (reads : middle.world.clockReads = before.world.clockReads + Logged.clockReadsAll built)
    (sent : controllerSend kernel (Field.widthAll (Logged.membersAll built)) middle =
      some after) :
    Emits kernel before after known ⟨built, true⟩ := by
  rw [builds.controllerSend_eq, Option.some.injEq] at sent
  subst sent
  have middleReady := builds.ready ready
  refine ⟨⟨⟨?_, ?_⟩, ?_⟩, builds.usable, ?_, ?_, ?_, ?_⟩
  · rw [lookup_transmit]
    exact middleReady.holds
  · rw [controller_transmit]
    exact middleReady.ready
  · rw [controller_transmit]
    exact middleReady.buffer
  · rw [world_transmit, builds.socket, builds.log]
    simp [Emission.pieces, Emission.strings, Logged.stringsAll, Kernel.offerAll_append]
  · rw [world_transmit]
    exact reads
  · rw [controller_transmit, builds.controller]
  · rw [controller_transmit]
    exact builds.initState

end Builds

end Channel

/-! ### The functions that create records -/

/-- The record that opens a trace, with its prefix written at a reading of the clock. -/
def metadataLogged (kernel : Kernel) (hostname : CString) (reading : ℕ) (trace : KiekerTrace) :
    Logged where
  timestamp := timeAt kernel reading
  record := .traceMetadata (traceMetadataOf hostname trace)

/-- The record of entering an operation, timed at a reading of the clock and written at the next. -/
def beforeLogged (kernel : Kernel) (reading : ℕ) (trace : KiekerTrace)
    (classSignature operationSignature : CString) : Logged where
  timestamp := timeAt kernel (reading + 1)
  record := .beforeOperationEvent
    (operationEventOf (timeAt kernel reading) trace classSignature operationSignature)

/-- The record of leaving an operation, timed at a reading of the clock and written at the next. -/
def afterLogged (kernel : Kernel) (reading : ℕ) (trace : KiekerTrace)
    (classSignature operationSignature : CString) : Logged where
  timestamp := timeAt kernel (reading + 1)
  record := .afterOperationEvent
    (operationEventOf (timeAt kernel reading) trace classSignature operationSignature)

/-- The record that a probe builds first if the trace is new. -/
def openingLogged (kernel : Kernel) (hostname : CString) (reading : ℕ) (trace : KiekerTrace) :
    List Logged :=
  if trace.orderIndex = -1 then [metadataLogged kernel hostname reading trace] else []

variable {kernel : Kernel} {channel after : Channel} {known : List CString} {hostname : CString}
  {trace : KiekerTrace} {position next : ℕ}

theorem probeCreateTraceMetadata_eq (named : channel.controller.localHostname = some hostname) :
    probeCreateTraceMetadata kernel position trace channel =
      buildRecord kernel flowTraceMetadata (traceMetadataOf hostname trace).fields position
        channel := by
  rw [probeCreateTraceMetadata, named]
  rfl

/-- What building one record says about the channel. -/
def Created (kernel : Kernel) (channel after : Channel) (known : List CString)
    (position next : ℕ) (built : List Logged) : Prop :=
  next = position + Field.widthAll (Logged.membersAll built) ∧
    after.world.clockReads = channel.world.clockReads + Logged.clockReadsAll built ∧
    Channel.Builds kernel channel after known position (Logged.membersAll built)

theorem Created.trans {middle : Channel} {first : ℕ} {built more : List Logged}
    (opening : Created kernel channel middle known position first built)
    (rest : Created kernel middle after
      (Interning.internAll known (Logged.stringsAll built)) first next more) :
    Created kernel channel after known position next (built ++ more) := by
  rcases opening with ⟨rfl, reads, builds⟩
  rcases rest with ⟨rfl, moreReads, moreBuilds⟩
  refine ⟨?_, ?_, ?_⟩
  · simp [Logged.membersAll, Field.widthAll]
    omega
  · rw [moreReads, reads]
    simp [Logged.clockReadsAll]
    omega
  · rw [Logged.membersAll_append]
    exact builds.trans moreBuilds

/-- What was built from the front of the buffer can be sent. -/
theorem Created.sends {built : List Logged}
    (created : Created kernel channel after known 0 next built) :
    ∃ sent, controllerSend kernel next after = some sent := by
  rcases created with ⟨rfl, _, builds⟩
  rw [Nat.zero_add]
  exact ⟨_, builds.controllerSend_eq⟩

theorem Created.emits {middle : Channel} {built : List Logged} (ready : channel.Ready known)
    (created : Created kernel channel middle known 0 next built)
    (sends : controllerSend kernel next middle = some after) :
    Channel.Emits kernel channel after known ⟨built, true⟩ := by
  rcases created with ⟨rfl, reads, builds⟩
  rw [Nat.zero_add] at sends
  exact builds.emits_sent ready reads sends

theorem probeCreateTraceMetadata_eq_some (serves : channel.Serves known)
    (named : channel.controller.localHostname = some hostname)
    (done : probeCreateTraceMetadata kernel position trace channel = some (next, after)) :
    Created kernel channel after known position next
      [metadataLogged kernel hostname channel.world.clockReads trace] := by
  rw [probeCreateTraceMetadata_eq named] at done
  rcases buildRecord_eq_some serves done with ⟨nextEq, reads, builds⟩
  refine ⟨?_, reads, ?_⟩
  · rw [nextEq]
    simp [Logged.membersAll, Logged.members, metadataLogged, Record.fields, Field.widthAll,
      Field.width]
    omega
  · simpa [Logged.membersAll, Logged.members, metadataLogged, Record.fields, Record.flowId]
      using builds

private theorem created_event {id : ℤ} (event : ℤ → Record) {logged : Logged}
    (serves : channel.Serves known)
    (shape : logged = ⟨timeAt kernel (channel.world.clockReads + 1),
      event (timeAt kernel channel.world.clockReads)⟩)
    (flow : logged.record.flowId = id) (twoReads : logged.record.clockReads = 2)
    (done : buildRecord kernel id logged.record.fields position
      (controllerGetTimeMs kernel channel).2 = some (next, after)) :
    Created kernel channel after known position next [logged] := by
  have stillServes : (controllerGetTimeMs kernel channel).2.Serves known :=
    ⟨serves.holds, serves.ready⟩
  rcases buildRecord_eq_some stillServes done with ⟨nextEq, reads, builds⟩
  have timestamp : logged.timestamp = timeAt kernel (channel.world.clockReads + 1) := by
    rw [shape]
  refine ⟨?_, ?_, ?_⟩
  · rw [nextEq]
    simp [Logged.membersAll, Logged.members, Field.widthAll, Field.width]
    omega
  · rw [reads]
    simp [Logged.clockReadsAll, twoReads, controllerGetTimeMs]
  · have members : Logged.membersAll [logged] =
        .int32 id :: .int64 (timeAt kernel (channel.world.clockReads + 1)) ::
          logged.record.fields := by
      simp [Logged.membersAll, Logged.members, flow, timestamp]
    rw [members]
    exact ⟨builds.serves, builds.usable, builds.log, builds.controller, builds.initState,
      builds.buffer⟩

theorem probeCreateBeforeOperationEvent_eq_some (serves : channel.Serves known)
    {classSignature operationSignature : CString}
    (done : probeCreateBeforeOperationEvent kernel position trace classSignature operationSignature
      channel = some (next, after)) :
    Created kernel channel after known position next
      [beforeLogged kernel channel.world.clockReads trace classSignature operationSignature] :=
  created_event (fun timestamp => .beforeOperationEvent
    (operationEventOf timestamp trace classSignature operationSignature)) serves rfl rfl rfl done

theorem probeCreateAfterOperationEvent_eq_some (serves : channel.Serves known)
    {classSignature operationSignature : CString}
    (done : probeCreateAfterOperationEvent kernel position trace classSignature operationSignature
      channel = some (next, after)) :
    Created kernel channel after known position next
      [afterLogged kernel channel.world.clockReads trace classSignature operationSignature] :=
  created_event (fun timestamp => .afterOperationEvent
    (operationEventOf timestamp trace classSignature operationSignature)) serves rfl rfl rfl done

/-! ### Records that can be built -/

theorem probeCreateTraceMetadata_isSome (kernel : Kernel) (position : ℕ) (trace : KiekerTrace)
    (ready : channel.Ready known) (named : channel.controller.localHostname = some hostname)
    (fits : hostname.Fits)
    (room : position ≤ 8000) :
    ∃ result, probeCreateTraceMetadata kernel position trace channel = some result := by
  rw [probeCreateTraceMetadata_eq named]
  apply buildRecord_isSome kernel _ _ _ ready
  · intro string string_mem
    right
    have cases : string = .literal "<no-session>" ∨ string = hostname := by
      simpa [TraceMetadata.fields, traceMetadataOf, Field.stringsAll, Field.strings]
        using string_mem
    rcases cases with rfl | rfl
    · decide
    · exact fits
  · simp [TraceMetadata.fields, Field.widthAll, Field.width, bufferSize]
    omega

theorem operationEvent_usable {event : OperationEvent} (operationFits : event.operationSignature.Fits)
    (classFits : event.classSignature.Fits) : Usable known (Field.stringsAll event.fields) := by
  intro string string_mem
  right
  have cases : string = event.operationSignature ∨ string = event.classSignature := by
    simpa [OperationEvent.fields, Field.stringsAll, Field.strings] using string_mem
  rcases cases with rfl | rfl
  · exact operationFits
  · exact classFits

private theorem event_isSome (kernel : Kernel) (position : ℕ) (ready : channel.Ready known)
    {id : ℤ} {event : OperationEvent} (operationFits : event.operationSignature.Fits)
    (classFits : event.classSignature.Fits)
    (room : position ≤ 8000) :
    ∃ result, buildRecord kernel id event.fields position (controllerGetTimeMs kernel channel).2 =
      some result := by
  have stillReady : (controllerGetTimeMs kernel channel).2.Ready known :=
    ⟨⟨ready.holds, ready.ready⟩, ready.buffer⟩
  apply buildRecord_isSome kernel _ _ _ stillReady (operationEvent_usable operationFits classFits)
  simp [OperationEvent.fields, Field.widthAll, Field.width, bufferSize]
  omega

variable {classSignature operationSignature : CString}

theorem probeCreateBeforeOperationEvent_isSome (kernel : Kernel) (position : ℕ)
    (trace : KiekerTrace) (ready : channel.Ready known) (classFits : classSignature.Fits)
    (operationFits : operationSignature.Fits)
    (room : position ≤ 8000) :
    ∃ result, probeCreateBeforeOperationEvent kernel position trace classSignature
      operationSignature channel = some result :=
  event_isSome kernel position ready operationFits classFits room

theorem probeCreateAfterOperationEvent_isSome (kernel : Kernel) (position : ℕ)
    (trace : KiekerTrace) (ready : channel.Ready known) (classFits : classSignature.Fits)
    (operationFits : operationSignature.Fits)
    (room : position ≤ 8000) :
    ∃ result, probeCreateAfterOperationEvent kernel position trace classSignature
      operationSignature channel = some result :=
  event_isSome kernel position ready operationFits classFits room

/-! ### The record in front of a new trace -/

theorem mem_openingLogged {reading : ℕ} {logged : Logged}
    (isBuilt : logged ∈ openingLogged kernel hostname reading trace) :
    logged = metadataLogged kernel hostname reading trace := by
  unfold openingLogged at isBuilt
  split at isBuilt
  · exact List.mem_singleton.mp isBuilt
  · cases isBuilt

theorem probeOpenTrace_eq_some (ready : channel.Ready known)
    (named : channel.controller.localHostname = some hostname)
    (done : probeOpenTrace kernel trace channel = some (next, after)) :
    Created kernel channel after known 0 next
      (openingLogged kernel hostname channel.world.clockReads trace) := by
  unfold probeOpenTrace at done
  by_cases new : trace.orderIndex = -1
  · rw [if_pos new] at done
    rw [openingLogged, if_pos new]
    exact probeCreateTraceMetadata_eq_some ready.toServes named done
  · rw [if_neg new, Option.some.injEq, Prod.mk.injEq] at done
    rcases done with ⟨rfl, rfl⟩
    rcases ready.buffer with ⟨block, allocated, _⟩
    rw [openingLogged, if_neg new]
    exact ⟨rfl, rfl, .refl ready.toServes allocated (Nat.zero_le _)⟩

theorem probeOpenTrace_isSome (kernel : Kernel) (trace : KiekerTrace)
    (ready : channel.Ready known) (named : channel.controller.localHostname = some hostname)
    (fits : hostname.Fits) :
    ∃ result, probeOpenTrace kernel trace channel = some result := by
  unfold probeOpenTrace
  by_cases new : trace.orderIndex = -1
  · rw [if_pos new]
    exact probeCreateTraceMetadata_isSome kernel 0 trace ready named fits (by omega)
  · exact ⟨_, if_neg new⟩

theorem widthAll_openingLogged_le (kernel : Kernel) (hostname : CString) (reading : ℕ)
    (trace : KiekerTrace) :
    Field.widthAll (Logged.membersAll (openingLogged kernel hostname reading trace)) ≤ 48 := by
  unfold openingLogged
  split
  · simpa [Logged.membersAll] using Logged.width_le (metadataLogged kernel hostname reading trace)
  · simp [Logged.membersAll, Field.widthAll]

end Kieker
