import Kieker.Channel.Serializing
import Kieker.Model.Probes

/-!
# Building and sending records

A probe builds one or two records from the front of the shared buffer and then
sends what it built. Building performs the uses of strings that the records make;
sending offers the bytes of all records that were built, in one piece.
-/

namespace Kieker

/-- A record that a probe builds. -/
inductive Record where
  | traceMetadata (value : TraceMetadata)
  | beforeOperationEvent (value : OperationEvent)
  | afterOperationEvent (value : OperationEvent)
  deriving DecidableEq

namespace Record

/-- The type id in front of a record. -/
def flowId : Record → ℤ
  | .traceMetadata _ => flowTraceMetadata
  | .beforeOperationEvent _ => flowBeforeOperation
  | .afterOperationEvent _ => flowAfterOperation

/-- The members of a record that are serialised, in order. -/
def fields : Record → List Field
  | .traceMetadata value => value.fields
  | .beforeOperationEvent value => value.fields
  | .afterOperationEvent value => value.fields

/-- The trace that a record belongs to. -/
def traceId : Record → ℤ
  | .traceMetadata value => value.traceId
  | .beforeOperationEvent value => value.traceId
  | .afterOperationEvent value => value.traceId

/-- How often the clock is read for a record: for its prefix, and for the time of an event. -/
def clockReads : Record → ℕ
  | .traceMetadata _ => 1
  | .beforeOperationEvent _ => 2
  | .afterOperationEvent _ => 2

end Record

/-- A record with the logging timestamp in its prefix. -/
structure Logged where
  timestamp : ℤ
  record : Record
  deriving DecidableEq

namespace Logged

/-- Everything serialised for a record: its prefix and its members. -/
def members (logged : Logged) : List Field :=
  .int32 logged.record.flowId :: .int64 logged.timestamp :: logged.record.fields

/-- Everything serialised for some records. -/
def membersAll (built : List Logged) : List Field :=
  built.flatMap members

/-- The strings that some records use, in order. -/
def stringsAll (built : List Logged) : List CString :=
  Field.stringsAll (membersAll built)

/-- The bytes of some records, given the table that their strings are in. -/
def bytesAll (table : List CString) (built : List Logged) : List UInt8 :=
  Field.bytesAll table (membersAll built)

/-- How often the clock is read for some records. -/
def clockReadsAll (built : List Logged) : ℕ :=
  (built.map fun logged => logged.record.clockReads).sum

theorem membersAll_append (front back : List Logged) :
    membersAll (front ++ back) = membersAll front ++ membersAll back := by
  simp [membersAll]

theorem width_le (logged : Logged) : Field.widthAll logged.members ≤ 48 := by
  rcases logged with ⟨timestamp, record⟩
  cases record <;>
    simp [members, Record.fields, TraceMetadata.fields, OperationEvent.fields, Field.widthAll,
      Field.width]

end Logged

namespace Channel

/-- The channel can serve strings, and the buffer is allocated. -/
structure Ready (channel : Channel) (known : List CString) : Prop extends channel.Serves known where
  buffer : ∃ block, channel.controller.buffer = some block ∧ block.size = bufferSize

/--
What serialising members behind the first `position` bytes of the buffer does:
the strings are used, the bytes stand in the buffer, and nothing else changes but
the clock, the string buffer and the error state.
-/
structure Builds (kernel : Kernel) (before after : Channel) (known : List CString)
    (position : ℕ) (members : List Field) : Prop where
  serves : after.Serves (Interning.internAll known (Field.stringsAll members))
  usable : Usable known (Field.stringsAll members)
  log : after.world.log = kernel.offerAll before.controller.socket before.world.log
    (registryPieces known (Field.stringsAll members))
  controller : after.controller =
    { before.controller with
      buffer := after.controller.buffer
      stringBuffer := after.controller.stringBuffer
      error := after.controller.error
      initState := after.controller.initState }
  initState : after.controller.initState =
    if kernel.refuses before.controller.socket before.world.log.length
        (registryPieces known (Field.stringsAll members))
    then .failed else before.controller.initState
  buffer : ∃ old new, before.controller.buffer = some old ∧ after.controller.buffer = some new ∧
    old.Extends new position
      (Field.bytesAll (Interning.internAll known (Field.stringsAll members)) members)

namespace Builds

variable {kernel : Kernel} {before middle after : Channel} {known : List CString} {position : ℕ}
  {members more : List Field}

theorem socket (builds : Builds kernel before after known position members) :
    after.controller.socket = before.controller.socket := by
  rw [builds.controller]

theorem ready (builds : Builds kernel before after known position members)
    (ready : before.Ready known) :
    after.Ready (Interning.internAll known (Field.stringsAll members)) where
  toServes := builds.serves
  buffer := by
    rcases ready.buffer with ⟨block, blockEq, size⟩
    rcases builds.buffer with ⟨old, new, oldEq, newEq, grown⟩
    rw [blockEq, Option.some.injEq] at oldEq
    exact ⟨new, newEq, by rw [grown.size, ← oldEq, size]⟩

theorem refl (serves : before.Serves known) {block : Block}
    (allocated : before.controller.buffer = some block) (room : position ≤ block.size) :
    Builds kernel before before known position [] where
  serves := serves
  usable := by simp [Usable, Field.stringsAll]
  log := rfl
  controller := rfl
  initState := rfl
  buffer := ⟨block, block, allocated, allocated, .refl room⟩

theorem trans (first : Builds kernel before middle known position members)
    (second : Builds kernel middle after
      (Interning.internAll known (Field.stringsAll members))
      (position + Field.widthAll members) more) :
    Builds kernel before after known position (members ++ more) := by
  have stringsEq : Field.stringsAll (members ++ more) =
      Field.stringsAll members ++ Field.stringsAll more := by simp [Field.stringsAll]
  have stable : Field.bytesAll (Interning.internAll known (Field.stringsAll (members ++ more)))
      members = Field.bytesAll (Interning.internAll known (Field.stringsAll members)) members := by
    rw [stringsEq, Interning.internAll_append]
    apply Field.bytesAll_of_prefix (Interning.prefix_internAll _ _)
    intro string string_mem
    exact Interning.mem_internAll.mpr (Or.inr string_mem)
  refine ⟨?_, ?_, ?_, ?_, ?_, ?_⟩
  · rw [stringsEq, Interning.internAll_append]
    exact second.serves
  · rw [stringsEq]
    exact first.usable.append second.usable
  · rw [second.log, first.socket, first.log, stringsEq, registryPieces_append,
      Kernel.offerAll_append]
  · rw [second.controller, first.controller]
  · rw [second.initState, first.initState, first.socket, first.log, stringsEq,
      registryPieces_append, Kernel.refuses_append, Kernel.length_offerAll]
    by_cases early : kernel.refuses before.controller.socket before.world.log.length
      (registryPieces known (Field.stringsAll members)) = true <;> simp [early]
  · rcases first.buffer with ⟨old, between, oldEq, betweenEq, grown⟩
    rcases second.buffer with ⟨between', new, betweenEq', newEq, grown'⟩
    rw [betweenEq, Option.some.injEq] at betweenEq'
    subst betweenEq'
    refine ⟨old, new, oldEq, newEq, ?_⟩
    have joined := grown.trans (by simpa using grown')
    rw [← stable, ← Interning.internAll_append, ← stringsEq] at joined
    simpa [Field.bytesAll] using joined

end Builds

end Channel

/-! ### Building one record -/

variable {kernel : Kernel} {channel after : Channel} {known : List CString}

theorem controllerPrefixSerialize_eq_some (serves : channel.Serves known) {id : ℤ}
    {position next : ℕ}
    (done : controllerPrefixSerialize kernel id position channel = some (next, after)) :
    next = position + 12 ∧ after.world.clockReads = channel.world.clockReads + 1 ∧
      Channel.Builds kernel channel after known position
        [.int32 id, .int64 (timeAt kernel channel.world.clockReads)] := by
  simp only [controllerPrefixSerialize, serializeInt32_eq, serializeInt64_eq, controllerGetTimeMs,
    Option.bind_eq_bind, Option.bind_eq_some_iff, Option.map_eq_some_iff, Option.some.injEq,
    Prod.mk.injEq] at done
  rcases done with ⟨block, allocated, ⟨_, written⟩, ⟨_, storesId, rfl, rfl⟩, ⟨_, stored⟩,
    ⟨_, storesTime, rfl, rfl⟩, rfl, rfl⟩
  refine ⟨rfl, rfl, ⟨serves.holds, serves.ready⟩, by simp [Usable, Field.stringsAll, Field.strings],
    rfl, rfl, rfl, block, stored, allocated, rfl, ?_⟩
  have grown := (Block.Extends.of_store storesId).trans
    (Block.Extends.of_store (by simpa using storesTime))
  simpa [Field.bytesAll, Field.bytes] using grown

/-- The common part of the functions that create a record: the prefix, and then the members. -/
def buildRecord (kernel : Kernel) (id : ℤ) (fields : List Field) (position : ℕ)
    (channel : Channel) : Option (ℕ × Channel) := do
  let (position, channel) ← controllerPrefixSerialize kernel id position channel
  let block ← channel.controller.buffer
  let (position, block, channel) ← serializeFields kernel fields block position channel
  some (position, channel.setBuffer block)

theorem buildRecord_eq_some (serves : channel.Serves known) {id : ℤ} {fields : List Field}
    {position next : ℕ}
    (done : buildRecord kernel id fields position channel = some (next, after)) :
    next = position + (12 + Field.widthAll fields) ∧
      after.world.clockReads = channel.world.clockReads + 1 ∧
      Channel.Builds kernel channel after known position
        (.int32 id :: .int64 (timeAt kernel channel.world.clockReads) :: fields) := by
  simp only [buildRecord, Option.bind_eq_bind, Option.bind_eq_some_iff, Option.some.injEq,
    Prod.mk.injEq] at done
  rcases done with ⟨⟨middle, between⟩, wrotePrefix, block, allocated, ⟨_, stored, sent⟩, wroteFields,
    rfl, rfl⟩
  rcases controllerPrefixSerialize_eq_some serves wrotePrefix with ⟨rfl, reads, prefixBuilds⟩
  have inside : position + 12 ≤ block.size := by
    rcases prefixBuilds.buffer with ⟨_, new, _, newEq, grown⟩
    rw [allocated, Option.some.injEq] at newEq
    have room := grown.room
    rw [Field.length_bytesAll] at room
    rw [newEq, grown.size]
    simpa [Field.widthAll, Field.width] using room
  rcases serializeFields_eq_some prefixBuilds.serves inside wroteFields with
    ⟨rfl, usable, interns, grown⟩
  refine ⟨by omega, interns.clockReads.trans reads, ?_⟩
  have fieldsBuild : Channel.Builds kernel between (sent.setBuffer stored)
      (Interning.internAll known (Field.stringsAll
        [.int32 id, .int64 (timeAt kernel channel.world.clockReads)])) (position + 12) fields := by
    refine ⟨⟨interns.serves.holds, interns.serves.ready⟩, usable, interns.log, ?_, ?_, ?_⟩
    · rw [Channel.setBuffer, interns.controller]
    · exact interns.initState
    · exact ⟨block, stored, allocated, rfl, grown⟩
  exact prefixBuilds.trans fieldsBuild

theorem buildRecord_isSome (kernel : Kernel) (id : ℤ) (fields : List Field) (position : ℕ)
    (ready : channel.Ready known) (usable : Usable known (Field.stringsAll fields))
    (room : position + (12 + Field.widthAll fields) ≤ bufferSize) :
    ∃ result, buildRecord kernel id fields position channel = some result := by
  rcases ready.buffer with ⟨block, allocated, size⟩
  obtain ⟨written, storesId⟩ := Block.store_isSome block position (int32Bytes id)
    (by simp; omega)
  have writtenSize := (Block.store_eq_some storesId).2
  obtain ⟨stored, storesTime⟩ := Block.store_isSome written (position + 4)
    (int64Bytes (timeAt kernel channel.world.clockReads)) (by simp; omega)
  have storedSize := (Block.store_eq_some storesTime).2
  have stillServes : ((controllerGetTimeMs kernel channel).2.setBuffer stored).Serves known :=
    ⟨ready.holds, ready.ready⟩
  obtain ⟨result, wroteFields⟩ := serializeFields_isSome kernel fields stored (position + 4 + 8)
    stillServes usable (by omega)
  refine ⟨(result.1, result.2.2.setBuffer result.2.1), ?_⟩
  simp only [buildRecord, controllerPrefixSerialize, allocated, serializeInt32_eq, storesId,
    serializeInt64_eq, controllerGetTimeMs, storesTime, Channel.setBuffer, Option.map_some,
    Option.bind_eq_bind, Option.bind_some] at wroteFields ⊢
  rw [wroteFields]
  rfl

end Kieker
