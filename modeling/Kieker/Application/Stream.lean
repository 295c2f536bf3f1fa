import Kieker.Application.Tracking
import Kieker.Connection.Failures
import Kieker.Wire.Receiver
import Mathlib.Data.List.Dedup
import Mathlib.Data.List.Perm.Subperm

/-!
# The stream of a run

Whatever threads do, as long as each nests its calls and every write is complete,
the bytes on the socket are entries that a receiver can read to the end, and it
reads exactly the records that the probes built.
-/

namespace Kieker

open Nesting

/-- The position of an event in its trace. -/
def Record.orderIndex : Record → Option ℤ
  | .traceMetadata _ => none
  | .beforeOperationEvent value => some value.orderIndex
  | .afterOperationEvent value => some value.orderIndex

/-- The 32-bit members of a record are zero, or the position of an event, which is not below -1. -/
def Record.Indexed (record : Record) : Prop :=
  ∀ value, Field.int32 value ∈ record.fields →
    value = 0 ∨ record.orderIndex = some value ∧ -1 ≤ value

theorem Record.indexed_beforeOperationEvent {event : OperationEvent} (low : -1 ≤ event.orderIndex) :
    (Record.beforeOperationEvent event).Indexed := by
  intro value isMember
  have same : value = event.orderIndex := by
    simpa [Record.fields, OperationEvent.fields] using isMember
  exact Or.inr ⟨congrArg some same.symm, same ▸ low⟩

theorem Record.indexed_afterOperationEvent {event : OperationEvent} (low : -1 ≤ event.orderIndex) :
    (Record.afterOperationEvent event).Indexed := by
  intro value isMember
  have same : value = event.orderIndex := by
    simpa [Record.fields, OperationEvent.fields] using isMember
  exact Or.inr ⟨congrArg some same.symm, same ▸ low⟩

/-! ### What emissions consist of -/

variable {kernel : Kernel} {self : PthreadSelf} {library after : Library} {known : List CString}
  {hostname : CString} {operation : Operation} {trace : KiekerTrace} {logged : Logged}

theorem indexed_metadataLogged (reading : ℕ) :
    (metadataLogged kernel hostname reading trace).record.Indexed := by
  intro value isMember
  left
  simpa [metadataLogged, Record.fields, TraceMetadata.fields, traceMetadataOf] using isMember

/-- Entering an operation builds the metadata of a trace, or the event of the operation. -/
theorem mem_built_enterEmission
    (isBuilt : logged ∈ (library.enterEmission kernel self operation).built) :
    (∃ reading, logged =
        metadataLogged kernel library.hostname reading (library.registry.current kernel self)) ∨
      ∃ reading, logged = beforeLogged kernel reading
        (library.registry.current kernel self).enter operation.classSignature
        operation.operationSignature := by
  rcases operation with ⟨_ | _, classSignature, operationSignature⟩
  · rcases List.mem_append.mp isBuilt with opening | event
    · exact Or.inl ⟨_, mem_openingLogged opening⟩
    · exact Or.inr ⟨_, List.mem_singleton.mp event⟩
  · simp only [Library.enterEmission, aspectBeforeEmission] at isBuilt
    split at isBuilt
    · exact Or.inl ⟨_, mem_openingLogged isBuilt⟩
    · rcases List.mem_append.mp isBuilt with opening | event
      · exact Or.inl ⟨_, mem_openingLogged opening⟩
      · exact Or.inr ⟨_, List.mem_singleton.mp event⟩

theorem mem_built_leaveEmission (found : library.registry.deref trace.address = some trace)
    (isBuilt : logged ∈ (library.leaveEmission kernel self operation trace.address).built) :
    ∃ reading data, logged = afterLogged kernel reading data operation.classSignature
        operation.operationSignature ∧
      (data = (library.registry.current kernel self).leave ∨ data = trace) := by
  rcases operation with ⟨_ | _, classSignature, operationSignature⟩
  · exact ⟨_, _, List.mem_singleton.mp isBuilt, Or.inl rfl⟩
  · simp only [Library.leaveEmission, found, aspectAfterEmission] at isBuilt
    split at isBuilt
    · cases isBuilt
    · exact ⟨_, _, List.mem_singleton.mp isBuilt, Or.inr rfl⟩

/-- The strings of records are those of their members. -/
theorem mem_strings_of_built {emission : Emission} {string : CString}
    (isUsed : string ∈ emission.strings) :
    ∃ logged ∈ emission.built, string ∈ Field.stringsAll logged.record.fields := by
  simp only [Emission.strings, Logged.stringsAll, Logged.membersAll, Field.stringsAll,
    List.mem_flatMap] at isUsed
  rcases isUsed with ⟨field, ⟨logged, isBuilt, isMember⟩, isString⟩
  refine ⟨logged, isBuilt, List.mem_flatMap.mpr ⟨field, ?_, isString⟩⟩
  simp only [Logged.members, List.mem_cons] at isMember
  rcases isMember with rfl | rfl | isMember
  · cases isString
  · cases isString
  · exact isMember

/-- The strings that any record of an operation uses. -/
def Operation.vocabulary (hostname : CString) (operation : Operation) : List CString :=
  [.literal "<no-session>", hostname, operation.classSignature, operation.operationSignature]

theorem mem_vocabulary_of_enter {string : CString}
    (isUsed : string ∈ (library.enterEmission kernel self operation).strings) :
    string ∈ operation.vocabulary library.hostname := by
  rcases mem_strings_of_built isUsed with ⟨logged, isBuilt, isString⟩
  rcases mem_built_enterEmission isBuilt with ⟨reading, rfl⟩ | ⟨reading, rfl⟩
  · have cases : string = .literal "<no-session>" ∨ string = library.hostname := by
      simpa [metadataLogged, Record.fields, TraceMetadata.fields, traceMetadataOf,
        Field.stringsAll, Field.strings] using isString
    rcases cases with rfl | rfl <;> simp [Operation.vocabulary]
  · have cases : string = operation.operationSignature ∨ string = operation.classSignature := by
      simpa [beforeLogged, Record.fields, OperationEvent.fields, operationEventOf,
        Field.stringsAll, Field.strings] using isString
    rcases cases with rfl | rfl <;> simp [Operation.vocabulary]

theorem mem_vocabulary_of_leave {string : CString}
    (found : library.registry.deref trace.address = some trace)
    (isUsed : string ∈ (library.leaveEmission kernel self operation trace.address).strings) :
    string ∈ operation.vocabulary library.hostname := by
  rcases mem_strings_of_built isUsed with ⟨logged, isBuilt, isString⟩
  rcases mem_built_leaveEmission found isBuilt with ⟨reading, data, rfl, -⟩
  have cases : string = operation.operationSignature ∨ string = operation.classSignature := by
    simpa [afterLogged, Record.fields, OperationEvent.fields, operationEventOf,
      Field.stringsAll, Field.strings] using isString
  rcases cases with rfl | rfl <;> simp [Operation.vocabulary]

/-! ### What has been delivered -/

/--
The calls since `before` wrote entries to a descriptor. A receiver reads them to
the end; it then knows the strings of the table and has the records sent.
-/
def Delivered (descriptor : ℤ) (before log : List Syscall) (known : List CString)
    (sent : List Logged) : Prop :=
  ∃ calls entries last, log = before ++ calls ∧
    Entry.codec.encodeAll entries = writtenTo descriptor calls ∧
    Registry.empty.receive entries = some (last, sent.map Logged.received) ∧
    Registry.Holds last known

theorem Delivered.emit {channel afterwards : Channel} {before : List Syscall}
    {sent : List Logged} {emission : Emission}
    (delivered : Delivered channel.controller.socket before channel.world.log known sent)
    (complete : kernel.CompleteOn channel.controller.socket) (typed : eventTypes <+: known)
    (emits : Channel.Emits kernel channel afterwards known emission)
    (few : (Interning.internAll known emission.strings).length ≤ 2 ^ 31) :
    Delivered channel.controller.socket before afterwards.world.log
      (Interning.internAll known emission.strings) (sent ++ emission.records) := by
  rcases delivered with ⟨calls, entries, last, logEq, written, received, holds⟩
  rcases Registry.receive_entries holds typed emits.usable few with ⟨later, more, laterHolds⟩
  refine ⟨calls ++ (emission.pieces known).map fun bytes =>
    .write channel.controller.socket bytes bytes.length,
    entries ++ emission.entries known, later, ?_, ?_, ?_, laterHolds⟩
  · rw [emits.log, Kernel.offerAll_of_complete complete, logEq, List.append_assoc]
  · rw [Codec.encodeAll_append, written, writtenTo_append, Kernel.writtenTo_complete,
      Emission.encodeAll_entries emits.usable]
  · rw [Registry.receive_append, received, Option.bind_some, more, Option.map_some,
      List.map_append]

/-! ### Runs -/

variable {Thread : Type} [DecidableEq Thread] {selfOf : Thread → PthreadSelf} {socket : ℤ}
  {before : List Syscall} {vocabulary : List CString} {calls : List (Call Thread)}
  {application : Application Thread}

/-- The traces have not counted below their start value. -/
def TraceRegistry.Indexed (registry : TraceRegistry) : Prop :=
  ∀ trace ∈ registry.traces, -1 ≤ trace.orderIndex

theorem TraceRegistry.Indexed.current {registry : TraceRegistry} (indexed : registry.Indexed)
    (kernel : Kernel) (self : PthreadSelf) : -1 ≤ (registry.current kernel self).orderIndex := by
  cases found : registry.traceFind (threadIdOf self) with
  | some data =>
      rw [(TraceRegistry.traceGet_of_some kernel found).2]
      exact indexed data (TraceRegistry.mem_of_traceFind found).1
  | none =>
      simp only [TraceRegistry.current, found, TraceRegistry.traceCreate]
      exact le_refl _

/-- What holds between the calls of a run whose writes are complete. -/
structure Application.Streams (selfOf : Thread → PthreadSelf) (hostname : CString) (socket : ℤ)
    (before : List Syscall) (vocabulary : List CString) (calls : List (Call Thread))
    (application : Application Thread) (known : List CString) : Prop where
  idle : application.library.Idle known hostname
  onSocket : application.library.channel.controller.socket = socket
  tracked : Tracked selfOf application.library.registry application.frames
  follows : Follows calls application.frames
  indexed : application.library.registry.Indexed
  sentIndexed : ∀ logged ∈ application.sent, logged.record.Indexed
  typed : eventTypes <+: known
  spoken : known ⊆ vocabulary
  delivered : Delivered socket before application.library.channel.world.log known application.sent

namespace Application.Streams

/-- An emission keeps the invariant, whatever it does to the traces. -/
theorem emit {registry : TraceRegistry} {emission : Emission} {frames : List (Frame Thread Operation)}
    {last : Call Thread}
    (streams : application.Streams selfOf hostname socket before vocabulary calls known)
    (complete : kernel.CompleteOn socket) (few : vocabulary.dedup.length < 2 ^ 31)
    (called : application.library.Calls kernel after known registry emission)
    (spoken : emission.strings ⊆ vocabulary)
    (tracked : Tracked selfOf registry frames) (follows : Follows (calls ++ [last]) frames)
    (indexed : registry.Indexed)
    (builtIndexed : ∀ logged ∈ emission.built, logged.record.Indexed) :
    Application.Streams selfOf hostname socket before vocabulary (calls ++ [last])
      ⟨after, frames, application.sent ++ emission.records⟩
      (Interning.internAll known emission.strings) := by
  have emits := called.emits
  have grown : Interning.internAll known emission.strings ⊆ vocabulary := by
    intro string string_mem
    rcases Interning.mem_internAll.mp string_mem with old | used
    · exact streams.spoken old
    · exact spoken used
  have fewKnown : (Interning.internAll known emission.strings).length ≤ 2 ^ 31 := by
    have sub := (emits.ready.holds.unique.subperm
      (fun string string_mem => List.mem_dedup.mpr (grown string_mem))).length_le
    omega
  have delivered := streams.delivered
  rw [← streams.onSocket] at complete delivered
  refine ⟨called.idle streams.idle tracked.wellFormed, ?_, ?_, follows, ?_, ?_, ?_, grown, ?_⟩
  · rw [emits.socket, streams.onSocket]
  · rw [called.registry]
    exact tracked
  · rw [called.registry]
    exact indexed
  · intro logged isSent
    rcases List.mem_append.mp isSent with earlier | now
    · exact streams.sentIndexed logged earlier
    · apply builtIndexed logged
      unfold Emission.records at now
      split at now
      · exact now
      · cases now
  · exact streams.typed.trans (Interning.prefix_internAll _ _)
  · rw [← streams.onSocket]
    exact delivered.emit complete streams.typed emits fewKnown

theorem call {next : Call Thread}
    (streams : application.Streams selfOf hostname socket before vocabulary calls known)
    (complete : kernel.CompleteOn socket) (few : vocabulary.dedup.length < 2 ^ 31)
    (nested : WellNested (calls ++ [next])) (hostnameFits : hostname.Fits)
    (classFits : next.operation.classSignature.Fits)
    (operationFits : next.operation.operationSignature.Fits)
    (spoken : next.operation.vocabulary hostname ⊆ vocabulary) :
    ∃ later, application.call kernel selfOf next = some later ∧
      ∃ known, later.Streams selfOf hostname socket before vocabulary (calls ++ [next])
        known := by
  have named := streams.idle.hostname_eq
  rcases next with ⟨thread, operation | operation⟩
  · change operation.classSignature.Fits at classFits
    change operation.operationSignature.Fits at operationFits
    rcases Library.enter_isSome kernel (selfOf thread) streams.idle hostnameFits classFits
      operationFits with ⟨⟨address, after⟩, entered⟩
    rcases Library.enter_eq_some streams.idle entered with ⟨current, called⟩
    refine ⟨⟨after, ⟨thread, operation, address⟩ :: application.frames, application.sent ++
      (application.library.enterEmission kernel (selfOf thread) operation).records⟩, ?_, _,
      streams.emit complete few called ?_ ?_ (streams.follows.enter address) ?_ ?_⟩
    · simp only [Application.call, entered, Option.bind_eq_bind, Option.bind_some]
    · intro string used
      exact spoken (named ▸ mem_vocabulary_of_enter used)
    · exact Tracked.enter ⟨thread, operation, address⟩ streams.tracked
        (operation.keepsIdentity_entry _) (operation.stack_entry _) current
    · intro trace inMap
      rcases (TraceRegistry.mem_entering streams.idle.wellFormed).mp inMap with rfl | ⟨old, -⟩
      · exact (streams.indexed.current kernel (selfOf thread)).trans
          (operation.orderIndex_le_entry _ _)
      · exact streams.indexed trace old
    · intro logged isBuilt
      have start := streams.indexed.current kernel (selfOf thread)
      rcases mem_built_enterEmission isBuilt with ⟨reading, rfl⟩ | ⟨reading, rfl⟩
      · exact indexed_metadataLogged reading
      · exact Record.indexed_beforeOperationEvent
          (start.trans (le_add_of_nonneg_right (by norm_num)))
  · rcases streams.follows.popped nested with ⟨frame, rest, popped, rfl⟩
    have mine : frame.thread = thread := owner_of_pop popped
    subst mine
    change frame.operation.classSignature.Fits at classFits
    change frame.operation.operationSignature.Fits at operationFits
    have isOpen : frame ∈ application.frames :=
      (perm_of_pop popped).mem_iff.mpr List.mem_cons_self
    rcases streams.tracked.framed frame isOpen with ⟨trace, inMap, address, ofThread⟩
    have found := streams.idle.wellFormed.deref_of_mem inMap
    rcases Library.leave_isSome kernel (selfOf frame.thread) streams.idle inMap classFits
      operationFits with ⟨after, left⟩
    have called := Library.leave_eq_some streams.idle inMap ofThread left
    have current : application.library.registry.current kernel (selfOf frame.thread) = trace :=
      TraceRegistry.current_of_mem streams.idle.wellFormed inMap ofThread
    refine ⟨⟨after, rest, application.sent ++ (application.library.leaveEmission kernel
      (selfOf frame.thread) frame.operation trace.address).records⟩, ?_, _,
      streams.emit complete few called ?_ ?_ (streams.follows.leave popped) ?_ ?_⟩
    · rw [address] at left
      simp only [Application.call, popped, left, address, if_true, Option.bind_eq_bind,
        Option.bind_some]
    · intro string used
      exact spoken (named ▸ mem_vocabulary_of_leave found used)
    · exact streams.tracked.leave popped (frame.operation.keepsIdentity_exit _)
        (frame.operation.stack_exit _) frame.operation.bound_nonpos inMap ofThread
    · intro other otherInMap
      rcases (TraceRegistry.mem_leaving streams.idle.wellFormed
        (frame.operation.keepsIdentity_exit _) inMap).mp otherInMap with ⟨rfl, -⟩ | ⟨old, -⟩
      · exact (streams.indexed trace inMap).trans (frame.operation.orderIndex_le_exit _ _)
      · exact streams.indexed other old
    · intro logged isBuilt
      have start := streams.indexed trace inMap
      rcases mem_built_leaveEmission found isBuilt with ⟨reading, data, rfl, rfl | rfl⟩
      · apply Record.indexed_afterOperationEvent
        rw [operationEventOf, current]
        exact start.trans (le_add_of_nonneg_right (by norm_num))
      · exact Record.indexed_afterOperationEvent start

end Application.Streams

theorem Application.Streams.run
    (initial : (Application.start library).Streams selfOf hostname socket before vocabulary [] known)
    (complete : kernel.CompleteOn socket) (few : vocabulary.dedup.length < 2 ^ 31)
    (hostnameFits : hostname.Fits) (nested : WellNested calls)
    (fits : ∀ call ∈ calls, call.operation.classSignature.Fits ∧
      call.operation.operationSignature.Fits)
    (spoken : ∀ call ∈ calls, call.operation.vocabulary hostname ⊆ vocabulary) :
    ∃ final, Application.run kernel selfOf calls (Application.start library) = some final ∧
      ∃ known, final.Streams selfOf hostname socket before vocabulary calls known := by
  induction calls using List.reverseRecOn with
  | nil => exact ⟨_, rfl, known, initial⟩
  | append_singleton calls next ih =>
      rcases ih nested.of_append
        (fun call call_mem => fits call (List.mem_append_left _ call_mem))
        (fun call call_mem => spoken call (List.mem_append_left _ call_mem)) with
        ⟨middle, ran, middleKnown, streams⟩
      have isLast : next ∈ calls ++ [next] := List.mem_append_right _ (List.mem_singleton.mpr rfl)
      rcases streams.call complete few nested hostnameFits (fits next isLast).1
        (fits next isLast).2 (spoken next isLast) with ⟨final, called, later⟩
      refine ⟨final, ?_, later⟩
      rw [Application.run_concat, ran, Option.bind_some, called]

/-- A trace map in which the traces that are left over count from zero at least. -/
structure TraceRegistry.Settled (registry : TraceRegistry) : Prop where
  wellFormed : registry.WellFormed
  stack : ∀ trace ∈ registry.traces, 0 ≤ trace.stack
  indexed : registry.Indexed

theorem TraceRegistry.settled_initial : TraceRegistry.initial.Settled where
  wellFormed := TraceRegistry.wellFormed_initial
  stack := by simp [TraceRegistry.initial]
  indexed := by simp [TraceRegistry.Indexed, TraceRegistry.initial]

/-- After an initialisation that connected from an empty table the invariant holds. -/
theorem Library.Initializes.streams {startUp : StartUp}
    (initializes : library.Initializes kernel startUp hostname after [])
    (connects : startUp.Connects hostname) (settled : library.registry.Settled)
    (complete : kernel.CompleteOn startUp.socket) (spoken : eventTypes ⊆ vocabulary) :
    (Application.start after).Streams selfOf hostname startUp.socket library.channel.world.log
      vocabulary [] eventTypes := by
  have ready := initializes.ready
  rw [internAll_eventTypes] at ready
  have sameTraces : after.registry.traces = library.registry.traces := by
    rw [initializes.registry]
  have wellFormed : after.registry.WellFormed := by
    rw [initializes.registry]
    exact ⟨settled.wellFormed.addresses, settled.wellFormed.threads, settled.wellFormed.allocated⟩
  have usable := usable_eventTypes []
  have fewTypes : (Interning.internAll [] eventTypes).length ≤ 2 ^ 31 := by
    rw [internAll_eventTypes]
    decide
  rcases Registry.receive_registryEntries Registry.holds_empty usable fewTypes with
    ⟨last, received, holds⟩
  rw [internAll_eventTypes] at holds
  refine ⟨⟨ready, initializes.localHostname, wellFormed⟩, ?_, ⟨wellFormed, ?_, ?_⟩, .nil, ?_, ?_,
    List.prefix_rfl, spoken, ?_⟩
  · exact initializes.socket.trans connects.socketResult_eq
  · intro frame frame_mem
    cases frame_mem
  · intro trace inMap
    change trace ∈ after.registry.traces at inMap
    rw [sameTraces] at inMap
    exact settled.stack trace inMap
  · intro trace inMap
    change trace ∈ after.registry.traces at inMap
    rw [sameTraces] at inMap
    exact settled.indexed trace inMap
  · intro logged isSent
    cases isSent
  · refine ⟨startUp.openCalls ++ startUp.closeCalls ++ (registryPieces [] eventTypes).map
      fun bytes => .write startUp.socket bytes bytes.length, registryEntries [] eventTypes, last,
      ?_, ?_, received, holds⟩
    · rw [Application.start, initializes.log, connects.socketResult_eq,
        Kernel.offerAll_of_complete complete, List.append_assoc]
    · rw [writtenTo_append, Kernel.writtenTo_complete, encodeAll_registryEntries usable,
        connects.openCalls_eq, connects.closeCalls_eq]
      rfl

/-- The strings that the records of some calls use, and the names of the event types. -/
def vocabularyOf (hostname : CString) (calls : List (Call Thread)) : List CString :=
  eventTypes ++ calls.flatMap fun call => call.operation.vocabulary hostname

/--
After an initialisation that connected with an empty string table, the calls of
any number of threads, each well nested, are all defined. What they write on the
socket is cut into entries in exactly one way; every id in a record was registered
earlier in the stream; and a receiver gets the records that the probes built, each
member reduced to the width of its type, which leaves a 32-bit member below
`2 ^ 31` as it is.
-/
theorem stream_decodes_to_records {startUp : StartUp} (connects : startUp.Connects hostname)
    (unconfigured : library.channel.controller.initState = .unconfigured)
    (emptyTable : library.channel.lookup.Holds []) (settled : library.registry.Settled)
    (complete : kernel.CompleteOn startUp.socket) (nested : WellNested calls)
    (short : ∀ call ∈ calls, call.operation.classSignature.length ≤ 8180 ∧
      call.operation.operationSignature.length ≤ 8180)
    (few : (vocabularyOf hostname calls).dedup.length < 2 ^ 31) :
    ∃ initialized final made entries last,
      controllerInitialize kernel startUp library = some initialized ∧
      Application.run kernel selfOf calls (Application.start initialized) = some final ∧
      final.library.channel.world.log = library.channel.world.log ++ made ∧
      (∀ others, Entry.codec.encodeAll others = writtenTo startUp.socket made ↔
        others = entries) ∧
      Registry.empty.receive entries = some (last, final.sent.map Logged.received) ∧
      ∀ logged ∈ final.sent, ∀ value,
        Field.int32 value ∈ logged.record.fields → value < 2 ^ 31 → toInt32 value = value := by
  rcases controllerInitialize_of_unconfigured kernel startUp library emptyTable unconfigured
    connects.named connects.rwlockInit with ⟨initialized, done, initializes⟩
  have fits : ∀ call ∈ calls, call.operation.classSignature.Fits ∧
      call.operation.operationSignature.Fits := by
    intro call call_mem
    have := short call call_mem
    unfold CString.Fits bufferSize
    omega
  have spoken : ∀ call ∈ calls,
      call.operation.vocabulary hostname ⊆ vocabularyOf hostname calls := by
    intro call call_mem string string_mem
    exact List.mem_append_right _ (List.mem_flatMap.mpr ⟨call, call_mem, string_mem⟩)
  have typesSpoken : eventTypes ⊆ vocabularyOf hostname calls := List.subset_append_left _ _
  have initial : (Application.start initialized).Streams selfOf hostname startUp.socket
      library.channel.world.log (vocabularyOf hostname calls) [] eventTypes :=
    initializes.streams connects settled complete typesSpoken
  rcases initial.run complete few (StartUp.fits_gethostname connects.named) nested fits spoken with
    ⟨final, ran, known, streams⟩
  rcases streams.delivered with ⟨made, entries, last, logEq, written, received, -⟩
  refine ⟨initialized, final, made, entries, last, done, ran, logEq, ?_, received, ?_⟩
  · intro others
    rw [← written]
    exact Entry.encodeAll_injective.eq_iff
  · intro logged isSent value isMember small
    rcases streams.sentIndexed logged isSent value isMember with rfl | ⟨-, low⟩
    · exact toInt32_of_bounds (by norm_num) (by norm_num)
    · exact toInt32_of_bounds (by omega) small

/-- A thread with a plain probe and a thread with an event aspect, taking turns. -/
def turns : List (Call Bool) :=
  let outer : Operation := ⟨.plain, .literal "Main", .literal "int main()"⟩
  let inner : Operation := ⟨.event, .literal "Worker", .literal "void work()"⟩
  [⟨true, .enter outer⟩, ⟨false, .enter inner⟩, ⟨true, .leave outer⟩, ⟨false, .leave inner⟩]

theorem stream_decodes_for_turns :
    ∃ initialized final made entries last,
      controllerInitialize Kernel.accepting StartUp.smooth Library.initial = some initialized ∧
      Application.run Kernel.accepting (fun thread => BitVec.ofNat 64 thread.toNat) turns
        (Application.start initialized) = some final ∧
      final.library.channel.world.log = Library.initial.channel.world.log ++ made ∧
      (∀ others, Entry.codec.encodeAll others = writtenTo StartUp.smooth.socket made ↔
        others = entries) ∧
      Registry.empty.receive entries = some (last, final.sent.map Logged.received) ∧
      ∀ logged ∈ final.sent, ∀ value,
        Field.int32 value ∈ logged.record.fields → value < 2 ^ 31 → toInt32 value = value := by
  have connects : StartUp.smooth.Connects (.literal "host") :=
    ⟨rfl, rfl, by decide, rfl, by decide, rfl⟩
  have nested : WellNested turns := by
    intro thread
    cases thread <;> exact ⟨_, rfl⟩
  exact stream_decodes_to_records connects rfl LookupTable.holds_initial
    TraceRegistry.settled_initial (Kernel.completeOn_accepting (by decide)) nested (by decide)
    (by decide)

end Kieker
