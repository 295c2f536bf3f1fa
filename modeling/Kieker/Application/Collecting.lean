import Kieker.Application.Plain
import Kieker.Application.Stream
import Kieker.Wire.Collector

/-!
# What a collector makes of the stream

From the bytes that plain probes write on the socket, and from nothing else, a
collector gets back what the threads did: for each outermost operation of each
thread a trace with the forest of the operations in it, as they were called. The
ids that tell the traces apart are counted from the start value of the counter, so
they stay within 64 bits.
-/

namespace Kieker

open Nesting

/-- An operation as it is named on the wire. -/
def Operation.onWire (operation : Operation) : WireOperation :=
  (operation.classSignature.bytes, operation.operationSignature.bytes)

/-- What a record says about its trace. -/
def Record.told : Record → Told
  | .traceMetadata _ => .opened
  | .beforeOperationEvent value =>
      .event (.enter (value.classSignature.bytes, value.operationSignature.bytes))
        (toInt32 value.orderIndex)
  | .afterOperationEvent value =>
      .event (.leave (value.classSignature.bytes, value.operationSignature.bytes))
        (toInt32 value.orderIndex)

/-- What a receiver gets of a record, and the number of its trace in 64 bits. -/
def Logged.told (logged : Logged) : ℤ × Told :=
  (toInt64 logged.record.traceId, logged.record.told)

theorem told_received (logged : Logged) : logged.received.told = some logged.told := by
  rcases logged with ⟨timestamp, record⟩
  cases record with
  | traceMetadata value => rfl
  | beforeOperationEvent value =>
      simp only [Logged.received, Record.fields, OperationEvent.fields, List.map_cons, List.map_nil,
        Field.received, ReceivedRecord.told, Record.type, if_true, Logged.told, Record.traceId,
        Record.told]
  | afterOperationEvent value =>
      have apart : RecordType.afterOperationEvent.name.bytes ≠
          RecordType.beforeOperationEvent.name.bytes := by decide
      simp only [Logged.received, Record.fields, OperationEvent.fields, List.map_cons, List.map_nil,
        Field.received, ReceivedRecord.told, Record.type, apart, if_false, if_true, Logged.told,
        Record.traceId, Record.told]

theorem mapM_told (sent : List Logged) :
    (sent.map Logged.received).mapM ReceivedRecord.told = some (sent.map Logged.told) := by
  induction sent with
  | nil => rfl
  | cons logged sent ih =>
      rw [List.map_cons, List.mapM_cons, told_received, ih]
      rfl

/-- A collector sorts the records that a receiver gets. -/
theorem collect_encodeAll {entries : List Entry} {last : Registry} {sent : List Logged}
    (received : Registry.empty.receive entries = some (last, sent.map Logged.received))
    (read : List Told → Option (List (Event WireOperation))) :
    Collector.collect read (Entry.codec.encodeAll entries) =
      Collector.collectTold read (sent.map Logged.told) := by
  have decoded := Entry.codec.decodeAll_encodeAll Entry.encode_ne_nil entries (le_refl _)
  simp only [Collector.collect, decoded, received, mapM_told, Option.bind_eq_bind, Option.bind_some]

/-! ### Reading one trace -/

theorem Record.told_of_event {record : Record} {event : Event Operation} {orderIndex : ℤ}
    (reports : record.event = some (event, orderIndex)) :
    record.told = .event (event.map Operation.onWire) (toInt32 orderIndex) := by
  cases record with
  | traceMetadata value => cases reports
  | beforeOperationEvent value =>
      cases reports
      rfl
  | afterOperationEvent value =>
      cases reports
      rfl

/-- Records that report some events are read as these, as long as their numbers fit. -/
theorem numberedEvents_told {events : List (Event Operation)} {records : List Record} {next : ℕ}
    (reports : records.map Record.event =
      (events.zipIdx next).map fun numbered => some (numbered.1, (numbered.2 : ℤ)))
    (few : next + events.length ≤ 2 ^ 31) :
    Collector.numberedEvents next (records.map Record.told) =
      some (events.map (Event.map Operation.onWire)) := by
  induction events generalizing records next with
  | nil =>
      rw [List.zipIdx_nil, List.map_nil, List.map_eq_nil_iff] at reports
      subst reports
      rfl
  | cons event events ih =>
      cases records with
      | nil => cases reports
      | cons record records =>
          rw [List.length_cons] at few
          rw [List.map_cons, List.zipIdx_cons, List.map_cons, List.cons.injEq] at reports
          have told := Record.told_of_event reports.1
          have exactly : toInt32 (next : ℤ) = next := toInt32_of_bounds (by omega) (by omega)
          have rest := ih reports.2 (by omega)
          push_cast at rest
          rw [List.map_cons, told, exactly, Collector.numberedEvents, if_pos rfl, rest]
          rfl

theorem traceEvents_told {events : List (Event Operation)} {records : List Record}
    (tells : Tells events records) (few : events.length ≤ 2 ^ 31) :
    Collector.traceEvents (records.map Record.told) =
      some (events.map (Event.map Operation.onWire)) := by
  rcases tells with ⟨metadata, rest, rfl, numbered⟩
  have few' : 0 + events.length ≤ 2 ^ 31 := by omega
  exact numberedEvents_told numbered few'

/-- Where no id is cut off, what is told about a trace are the records of the trace. -/
theorem toldOf_map_told {sent : List Logged}
    (whole : ∀ logged ∈ sent, toInt64 logged.record.traceId = logged.record.traceId) (id : ℤ) :
    Collector.toldOf id (sent.map Logged.told) = (recordsOf id sent).map Record.told := by
  induction sent with
  | nil => rfl
  | cons logged sent ih =>
      have here := whole logged List.mem_cons_self
      have later := ih fun other isSent => whole other (List.mem_cons_of_mem logged isSent)
      have split : recordsOf id (logged :: sent) = recordsOf id [logged] ++ recordsOf id sent :=
        recordsOf_append id [logged] sent
      rw [split, List.map_append, ← later]
      by_cases mine : logged.record.traceId = id
      · rw [mine] at here
        simp [Collector.toldOf, recordsOf, Logged.told, here, mine]
      · simp [Collector.toldOf, recordsOf, Logged.told, here, mine]

/-- A trace has records exactly if some were sent for it. -/
theorem recordsOf_ne_nil_iff {id : ℤ} {sent : List Logged} :
    recordsOf id sent ≠ [] ↔ ∃ logged ∈ sent, logged.record.traceId = id := by
  rw [ne_eq, recordsOf, List.filter_eq_nil_iff]
  simp

/-! ### Ids within 64 bits -/

theorem toInt64_of_bounds {value : ℤ} (lower : -2 ^ 63 ≤ value) (upper : value < 2 ^ 63) :
    toInt64 value = value := by
  rw [toInt64, Int.bmod_def]
  split <;> omega

/-- The counter of the traces starts low enough. -/
theorem Library.Initializes.currentId_bounds {kernel : Kernel} {startUp : StartUp}
    {before after : Library} {hostname : CString} {known : List CString}
    (initializes : before.Initializes kernel startUp hostname after known) :
    0 ≤ after.registry.currentId ∧ after.registry.currentId < 1000000000 * 2 ^ 8 := by
  have nonneg := Int.emod_nonneg (kernel.rand startUp.time) (by decide : (1000000000 : ℤ) ≠ 0)
  have small := Int.emod_lt_of_pos (kernel.rand startUp.time) (by decide : (0 : ℤ) < 1000000000)
  rw [initializes.registry]
  constructor
  · exact mul_nonneg nonneg (by norm_num)
  · exact mul_lt_mul_of_pos_right small (by norm_num)

/-- Entering an operation gives out one more id at most. -/
theorem TraceRegistry.currentId_entering_bounds (registry : TraceRegistry) (kernel : Kernel)
    (self : PthreadSelf) (change : KiekerTrace → KiekerTrace) :
    registry.currentId ≤ (registry.entering kernel self change).currentId ∧
      (registry.entering kernel self change).currentId ≤ registry.currentId + 1 := by
  cases found : registry.traceFind (threadIdOf self) with
  | none =>
      rw [TraceRegistry.currentId_entering_of_none found]
      exact ⟨by omega, le_refl _⟩
  | some data =>
      rw [TraceRegistry.currentId_entering_of_some found]
      exact ⟨le_refl _, by omega⟩

/-- The ids that were given out, and those in the records, are counted from `first`. -/
structure Application.Numbered {Thread : Type} (first : ℤ) (count : ℕ)
    (application : Application Thread) : Prop where
  low : first ≤ application.library.registry.currentId
  high : application.library.registry.currentId ≤ first + count
  registered : ∀ trace ∈ application.library.registry.traces, first ≤ trace.traceId
  recorded : ∀ logged ∈ application.sent, first ≤ logged.record.traceId

variable {Thread : Type} [DecidableEq Thread] {kernel : Kernel} {selfOf : Thread → PthreadSelf}
  {application later : Application Thread} {known : List CString} {hostname : CString}
  {library start : Library} {first : ℤ} {count : ℕ}

namespace Application.Numbered

omit [DecidableEq Thread] in
theorem of_start (noTraces : library.registry.traces = []) :
    (Application.start library : Application Thread).Numbered library.registry.currentId 0 where
  low := le_refl _
  high := by simp [Application.start]
  registered := by
    intro trace inMap
    change trace ∈ library.registry.traces at inMap
    rw [noTraces] at inMap
    cases inMap
  recorded := fun _ isSent => absurd isSent List.not_mem_nil

omit [DecidableEq Thread] in
/-- The current trace of a thread is an old one, or has the next id. -/
theorem current (numbered : application.Numbered first count) (kernel : Kernel)
    (self : PthreadSelf) :
    first ≤ (application.library.registry.current kernel self).traceId := by
  cases found : application.library.registry.traceFind (threadIdOf self) with
  | some data =>
      rw [(TraceRegistry.traceGet_of_some kernel found).2]
      exact numbered.registered data (TraceRegistry.mem_of_traceFind found).1
  | none =>
      simp only [TraceRegistry.current, found, TraceRegistry.traceCreate]
      exact numbered.low

omit [DecidableEq Thread] in
/-- What is sent next keeps to the ids if its records do. -/
theorem recorded_append (numbered : application.Numbered first count) {emission : Emission}
    (fromFirst : ∀ logged ∈ emission.built, first ≤ logged.record.traceId) :
    ∀ logged ∈ application.sent ++ emission.records, first ≤ logged.record.traceId := by
  intro logged isSent
  rcases List.mem_append.mp isSent with earlier | now
  · exact numbered.recorded logged earlier
  · unfold Emission.records at now
    split at now
    · exact fromFirst logged now
    · cases now

theorem call (numbered : application.Numbered first count) {next : Call Thread}
    (idle : application.library.Idle known hostname)
    (tracked : Tracked selfOf application.library.registry application.frames)
    (called : application.call kernel selfOf next = some later) :
    later.Numbered first (count + 1) := by
  have low := numbered.low
  have high := numbered.high
  have wellFormed := idle.wellFormed
  rcases next with ⟨thread, operation | operation⟩
  · rcases Application.call_enter_eq_some.mp called with ⟨address, after, done, rfl⟩
    have sameMap := (Library.enter_eq_some idle done).2.registry
    have keeps := operation.keepsIdentity_entry application.library.filter
    have current := numbered.current kernel (selfOf thread)
    have counted := application.library.registry.currentId_entering_bounds kernel (selfOf thread)
      (operation.entry application.library.filter)
    rw [← sameMap] at counted
    refine ⟨low.trans counted.1, ?_, ?_, ?_⟩
    · push_cast
      exact (counted.2.trans (add_le_add_left high 1)).trans (by omega)
    · intro trace inMap
      change trace ∈ after.registry.traces at inMap
      rw [sameMap, TraceRegistry.mem_entering wellFormed] at inMap
      rcases inMap with rfl | ⟨old, -⟩
      · rw [keeps.traceId]
        exact current
      · exact numbered.registered trace old
    · apply numbered.recorded_append
      intro logged isBuilt
      rcases mem_built_enterEmission isBuilt with ⟨reading, rfl⟩ | ⟨reading, rfl⟩
      · exact current
      · exact current
  · rcases Application.call_leave_eq_some.mp called with
      ⟨frame, rest, after, popped, rfl, done, rfl⟩
    have isOpen : frame ∈ application.frames :=
      (perm_of_pop popped).mem_iff.mpr List.mem_cons_self
    rcases tracked.framed frame isOpen with ⟨trace, inMap, address, mine⟩
    rw [owner_of_pop popped] at mine
    rw [← address] at done
    have sameMap := (Library.leave_eq_some idle inMap mine done).registry
    have keeps := frame.operation.keepsIdentity_exit application.library.filter
    have sameId : after.registry.currentId = application.library.registry.currentId := by
      rw [sameMap, TraceRegistry.currentId_leaving]
    refine ⟨?_, ?_, ?_, ?_⟩
    · exact low.trans sameId.ge
    · push_cast
      exact (sameId.le.trans high).trans (by omega)
    · intro other otherInMap
      change other ∈ after.registry.traces at otherInMap
      rw [sameMap, TraceRegistry.mem_leaving wellFormed keeps inMap] at otherInMap
      rcases otherInMap with ⟨rfl, -⟩ | ⟨old, -⟩
      · rw [keeps.traceId]
        exact numbered.registered trace inMap
      · exact numbered.registered other old
    · apply numbered.recorded_append
      rw [← address]
      intro logged isBuilt
      rcases mem_built_leaveEmission (wellFormed.deref_of_mem inMap) isBuilt with
        ⟨reading, data, rfl, rfl | rfl⟩
      · exact numbered.current kernel (selfOf thread)
      · exact numbered.registered data inMap

end Application.Numbered

/-! ### Processes and their calls -/

variable {happenings : List (Happening Thread)} {process : Process Thread}

/-- A process runs the calls that happen in it. -/
theorem Process.run_callsOf
    (run : Steps (Process.Step kernel selfOf) (Process.start start) happenings process) :
    Application.run kernel selfOf (callsOf happenings) (Application.start start) =
      some process.application := by
  induction run with
  | nil => rfl
  | snoc _ last ih =>
      rw [callsOf_append]
      cases last with
      | begin thread different => exact (congrArg _ (List.append_nil _)).trans ih
      | finish thread nothingOpen => exact (congrArg _ (List.append_nil _)).trans ih
      | call next after alive plain called =>
          exact (Application.run_concat kernel selfOf _ next _).trans (by
            rw [ih, Option.bind_some, called])

theorem Process.numbered (idle : start.Idle known hostname)
    (noTraces : start.registry.traces = [])
    (run : Steps (Process.Step kernel selfOf) (Process.start start) happenings process) :
    process.application.Numbered start.registry.currentId (callsOf happenings).length := by
  induction run with
  | nil => exact .of_start noTraces
  | snoc run last ih =>
      rcases Process.Traced.of_run idle noTraces run with ⟨known, ids, traced⟩
      rw [callsOf_append, List.length_append]
      cases last with
      | begin thread different => exact ih
      | finish thread nothingOpen => exact ih
      | call next after alive plain called => exact ih.call traced.idle traced.tracked called

/-! ### What is collected -/

/--
Among some collected traces is one that has the operations of some events: as a
forest, if all of them were left, and else as operations that are still open.
-/
def Collects (traces : List (ℤ × Option (Forest WireOperation))) (id : ℤ)
    (events : List (Event Operation)) : Prop :=
  ∃ collected, traces.lookup id = some collected ∧
    (collected.isSome ↔ IsBalanced events) ∧
    ∀ forest, collected = some forest ↔ forest.events = events.map (Event.map Operation.onWire)

/-- If the records of every trace can be read, a collector gets the forests of all traces. -/
theorem exists_collected {sent : List Logged}
    {read : List Told → Option (List (Event WireOperation))}
    (whole : ∀ logged ∈ sent, toInt64 logged.record.traceId = logged.record.traceId)
    (reads : ∀ logged ∈ sent, ∃ events,
      read ((recordsOf logged.record.traceId sent).map Record.told) = some events) :
    ∃ traces, Collector.collectTold read (sent.map Logged.told) = some traces ∧
      (traces.map Prod.fst).Nodup ∧
      (∀ id, id ∈ traces.map Prod.fst ↔ ∃ logged ∈ sent, logged.record.traceId = id) ∧
      ∀ id events, (∃ logged ∈ sent, logged.record.traceId = id) →
        read ((recordsOf id sent).map Record.told) = some events →
        traces.lookup id = some (Forest.grow events) := by
  have isTold : ∀ id, id ∈ (sent.map Logged.told).map Prod.fst ↔
      ∃ logged ∈ sent, logged.record.traceId = id := by
    intro id
    simp only [List.map_map, List.mem_map, Function.comp_apply, Logged.told]
    constructor
    · rintro ⟨logged, isSent, rfl⟩
      exact ⟨logged, isSent, (whole logged isSent).symm⟩
    · rintro ⟨logged, isSent, rfl⟩
      exact ⟨logged, isSent, whole logged isSent⟩
  let readOf : ℤ → List (Event WireOperation) := fun id =>
    (read (Collector.toldOf id (sent.map Logged.told))).getD []
  have allRead : ∀ id ∈ (sent.map Logged.told).map Prod.fst,
      read (Collector.toldOf id (sent.map Logged.told)) = some (readOf id) := by
    intro id id_mem
    rcases (isTold id).mp id_mem with ⟨logged, isSent, rfl⟩
    rcases reads logged isSent with ⟨events, isRead⟩
    -- The id of a record is not narrowed on the wire, so both sides sort by the same ids.
    rw [← toldOf_map_told whole] at isRead
    simp only [readOf, isRead, Option.getD_some]
  have sameIds : ((((sent.map Logged.told).map Prod.fst).dedup.map fun id =>
      (id, Forest.grow (readOf id))).map Prod.fst) = ((sent.map Logged.told).map Prod.fst).dedup := by
    rw [List.map_map]
    exact List.map_id _
  refine ⟨_, Collector.collectTold_eq allRead, ?_, ?_, ?_⟩
  · rw [sameIds]
    exact List.nodup_dedup _
  · intro id
    rw [sameIds, List.mem_dedup]
    exact isTold id
  · intro id events isTrace isRead
    have id_mem := List.mem_dedup.mpr ((isTold id).mpr isTrace)
    rw [← toldOf_map_told whole] at isRead
    rw [Collector.lookup_map_of_mem _ id_mem]
    simp only [readOf, isRead, Option.getD_some]

/-- A trace that grew from the events has their operations. -/
theorem collects_of_lookup {traces : List (ℤ × Option (Forest WireOperation))} {id : ℤ}
    {events : List (Event Operation)} {stack : List Operation}
    (nested : openAfter events = some stack)
    (found : traces.lookup id =
      some (Forest.grow (events.map (Event.map Operation.onWire)))) :
    Collects traces id events := by
  have sameNesting : IsBalanced (events.map (Event.map Operation.onWire)) ↔ IsBalanced events :=
    isBalanced_map_iff nested
  refine ⟨_, found, ?_, fun forest => Forest.grow_eq_some_iff⟩
  rw [← sameNesting, Forest.isBalanced_iff, Option.isSome_iff_exists]
  simp only [Forest.grow_eq_some_iff]

namespace Chronicle

variable {calls : List (Call Thread)} {sent : List Logged} {next : ℤ} {ids : Thread → List ℤ}

/-- A trace that a thread has is one of its outermost operations. -/
theorem exists_of_mem (chronicle : Chronicle calls sent next ids) {thread : Thread} {id : ℤ}
    (isTrace : id ∈ ids thread) :
    ∃ events ∈ outermost (eventsOf thread calls), Tells events (recordsOf id sent) := by
  rcases List.forall₂_iff_zip.mp (chronicle.told thread) with ⟨sameLength, told⟩
  rcases List.mem_iff_getElem.mp isTrace with ⟨position, inIds, rfl⟩
  have inSegments : position < (outermost (eventsOf thread calls)).length := sameLength ▸ inIds
  refine ⟨_, List.getElem_mem inSegments, told ?_⟩
  rw [List.mem_iff_getElem]
  refine ⟨position, ?_, List.getElem_zip⟩
  rw [List.length_zip]
  exact lt_min inIds inSegments

/-- The traces of the threads are those that records tell something about. -/
theorem exists_sent_iff (chronicle : Chronicle calls sent next ids) {id : ℤ} :
    (∃ logged ∈ sent, logged.record.traceId = id) ↔ ∃ thread, id ∈ ids thread := by
  constructor
  · rintro ⟨logged, isSent, rfl⟩
    exact chronicle.covered logged isSent
  · rintro ⟨thread, isTrace⟩
    rcases chronicle.exists_of_mem isTrace with ⟨events, -, metadata, rest, records, -⟩
    rw [← recordsOf_ne_nil_iff, records]
    exact List.cons_ne_nil _ _

/-- A collector that sorts the records gets the traces of all threads. -/
theorem collect (chronicle : Chronicle calls sent next ids)
    (whole : ∀ logged ∈ sent, toInt64 logged.record.traceId = logged.record.traceId)
    (nested : WellNested calls)
    (few : ∀ thread, ∀ events ∈ outermost (eventsOf thread calls), events.length ≤ 2 ^ 31) :
    ∃ traces, Collector.collectTold Collector.traceEvents (sent.map Logged.told) = some traces ∧
      (traces.map Prod.fst).Nodup ∧
      (∀ id, id ∈ traces.map Prod.fst ↔ ∃ thread, id ∈ ids thread) ∧
      ∀ thread, List.Forall₂ (Collects traces) (ids thread)
        (outermost (eventsOf thread calls)) := by
  have reads : ∀ logged ∈ sent, ∃ events,
      Collector.traceEvents ((recordsOf logged.record.traceId sent).map Record.told) =
        some events := by
    intro logged isSent
    rcases chronicle.covered logged isSent with ⟨thread, isTrace⟩
    rcases chronicle.exists_of_mem isTrace with ⟨events, isSegment, tells⟩
    exact ⟨_, traceEvents_told tells (few thread events isSegment)⟩
  rcases exists_collected whole reads with ⟨traces, collected, single, covered, found⟩
  refine ⟨traces, collected, single, fun id => (covered id).trans chronicle.exists_sent_iff, ?_⟩
  intro thread
  rcases List.forall₂_iff_zip.mp (chronicle.told thread) with ⟨sameLength, told⟩
  rw [List.forall₂_iff_zip]
  refine ⟨sameLength, ?_⟩
  intro id events isPair
  rcases List.of_mem_zip isPair with ⟨isTrace, isSegment⟩
  rcases openAfter_of_mem_outermost (nested thread) isSegment with ⟨stack, segmentNested⟩
  exact collects_of_lookup segmentNested (found id _ (chronicle.exists_sent_iff.mpr
    ⟨thread, isTrace⟩) (traceEvents_told (told isPair) (few thread events isSegment)))

end Chronicle

omit [DecidableEq Thread] in
/-- Short signatures leave room for the header of a registry entry. -/
theorem fits_of_short {calls : List (Call Thread)}
    (short : ∀ call ∈ calls, call.operation.classSignature.length ≤ 8180 ∧
      call.operation.operationSignature.length ≤ 8180) :
    ∀ call ∈ calls, call.operation.classSignature.Fits ∧
      call.operation.operationSignature.Fits := by
  intro call call_mem
  have := short call call_mem
  unfold CString.Fits bufferSize
  omega

omit [DecidableEq Thread] in
theorem vocabulary_subset (hostname : CString) (calls : List (Call Thread)) :
    ∀ call ∈ calls, call.operation.vocabulary hostname ⊆ vocabularyOf hostname calls := by
  intro call call_mem string string_mem
  exact List.mem_append_right _ (List.mem_flatMap.mpr ⟨call, call_mem, string_mem⟩)

/-- Nested calls are defined after an initialisation that connected, and their records arrive. -/
theorem Application.exists_delivered {startUp : StartUp} {initialized : Library}
    {calls : List (Call Thread)} (connects : startUp.Connects hostname)
    (initializes : library.Initializes kernel startUp hostname initialized [])
    (noTraces : library.registry.traces = []) (complete : kernel.CompleteOn startUp.socket)
    (nested : WellNested calls)
    (short : ∀ call ∈ calls, call.operation.classSignature.length ≤ 8180 ∧
      call.operation.operationSignature.length ≤ 8180)
    (few : (vocabularyOf hostname calls).dedup.length < 2 ^ 31) :
    ∃ application, Application.run kernel selfOf calls (Application.start initialized) =
        some application ∧
      ∃ known, Delivered startUp.socket library.channel.world.log
        application.library.channel.world.log known application.sent := by
  have fits := fits_of_short short
  have spoken := vocabulary_subset hostname calls
  have settled : library.registry.Settled := by
    refine ⟨⟨?_, ?_, ?_⟩, ?_, ?_⟩ <;> simp [TraceRegistry.Indexed, noTraces]
  have initial : (Application.start initialized).Streams selfOf hostname startUp.socket
      library.channel.world.log (vocabularyOf hostname calls) [] eventTypes :=
    initializes.streams connects settled complete (List.subset_append_left _ _)
  rcases initial.run complete few (StartUp.fits_gethostname connects.named) nested fits spoken with
    ⟨final, ran, known, streams⟩
  exact ⟨final, ran, known, streams.delivered⟩

/-- An initialisation of a library without traces leaves it ready, and without traces. -/
theorem Library.Initializes.idle_of_noTraces {startUp : StartUp} {initialized : Library}
    (initializes : library.Initializes kernel startUp hostname initialized [])
    (noTraces : library.registry.traces = []) :
    initialized.Idle (Interning.internAll [] eventTypes) hostname ∧
      initialized.registry.traces = [] := by
  have wellFormed : library.registry.WellFormed := by
    refine ⟨?_, ?_, ?_⟩ <;> simp [noTraces]
  refine ⟨initializes.idle wellFormed, ?_⟩
  rw [initializes.registry]
  exact noTraces

/--
After an initialisation that connected, with complete writes, a collector that
reads the bytes on the socket to their end gets the traces of all threads.
-/
theorem Process.collected {startUp : StartUp} {initialized : Library}
    (connects : startUp.Connects hostname)
    (initializes : library.Initializes kernel startUp hostname initialized [])
    (noTraces : library.registry.traces = []) (complete : kernel.CompleteOn startUp.socket)
    (run : Steps (Process.Step kernel selfOf) (Process.start initialized) happenings process)
    (short : ∀ call ∈ callsOf happenings, call.operation.classSignature.length ≤ 8180 ∧
      call.operation.operationSignature.length ≤ 8180)
    (few : (vocabularyOf hostname (callsOf happenings)).dedup.length < 2 ^ 31)
    (brief : ∀ thread, ∀ events ∈ outermost (eventsOf thread (callsOf happenings)),
      events.length ≤ 2 ^ 31)
    (countable : (callsOf happenings).length < 2 ^ 62) :
    WellNested (callsOf happenings) ∧
      ∃ made traces, ∃ ids : Thread → List ℤ,
        process.application.library.channel.world.log = library.channel.world.log ++ made ∧
        Collector.collect Collector.traceEvents (writtenTo startUp.socket made) = some traces ∧
        (traces.map Prod.fst).Nodup ∧
        (∀ id, id ∈ traces.map Prod.fst ↔ ∃ thread, id ∈ ids thread) ∧
        (∀ first second, first ≠ second → ∀ id ∈ ids first, id ∉ ids second) ∧
        (∀ thread, (ids thread).Nodup) ∧
        ∀ thread, List.Forall₂ (Collects traces) (ids thread)
          (outermost (eventsOf thread (callsOf happenings))) := by
  rcases initializes.idle_of_noTraces noTraces with ⟨idle, stillNone⟩
  rcases Process.Traced.of_run idle stillNone run with ⟨known, ids, traced⟩
  have nested : WellNested (callsOf happenings) := fun thread => ⟨_, traced.follows thread⟩
  have numbered := Process.numbered idle stillNone run
  have whole : ∀ logged ∈ process.application.sent,
      toInt64 logged.record.traceId = logged.record.traceId := by
    intro logged isSent
    rcases traced.chronicle.covered logged isSent with ⟨thread, isTrace⟩
    have used := traced.chronicle.used thread _ isTrace
    have first := initializes.currentId_bounds
    have low := numbered.recorded logged isSent
    have high := numbered.high
    -- Ids begin below `2 ^ 38`, and a call uses up one of them at most.
    apply toInt64_of_bounds <;> omega
  rcases traced.chronicle.collect whole nested brief with
    ⟨traces, collected, single, covered, told⟩
  rcases Application.exists_delivered connects initializes noTraces complete nested short few with
    ⟨final, ran, _, made, entries, last, logEq, written, received, -⟩
  have same := Option.some.inj ((Process.run_callsOf run).symm.trans ran)
  rw [← same] at logEq received
  refine ⟨nested, made, traces, ids, logEq, ?_, single, covered, traced.chronicle.apart,
    traced.chronicle.single, told⟩
  rw [← written, collect_encodeAll received, collected]

/--
Threads come and go and call plain probes in any order, after an initialisation
that connected, and every write is complete. Then a collector that reads the bytes
on the socket to their end gets the traces of all threads, under different ids: one
for each outermost operation of each thread, in order, with exactly the operations
that were entered and left in it.
-/
theorem collector_gets_operations {startUp : StartUp} {initialized : Library}
    (connects : startUp.Connects hostname)
    (unconfigured : library.channel.controller.initState = .unconfigured)
    (emptyTable : library.channel.lookup.Holds []) (noTraces : library.registry.traces = [])
    (complete : kernel.CompleteOn startUp.socket)
    (done : controllerInitialize kernel startUp library = some initialized)
    (run : Steps (Process.Step kernel selfOf) (Process.start initialized) happenings process)
    (short : ∀ call ∈ callsOf happenings, call.operation.classSignature.length ≤ 8180 ∧
      call.operation.operationSignature.length ≤ 8180)
    (few : (vocabularyOf hostname (callsOf happenings)).dedup.length < 2 ^ 31)
    (brief : ∀ thread, ∀ events ∈ outermost (eventsOf thread (callsOf happenings)),
      events.length ≤ 2 ^ 31)
    (countable : (callsOf happenings).length < 2 ^ 62) :
    ∃ made traces, ∃ ids : Thread → List ℤ,
      process.application.library.channel.world.log = library.channel.world.log ++ made ∧
      Collector.collect Collector.traceEvents (writtenTo startUp.socket made) = some traces ∧
      (traces.map Prod.fst).Nodup ∧
      (∀ id, id ∈ traces.map Prod.fst ↔ ∃ thread, id ∈ ids thread) ∧
      (∀ first second, first ≠ second → ∀ id ∈ ids first, id ∉ ids second) ∧
      (∀ thread, (ids thread).Nodup) ∧
      ∀ thread, List.Forall₂ (Collects traces) (ids thread)
        (outermost (eventsOf thread (callsOf happenings))) := by
  rcases controllerInitialize_of_unconfigured kernel startUp library emptyTable unconfigured
    connects.named connects.rwlockInit with ⟨after, doneHere, initializes⟩
  have same := Option.some.inj (done.symm.trans doneHere)
  subst same
  exact (Process.collected connects initializes noTraces complete run short few brief countable).2

/-- The two threads that take turns run to the end. -/
theorem exists_plainTurns :
    ∃ initialized : Library, ∃ final : Process Bool,
      controllerInitialize Kernel.accepting StartUp.smooth Library.initial = some initialized ∧
      Steps (Process.Step Kernel.accepting fun thread => BitVec.ofNat 64 thread.toNat)
        (Process.start initialized) ([.begin true, .begin false] ++ plainTurns.map .call) final := by
  rcases exists_idle Kernel.accepting with ⟨initialized, done, idle, noTraces⟩
  have first : Process.Step Kernel.accepting (fun thread : Bool => BitVec.ofNat 64 thread.toNat)
      (Process.start initialized) (.begin true) ⟨Application.start initialized, [true]⟩ :=
    .begin _ true fun _ alive => absurd alive List.not_mem_nil
  have different : ∀ other ∈ [true], threadIdOf (BitVec.ofNat 64 other.toNat) ≠
      threadIdOf (BitVec.ofNat 64 false.toNat) := by decide +kernel
  have second : Process.Step Kernel.accepting (fun thread : Bool => BitVec.ofNat 64 thread.toNat)
      ⟨Application.start initialized, [true]⟩ (.begin false)
      ⟨Application.start initialized, [false, true]⟩ :=
    .begin ⟨Application.start initialized, [true]⟩ false different
  have begun := Steps.cons first (.single second)
  rcases Process.Traced.of_run idle noTraces begun with ⟨known, ids, traced⟩
  have nested : WellNested plainTurns := by
    intro thread
    cases thread <;> exact ⟨_, rfl⟩
  have alive : ∀ call ∈ plainTurns, call.thread ∈ [false, true] := by decide
  rcases traced.exists_run (by decide) plainTurns nested alive (by decide) (by decide) with
    ⟨final, run⟩
  exact ⟨initialized, final, done, begun.append run⟩

theorem collector_gets_plainTurns :
    ∃ initialized : Library, ∃ final : Process Bool,
      controllerInitialize Kernel.accepting StartUp.smooth Library.initial = some initialized ∧
      Steps (Process.Step Kernel.accepting fun thread => BitVec.ofNat 64 thread.toNat)
        (Process.start initialized) ([.begin true, .begin false] ++ plainTurns.map .call) final ∧
      ∃ made traces, ∃ ids : Bool → List ℤ,
        final.application.library.channel.world.log = [] ++ made ∧
        Collector.collect Collector.traceEvents (writtenTo StartUp.smooth.socket made) = some traces ∧
        (traces.map Prod.fst).Nodup ∧
        (∀ id, id ∈ traces.map Prod.fst ↔ ∃ thread, id ∈ ids thread) ∧
        (∀ first second, first ≠ second → ∀ id ∈ ids first, id ∉ ids second) ∧
        (∀ thread, (ids thread).Nodup) ∧
        ∀ thread, List.Forall₂ (Collects traces) (ids thread)
          (outermost (eventsOf thread plainTurns)) := by
  rcases exists_plainTurns with ⟨initialized, final, done, run⟩
  have brief : ∀ thread, ∀ events ∈ outermost (eventsOf thread plainTurns),
      events.length ≤ 2 ^ 31 := by decide +kernel
  exact ⟨initialized, final, done, run, collector_gets_operations StartUp.connects_smooth rfl
    LookupTable.holds_initial rfl (Kernel.completeOn_accepting (by decide)) done run (by decide)
    (by decide) brief (by decide)⟩

end Kieker
