import Kieker.Application.Collecting
import Kieker.Application.Inclusion

/-!
# What a collector makes of excluded classes

Operations go through the event aspect, under an exclusion filter. The numbers that
their events carry are not those of their positions, so the collector takes the
events as they arrive. It gets the calls of every thread as one forest, from which
the operations of excluded classes are taken out; what they called takes their place.
-/

namespace Kieker

open Nesting

/-! ### Reading one trace -/

theorem Record.told_of_aspectEvent {record : Record} {event : Event Operation}
    (reports : record.aspectEvent.map Prod.fst = some event) :
    ∃ orderIndex, record.told = .event (event.map Operation.onWire) orderIndex := by
  cases record with
  | traceMetadata value => cases reports
  | beforeOperationEvent value =>
      cases reports
      exact ⟨_, rfl⟩
  | afterOperationEvent value =>
      cases reports
      exact ⟨_, rfl⟩

/-- Events are read in the order of their records. -/
theorem arrivedEvents_told {events : List (Event Operation)} {records : List Record}
    (tells : TellsEvents events records) (someEvent : events ≠ []) :
    Collector.arrivedEvents (records.map Record.told) =
      some (events.map (Event.map Operation.onWire)) := by
  rcases tells with ⟨noEvent, -⟩ | ⟨-, metadata, rest, rfl, reports⟩
  · exact absurd noEvent someEvent
  · change (rest.map Record.told).mapM _ = _
    clear someEvent
    induction rest generalizing events with
    | nil =>
        rw [List.map_nil, eq_comm, List.map_eq_nil_iff] at reports
        rw [reports]
        rfl
    | cons record rest ih =>
        cases events with
        | nil => cases reports
        | cons event events =>
            rw [List.map_cons, List.map_cons, List.cons.injEq] at reports
            rcases Record.told_of_aspectEvent reports.1 with ⟨orderIndex, told⟩
            rw [List.map_cons, List.mapM_cons, told, ih reports.2]
            rfl

/-- A trace has a record exactly if it has an event. -/
theorem TellsEvents.exists_sent_iff {events : List (Event Operation)} {sent : List Logged} {id : ℤ}
    (tells : TellsEvents events (recordsOf id sent)) :
    (∃ logged ∈ sent, logged.record.traceId = id) ↔ events ≠ [] := by
  rw [← recordsOf_ne_nil_iff]
  rcases tells with ⟨rfl, nothing⟩ | ⟨someEvent, metadata, rest, records, -⟩
  · rw [nothing]
    exact iff_of_false (fun someRecord => someRecord rfl) fun someEvent => someEvent rfl
  · rw [records]
    exact iff_of_true (List.cons_ne_nil _ _) someEvent

/-! ### Ids within 64 bits -/

variable {Thread : Type} [DecidableEq Thread] {kernel : Kernel} {selfOf : Thread → PthreadSelf}
  {application : Application Thread} {known : List CString} {hostname : CString}
  {library start : Library} {calls : List (Call Thread)}

theorem Application.numbered_of_events (idle : start.Idle known hostname)
    (noTraces : start.registry.traces = [])
    (events : ∀ call ∈ calls, call.event.label.probe = .event)
    (done : Application.run kernel selfOf calls (Application.start start) = some application) :
    application.Numbered start.registry.currentId calls.length := by
  induction calls using List.reverseRecOn generalizing application with
  | nil =>
      cases done
      exact .of_start noTraces
  | append_singleton calls last ih =>
      rw [Application.run_concat, Option.bind_eq_some_iff] at done
      rcases done with ⟨middle, earlier, called⟩
      have eventsBefore : ∀ call ∈ calls, call.event.label.probe = .event :=
        fun call call_mem => events call (List.mem_append_left _ call_mem)
      rcases Application.Observed.of_run idle noTraces eventsBefore earlier with
        ⟨middleKnown, observed⟩
      rw [List.length_append]
      exact (ih eventsBefore earlier).call observed.idle observed.tracked called

/-! ### What is collected -/

/--
What a collector has of a thread under an exclusion filter: nothing, if it was only
in excluded classes, and otherwise the operations of the other classes. If all
operations were left, these are the forest of its calls, pruned.
-/
structure CollectsIncluded (filter : AdaptiveFilter)
    (traces : List (ℤ × Option (Forest WireOperation))) (id : ℤ)
    (events : List (Event Operation)) : Prop where
  nothing : (events.filter fun event => filter.Includes event.label) = [] →
    traces.lookup id = none
  included : (events.filter fun event => filter.Includes event.label) ≠ [] →
    Collects traces id (events.filter fun event => filter.Includes event.label)
  pruned : ∀ forest : Forest Operation, forest.events = events →
    forest.prune filter.Includes ≠ .nil →
      traces.lookup id = some (some ((forest.prune filter.Includes).map Operation.onWire))

theorem SendsIncluded.collect {filter : AdaptiveFilter} {sent : List Logged} {ids : Thread → ℤ}
    (sends : SendsIncluded filter calls sent ids)
    (whole : ∀ logged ∈ sent, toInt64 logged.record.traceId = logged.record.traceId) :
    ∃ traces, Collector.collectTold Collector.arrivedEvents (sent.map Logged.told) = some traces ∧
      (traces.map Prod.fst).Nodup ∧
      (∀ id ∈ traces.map Prod.fst, ∃ call ∈ calls, id = ids call.thread) ∧
      ∀ call ∈ calls, CollectsIncluded filter traces (ids call.thread)
        (eventsOf call.thread calls) := by
  have reads : ∀ logged ∈ sent, ∃ events,
      Collector.arrivedEvents ((recordsOf logged.record.traceId sent).map Record.told) =
        some events := by
    intro logged isSent
    rcases sends.covered logged isSent with ⟨call, call_mem, ofThread⟩
    have tells := sends.told call call_mem
    have someEvent := tells.exists_sent_iff.mp ⟨logged, isSent, ofThread⟩
    rw [ofThread]
    exact ⟨_, arrivedEvents_told tells someEvent⟩
  rcases exists_collected whole reads with ⟨traces, collected, single, covered, found⟩
  refine ⟨traces, collected, single, ?_, ?_⟩
  · intro id id_mem
    rcases (covered id).mp id_mem with ⟨logged, isSent, rfl⟩
    exact sends.covered logged isSent
  · intro call call_mem
    have tells := sends.told call call_mem
    have lookup : includedOf filter call.thread calls ≠ [] →
        traces.lookup (ids call.thread) = some (Forest.grow
          ((includedOf filter call.thread calls).map (Event.map Operation.onWire))) :=
      fun someEvent => found _ _ (tells.exists_sent_iff.mpr someEvent)
        (arrivedEvents_told tells someEvent)
    refine ⟨?_, ?_, ?_⟩
    · intro noEvent
      have notTraced : ids call.thread ∉ traces.map Prod.fst := fun isTraced =>
        tells.exists_sent_iff.mp ((covered _).mp isTraced) noEvent
      rw [List.lookup_eq_none_iff]
      intro trace trace_mem
      rw [bne_iff_ne]
      rintro same
      exact notTraced (same ▸ List.mem_map_of_mem trace_mem)
    · intro someEvent
      rcases sends.nested call.thread with ⟨stack, nested⟩
      exact collects_of_lookup nested (lookup someEvent)
    · intro forest isForest notNil
      have events_eq : (forest.prune filter.Includes).events =
          includedOf filter call.thread calls := by
        rw [Forest.events_prune, isForest]
        rfl
      have someEvent : includedOf filter call.thread calls ≠ [] := by
        rw [← events_eq]
        exact fun noEvent => notNil (Forest.events_eq_nil_iff.mp noEvent)
      rw [lookup someEvent, ← events_eq, ← Forest.events_map, Forest.grow_events]

/--
Threads call the event aspect under an exclusion filter, after an initialisation
that connected, with complete writes. Then a collector that reads the bytes on the
socket to their end gets at most one trace of each thread: the forest of its calls,
from which exactly the operations of excluded classes are taken out.
-/
theorem collector_gets_included {startUp : StartUp} (connects : startUp.Connects hostname)
    (unconfigured : library.channel.controller.initState = .unconfigured)
    (emptyTable : library.channel.lookup.Holds []) (noTraces : library.registry.traces = [])
    (complete : kernel.CompleteOn startUp.socket)
    (different : Function.Injective fun thread => threadIdOf (selfOf thread))
    (events : ∀ call ∈ calls, call.event.label.probe = .event) (nested : WellNested calls)
    (short : ∀ call ∈ calls, call.operation.classSignature.length ≤ 8180 ∧
      call.operation.operationSignature.length ≤ 8180)
    (few : (vocabularyOf hostname calls).dedup.length < 2 ^ 31)
    (countable : calls.length < 2 ^ 62) :
    ∃ initialized application made traces, ∃ ids : Thread → ℤ,
      controllerInitialize kernel startUp library = some initialized ∧
      Application.run kernel selfOf calls (Application.start initialized) = some application ∧
      application.library.channel.world.log = library.channel.world.log ++ made ∧
      Collector.collect Collector.arrivedEvents (writtenTo startUp.socket made) = some traces ∧
      (traces.map Prod.fst).Nodup ∧
      (∀ id ∈ traces.map Prod.fst, ∃ call ∈ calls, id = ids call.thread) ∧
      (∀ first ∈ calls, ∀ second ∈ calls, ids first.thread = ids second.thread →
        first.thread = second.thread) ∧
      ∀ call ∈ calls, CollectsIncluded library.filter traces (ids call.thread)
        (eventsOf call.thread calls) := by
  rcases controllerInitialize_of_unconfigured kernel startUp library emptyTable unconfigured
    connects.named connects.rwlockInit with ⟨initialized, done, initializes⟩
  rcases initializes.idle_of_noTraces noTraces with ⟨idle, stillNone⟩
  rcases Application.exists_delivered connects initializes noTraces complete nested short few with
    ⟨application, ran, _, made, entries, last, logEq, written, received, -⟩
  rcases Application.Observed.of_run idle stillNone events ran with ⟨known, observed⟩
  have sends := observed.sendsIncluded different kernel
  rw [initializes.filter] at sends
  have numbered := Application.numbered_of_events idle stillNone events ran
  have whole : ∀ logged ∈ application.sent,
      toInt64 logged.record.traceId = logged.record.traceId := by
    intro logged isSent
    rcases observed.covered logged isSent with ⟨trace, inMap, ofTrace⟩
    have used := observed.used trace inMap
    have first := initializes.currentId_bounds
    have low := numbered.recorded logged isSent
    have high := numbered.high
    apply toInt64_of_bounds <;> omega
  rcases sends.collect whole with ⟨traces, collected, single, covered, included⟩
  refine ⟨initialized, application, made, traces, fun thread =>
    (application.library.registry.current kernel (selfOf thread)).traceId, done, ran, logEq, ?_,
    single, covered, sends.apart, included⟩
  rw [← written, collect_encodeAll received, collected]

theorem collector_gets_included_eventTurns :
    ∃ initialized application made traces, ∃ ids : Bool → ℤ,
      controllerInitialize Kernel.accepting StartUp.smooth (Library.loaded excludeMain) =
        some initialized ∧
      Application.run Kernel.accepting (fun thread => BitVec.ofNat 64 thread.toNat) eventTurns
        (Application.start initialized) = some application ∧
      application.library.channel.world.log =
        (Library.loaded excludeMain).channel.world.log ++ made ∧
      Collector.collect Collector.arrivedEvents (writtenTo StartUp.smooth.socket made) =
        some traces ∧
      (traces.map Prod.fst).Nodup ∧
      (∀ id ∈ traces.map Prod.fst, ∃ call ∈ eventTurns, id = ids call.thread) ∧
      (∀ first ∈ eventTurns, ∀ second ∈ eventTurns, ids first.thread = ids second.thread →
        first.thread = second.thread) ∧
      ∀ call ∈ eventTurns, CollectsIncluded excludeMain traces (ids call.thread)
        (eventsOf call.thread eventTurns) := by
  have nested : WellNested eventTurns := by
    intro thread
    cases thread <;> exact ⟨_, rfl⟩
  have different : Function.Injective fun thread : Bool =>
      threadIdOf (BitVec.ofNat 64 thread.toNat) := by
    intro first second
    cases first <;> cases second <;> decide +kernel
  exact collector_gets_included StartUp.connects_smooth rfl LookupTable.holds_initial rfl
    (Kernel.completeOn_accepting (by decide)) different (by decide) nested (by decide) (by decide)
    (by decide)

end Kieker
