import Kieker.Application.Events

/-!
# Excluded classes

If no two threads have the same thread id, every thread has a trace of its own,
and the records of this trace are what the thread did, less the operations of
excluded classes. The metadata of a trace waits in the buffer until the first
event that is not excluded; it is built again at every call before that.
-/

namespace Kieker

open Nesting

variable {Thread : Type} [DecidableEq Thread]

/-- The events of a thread whose classes are not excluded, in the order of its calls. -/
def includedOf (filter : AdaptiveFilter) (thread : Thread) (calls : List (Call Thread)) :
    List (Event Operation) :=
  (eventsOf thread calls).filter fun event => filter.Includes event.label

/-- The records of a trace: the events, with metadata in front if there is any. -/
def TellsEvents (events : List (Event Operation)) (records : List Record) : Prop :=
  (events = [] ∧ records = []) ∨
    events ≠ [] ∧ ∃ metadata rest, records = .traceMetadata metadata :: rest ∧
      rest.map (fun record => record.aspectEvent.map Prod.fst) = events.map some

/-- What was sent are the events of included operations, in a trace for each thread. -/
structure SendsIncluded (filter : AdaptiveFilter) (calls : List (Call Thread))
    (sent : List Logged) (ids : Thread → ℤ) : Prop where
  /-- No two threads have the same trace. -/
  apart : ∀ first ∈ calls, ∀ second ∈ calls, ids first.thread = ids second.thread →
    first.thread = second.thread
  /-- Every record belongs to the trace of a thread. -/
  covered : ∀ logged ∈ sent, ∃ call ∈ calls, logged.record.traceId = ids call.thread
  told : ∀ call ∈ calls,
    TellsEvents (includedOf filter call.thread calls) (recordsOf (ids call.thread) sent)
  /-- Without the excluded operations, the events of a thread are still nested. -/
  nested : ∀ thread, ∃ stack, openAfter (includedOf filter thread calls) = some stack

variable {kernel : Kernel} {selfOf : Thread → PthreadSelf} {start : Library}
  {filter : AdaptiveFilter} {hostname : CString} {known : List CString}
  {calls : List (Call Thread)} {application : Application Thread} {thread : Thread}

theorem Reports.tellsEvents {events : List (Event Operation)} {records : List Record}
    (reports : Reports events records) : TellsEvents events records := by
  rcases reports with nothing | ⟨someEvent, metadata, rest, rfl, numbered⟩
  · exact Or.inl nothing
  · refine Or.inr ⟨someEvent, metadata, rest, rfl, ?_⟩
    have withoutNumbers := congrArg (List.map (Option.map Prod.fst)) numbered
    rw [List.map_map, List.map_map] at withoutNumbers
    calc
      rest.map (fun record => record.aspectEvent.map Prod.fst)
      _ = events.zipIdx.map fun numbered => some numbered.1 := withoutNumbers
      _ = events.map some := by
        rw [← List.zipIdx_map_fst 0 events, List.map_map, List.zipIdx_map_fst]
        rfl

/-- With different thread ids, what is included under a thread id is what the thread did. -/
theorem includedWith_eq_includedOf
    (different : Function.Injective fun thread => threadIdOf (selfOf thread)) (thread : Thread) :
    includedWith selfOf filter calls (threadIdOf (selfOf thread)) =
      includedOf filter thread calls := by
  have sameCalls : (calls.filter fun call =>
      threadIdOf (selfOf call.thread) = threadIdOf (selfOf thread)) =
        calls.filter fun call => call.thread = thread := by
    apply List.filter_congr
    intro call _
    rw [decide_eq_decide]
    exact different.eq_iff
  rw [includedWith, includedOf, eventsOf, sameCalls]

namespace Application.Observed

theorem sendsIncluded (observed : application.Observed selfOf start hostname calls known)
    (different : Function.Injective fun thread => threadIdOf (selfOf thread)) (kernel : Kernel) :
    SendsIncluded start.filter calls application.sent fun thread =>
      (application.library.registry.current kernel (selfOf thread)).traceId := by
  have wellFormed := observed.idle.wellFormed
  have current : ∀ call ∈ calls, ∃ trace ∈ application.library.registry.traces,
      trace.threadId = threadIdOf (selfOf call.thread) ∧
        application.library.registry.current kernel (selfOf call.thread) = trace := by
    intro call call_mem
    rcases observed.registered call call_mem with ⟨trace, inMap, mine⟩
    exact ⟨trace, inMap, mine, TraceRegistry.current_of_mem wellFormed inMap mine⟩
  refine ⟨?_, ?_, ?_, ?_⟩
  · intro first first_mem second second_mem same
    rcases current first first_mem with ⟨trace, inMap, mine, isCurrent⟩
    rcases current second second_mem with ⟨other, otherInMap, otherMine, otherIsCurrent⟩
    rw [isCurrent, otherIsCurrent] at same
    have sameTrace := observed.apart trace inMap other otherInMap same
    exact different
      (mine.symm.trans ((congrArg KiekerTrace.threadId sameTrace).trans otherMine))
  · intro logged isSent
    rcases observed.covered logged isSent with ⟨trace, inMap, ofTrace⟩
    rcases observed.owned trace inMap with ⟨call, call_mem, mine⟩
    refine ⟨call, call_mem, ?_⟩
    rw [ofTrace, TraceRegistry.current_of_mem wellFormed inMap mine.symm]
  · intro call call_mem
    rcases current call call_mem with ⟨trace, inMap, mine, isCurrent⟩
    have reports := observed.reports trace inMap
    rw [mine, includedWith_eq_includedOf different] at reports
    rw [isCurrent]
    exact reports.tellsEvents
  · intro thread
    exact ⟨_, openAfter_filter start.filter.Includes (observed.follows thread)⟩

end Application.Observed

/--
Exclusion removes operations and nothing else: the events sent for a thread are
those of its operations whose class is not excluded, nested and in the order of the
calls; a trace with an event has its metadata once, in front of its first event;
and a trace without an event has none.
-/
theorem event_aspect_sends_included
    (different : Function.Injective fun thread => threadIdOf (selfOf thread))
    (idle : start.Idle known hostname) (noTraces : start.registry.traces = [])
    (events : ∀ call ∈ calls, call.event.label.probe = .event)
    (done : Application.run kernel selfOf calls (Application.start start) = some application) :
    (∃ ids, SendsIncluded start.filter calls application.sent ids) ∧
      ∃ made table, application.library.channel.world.log = start.channel.world.log ++ made ∧
        application.library.channel.lookup.Holds table ∧
        Carries table start.channel.controller.socket made application.sent := by
  rcases Application.Observed.of_run idle noTraces events done with ⟨finalKnown, observed⟩
  exact ⟨⟨_, observed.sendsIncluded different kernel⟩, observed.offered⟩

/-- Two threads take turns in an operation of the class `Main` and in one inside it. -/
def eventTurns : List (Call Bool) :=
  [⟨true, .enter ⟨.event, .literal "Main", .literal "int main()"⟩⟩,
    ⟨false, .enter ⟨.event, .literal "Main", .literal "int main()"⟩⟩,
    ⟨true, .enter ⟨.event, .literal "Worker", .literal "void work()"⟩⟩,
    ⟨true, .leave ⟨.event, .literal "Worker", .literal "void work()"⟩⟩,
    ⟨true, .leave ⟨.event, .literal "Main", .literal "int main()"⟩⟩]

example : includedOf excludeMain true eventTurns =
    [.enter ⟨.event, .literal "Worker", .literal "void work()"⟩,
      .leave ⟨.event, .literal "Worker", .literal "void work()"⟩] := by
  decide

theorem event_turns_send_included :
    ∃ initialized final,
      controllerInitialize Kernel.accepting StartUp.smooth (Library.loaded excludeMain) =
        some initialized ∧
      Application.run Kernel.accepting (fun thread : Bool => BitVec.ofNat 64 thread.toNat) eventTurns
        (Application.start initialized) = some final ∧
      ∃ ids, SendsIncluded initialized.filter eventTurns final.sent ids := by
  rcases exists_idle_loaded Kernel.accepting excludeMain with
    ⟨initialized, done, idle, noTraces, -⟩
  have nested : WellNested eventTurns := by
    intro thread
    cases thread <;> exact ⟨_, rfl⟩
  have events : ∀ call ∈ eventTurns, call.event.label.probe = .event := by decide
  have different : Function.Injective fun thread : Bool =>
      threadIdOf (BitVec.ofNat 64 thread.toNat) := by
    intro first second
    cases first <;> cases second <;> decide +kernel
  rcases Application.Observed.exists_run Kernel.accepting idle noTraces (by decide) nested events
    (by decide) with ⟨final, ran⟩
  exact ⟨initialized, final, done, ran,
    (event_aspect_sends_included different idle noTraces events ran).1⟩

end Kieker
