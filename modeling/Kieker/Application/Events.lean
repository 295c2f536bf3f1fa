import Kieker.Application.Chronicle
import Kieker.Application.Tracking
import Kieker.Connection.Failures
import Kieker.Wire.Entries

/-!
# Operations of the event aspect

All operations go through the event aspect, and the filter stays as it is. Every
thread id has at most one trace, from its first call on. The records of this trace
are the events of those operations whose class is not excluded, in the order of
the calls, and its metadata in front if there is any event at all.

An event of entering carries the number that it should; an event of leaving
carries the number of the event before it, since the after probe builds its record
before it advances the counter.
-/

namespace Kieker

open Nesting

/-- The event of an operation with the event aspect that a record reports, and its number. -/
def Record.aspectEvent : Record → Option (Event Operation × ℤ)
  | .traceMetadata _ => none
  | .beforeOperationEvent value =>
      some (.enter ⟨.event, value.classSignature, value.operationSignature⟩, value.orderIndex)
  | .afterOperationEvent value =>
      some (.leave ⟨.event, value.classSignature, value.operationSignature⟩, value.orderIndex)

/-- The class of the operation is not excluded. -/
def AdaptiveFilter.Includes (filter : AdaptiveFilter) (operation : Operation) : Bool :=
  !filter.isClassExcluded operation.classSignature

/-- The number that an event carries behind `position` other events of its trace. -/
def carriedNumber (position : ℕ) : Event Operation → ℤ
  | .enter _ => position
  | .leave _ => position - 1

/-- The records of a trace: nothing without an event, and otherwise metadata and the events. -/
def Reports (events : List (Event Operation)) (records : List Record) : Prop :=
  (events = [] ∧ records = []) ∨
    events ≠ [] ∧ ∃ metadata rest, records = .traceMetadata metadata :: rest ∧
      rest.map Record.aspectEvent =
        events.zipIdx.map fun numbered => some (numbered.1, carriedNumber numbered.2 numbered.1)

theorem Reports.snoc {events : List (Event Operation)} {records built : List Record}
    {event : Event Operation} {record : Record} (reports : Reports events records)
    (opens : events = [] → ∃ metadata, built = [.traceMetadata metadata, record])
    (continues : events ≠ [] → built = [record])
    (reported : record.aspectEvent = some (event, carriedNumber events.length event)) :
    Reports (events ++ [event]) (records ++ built) := by
  right
  refine ⟨by simp, ?_⟩
  rcases reports with ⟨rfl, rfl⟩ | ⟨notEmpty, metadata, rest, rfl, numbered⟩
  · rcases opens rfl with ⟨metadata, rfl⟩
    exact ⟨metadata, [record], rfl, by simpa using reported⟩
  · refine ⟨metadata, rest ++ [record], ?_, ?_⟩
    · rw [continues notEmpty, List.cons_append]
    · simp [numbered, reported, List.zipIdx_append]

variable {Thread : Type} [DecidableEq Thread]

/-- The events under a thread id, in the order of the calls, without those of excluded classes. -/
def includedWith (selfOf : Thread → PthreadSelf) (filter : AdaptiveFilter)
    (calls : List (Call Thread)) (threadId : ℤ) : List (Event Operation) :=
  ((calls.filter fun call => threadIdOf (selfOf call.thread) = threadId).map Call.event).filter
    fun event => filter.Includes event.label

/-- What holds between the calls of an application that uses the event aspect. -/
structure Application.Observed (selfOf : Thread → PthreadSelf) (start : Library)
    (hostname : CString) (calls : List (Call Thread)) (application : Application Thread)
    (known : List CString) : Prop where
  idle : application.library.Idle known hostname
  tracked : Tracked selfOf application.library.registry application.frames
  follows : Follows calls application.frames
  filter : application.library.filter = start.filter
  registered : ∀ call ∈ calls, ∃ trace ∈ application.library.registry.traces,
    trace.threadId = threadIdOf (selfOf call.thread)
  owned : ∀ trace ∈ application.library.registry.traces, ∃ call ∈ calls,
    threadIdOf (selfOf call.thread) = trace.threadId
  apart : ∀ trace ∈ application.library.registry.traces,
    ∀ other ∈ application.library.registry.traces, trace.traceId = other.traceId → trace = other
  used : ∀ trace ∈ application.library.registry.traces,
    trace.traceId < application.library.registry.currentId
  numbered : ∀ trace ∈ application.library.registry.traces, trace.orderIndex + 1 =
    (includedWith selfOf start.filter calls trace.threadId).length
  reports : ∀ trace ∈ application.library.registry.traces,
    Reports (includedWith selfOf start.filter calls trace.threadId)
      (recordsOf trace.traceId application.sent)
  covered : ∀ logged ∈ application.sent, ∃ trace ∈ application.library.registry.traces,
    logged.record.traceId = trace.traceId
  socket : application.library.channel.controller.socket = start.channel.controller.socket
  carries : ∃ made, application.library.channel.world.log = start.channel.world.log ++ made ∧
    Carries known start.channel.controller.socket made application.sent

variable {kernel : Kernel} {selfOf : Thread → PthreadSelf} {start after : Library}
  {filter : AdaptiveFilter} {hostname : CString} {known : List CString}
  {calls : List (Call Thread)} {next : Call Thread} {application later : Application Thread}
  {trace changed : KiekerTrace} {thread : Thread} {operation : Operation} {address : ℕ}

/-! ### Included events -/

omit [DecidableEq Thread] in
theorem includedWith_concat_self (selfOf : Thread → PthreadSelf) (calls : List (Call Thread))
    (next : Call Thread) (included : filter.Includes next.event.label = true) :
    includedWith selfOf filter (calls ++ [next]) (threadIdOf (selfOf next.thread)) =
      includedWith selfOf filter calls (threadIdOf (selfOf next.thread)) ++ [next.event] := by
  simp [includedWith, included]

omit [DecidableEq Thread] in
theorem includedWith_concat_of_excluded (selfOf : Thread → PthreadSelf)
    (calls : List (Call Thread)) (next : Call Thread)
    (excluded : filter.Includes next.event.label = false) (threadId : ℤ) :
    includedWith selfOf filter (calls ++ [next]) threadId =
      includedWith selfOf filter calls threadId := by
  by_cases mine : threadIdOf (selfOf next.thread) = threadId
  · simp [includedWith, mine, excluded]
  · simp [includedWith, mine]

omit [DecidableEq Thread] in
theorem includedWith_concat_of_ne {threadId : ℤ}
    (different : threadId ≠ threadIdOf (selfOf next.thread)) :
    includedWith selfOf filter (calls ++ [next]) threadId =
      includedWith selfOf filter calls threadId := by
  simp [includedWith, different.symm]

omit [DecidableEq Thread] in
theorem includedWith_eq_nil {threadId : ℤ}
    (noCall : ∀ call ∈ calls, threadIdOf (selfOf call.thread) ≠ threadId) :
    includedWith selfOf filter calls threadId = [] := by
  have none : (calls.filter fun call => threadIdOf (selfOf call.thread) = threadId) = [] := by
    rw [List.filter_eq_nil_iff]
    intro call call_mem
    simpa using noCall call call_mem
  rw [includedWith, none]
  rfl

/-- The event of entering an operation that is still open is among the included ones. -/
theorem mem_includedWith_of_open (selfOf : Thread → PthreadSelf)
    {frames : List (Frame Thread Operation)} {frame : Frame Thread Operation}
    (follows : Follows calls frames) (isOpen : frame ∈ frames)
    (included : filter.Includes frame.operation = true) :
    .enter frame.operation ∈ includedWith selfOf filter calls
      (threadIdOf (selfOf frame.thread)) := by
  have onStack : frame.operation ∈
      (stackOf Frame.thread frame.thread frames).map Frame.operation := by
    apply List.mem_map_of_mem
    exact List.mem_filter.mpr ⟨isOpen, decide_eq_true rfl⟩
  have entered := enter_mem_of_open (follows frame.thread) onStack
  rcases List.mem_map.mp entered with ⟨call, call_mem, isEnter⟩
  rcases List.mem_filter.mp call_mem with ⟨isCall, sameThread⟩
  rw [decide_eq_true_eq] at sameThread
  rw [includedWith, List.mem_filter, List.mem_map]
  refine ⟨⟨call, List.mem_filter.mpr ⟨isCall, ?_⟩, isEnter⟩, included⟩
  rw [sameThread, decide_eq_true_eq]

/-! ### What the event aspect sends -/

variable {self : PthreadSelf} {library : Library}

theorem Operation.entry_of_event (event : operation.probe = .event) (filter : AdaptiveFilter) :
    operation.entry filter =
      if filter.Includes operation then KiekerTrace.enter else KiekerTrace.push := by
  rw [Operation.entry, event, AdaptiveFilter.Includes]
  cases excluded : filter.isClassExcluded operation.classSignature with
  | true => simp [AdaptiveFilter.entry, excluded]
  | false => simp [AdaptiveFilter.entry, excluded]

theorem Operation.exit_of_event (event : operation.probe = .event) (filter : AdaptiveFilter) :
    operation.exit filter =
      if filter.Includes operation then KiekerTrace.leave else KiekerTrace.pop := by
  rw [Operation.exit, event, AdaptiveFilter.Includes]
  cases excluded : filter.isClassExcluded operation.classSignature with
  | true => simp [AdaptiveFilter.exit, excluded]
  | false => simp [AdaptiveFilter.exit, excluded]

theorem records_enterEmission_of_excluded (event : operation.probe = .event)
    (excluded : library.filter.Includes operation = false) :
    (library.enterEmission kernel self operation).records = [] := by
  rw [AdaptiveFilter.Includes, Bool.not_eq_false'] at excluded
  simp [Library.enterEmission, event, aspectBeforeEmission, excluded, Emission.records]

theorem records_leaveEmission_of_excluded (event : operation.probe = .event)
    (excluded : library.filter.Includes operation = false)
    (found : library.registry.deref address = some trace) :
    (library.leaveEmission kernel self operation address).records = [] := by
  rw [AdaptiveFilter.Includes, Bool.not_eq_false'] at excluded
  simp [Library.leaveEmission, event, found, aspectAfterEmission, excluded, Emission.records]

/-- The event of an included class, and metadata in front of it for a trace without an event. -/
theorem records_enterEmission_of_included (kernel : Kernel) (self : PthreadSelf)
    (event : operation.probe = .event) (included : library.filter.Includes operation = true) :
    ∃ reading, (library.enterEmission kernel self operation).records =
      openingLogged kernel library.hostname library.channel.world.clockReads
          (library.registry.current kernel self) ++
        [beforeLogged kernel reading (library.registry.current kernel self).enter
          operation.classSignature operation.operationSignature] := by
  rw [AdaptiveFilter.Includes, Bool.not_eq_true'] at included
  simp only [Library.enterEmission, event, aspectBeforeEmission, included, Bool.false_eq_true,
    if_false, Emission.records, if_true]
  exact ⟨_, rfl⟩

theorem records_leaveEmission_of_included (event : operation.probe = .event)
    (included : library.filter.Includes operation = true)
    (found : library.registry.deref address = some trace) :
    (library.leaveEmission kernel self operation address).records =
      [afterLogged kernel library.channel.world.clockReads trace operation.classSignature
        operation.operationSignature] := by
  rw [AdaptiveFilter.Includes, Bool.not_eq_true'] at included
  simp [Library.leaveEmission, event, found, aspectAfterEmission, included, Emission.records]

theorem aspectEvent_beforeLogged (kernel : Kernel) (trace : KiekerTrace)
    (event : operation.probe = .event) (reading : ℕ) :
    (beforeLogged kernel reading trace operation.classSignature
      operation.operationSignature).record.aspectEvent =
      some (.enter operation, trace.orderIndex) := by
  rcases operation with ⟨probe, classSignature, operationSignature⟩
  cases event
  rfl

theorem aspectEvent_afterLogged (kernel : Kernel) (trace : KiekerTrace)
    (event : operation.probe = .event) (reading : ℕ) :
    (afterLogged kernel reading trace operation.classSignature
      operation.operationSignature).record.aspectEvent =
      some (.leave operation, trace.orderIndex) := by
  rcases operation with ⟨probe, classSignature, operationSignature⟩
  cases event
  rfl

/-! ### Single calls -/

namespace Application.Observed

/-- A call keeps the invariant if it does on the one trace that it changes. -/
theorem advance (observed : application.Observed selfOf start hostname calls known)
    {registry : TraceRegistry} {emission : Emission} {frames : List (Frame Thread Operation)}
    (called : application.library.Calls kernel after known registry emission)
    (tracked : Tracked selfOf registry frames) (follows : Follows (calls ++ [next]) frames)
    (mem : ∀ other, other ∈ registry.traces ↔
      other = changed ∨
        other ∈ application.library.registry.traces ∧ other.address ≠ changed.address)
    (mine : changed.threadId = threadIdOf (selfOf next.thread))
    (retains : application.library.registry.Retains registry)
    (below : changed.traceId < registry.currentId)
    (grows : application.library.registry.currentId ≤ registry.currentId)
    (others : ∀ other ∈ application.library.registry.traces, other.address ≠ changed.address →
      other.threadId ≠ changed.threadId ∧ other.traceId ≠ changed.traceId)
    (numbered : changed.orderIndex + 1 =
      (includedWith selfOf start.filter (calls ++ [next]) changed.threadId).length)
    (reports : Reports (includedWith selfOf start.filter (calls ++ [next]) changed.threadId)
      (recordsOf changed.traceId (application.sent ++ emission.records)))
    (ofTrace : ∀ logged ∈ emission.records, logged.record.traceId = changed.traceId) :
    (⟨after, frames, application.sent ++ emission.records⟩ : Application Thread).Observed selfOf
      start hostname (calls ++ [next]) (Interning.internAll known emission.strings) := by
  have sameMap := called.registry
  subst sameMap
  have isMember : changed ∈ after.registry.traces := (mem changed).mpr (Or.inl rfl)
  refine ⟨called.idle observed.idle tracked.wellFormed, tracked, follows,
    called.filter.trans observed.filter, ?_, ?_, ?_, ?_, ?_, ?_, ?_, ?_, ?_⟩
  · intro call call_mem
    rcases List.mem_append.mp call_mem with earlier | isLast
    · rcases observed.registered call earlier with ⟨trace, inMap, ofThread⟩
      rcases retains trace inMap with ⟨same, sameInMap, -, sameThread, -⟩
      exact ⟨same, sameInMap, sameThread.trans ofThread⟩
    · rw [List.mem_singleton.mp isLast]
      exact ⟨changed, isMember, mine⟩
  · intro trace inMap
    rcases (mem trace).mp inMap with rfl | ⟨old, -⟩
    · exact ⟨next, List.mem_append_right _ List.mem_cons_self, mine.symm⟩
    · rcases observed.owned trace old with ⟨call, call_mem, ofThread⟩
      exact ⟨call, List.mem_append_left _ call_mem, ofThread⟩
  · intro trace inMap other otherInMap same
    rcases (mem trace).mp inMap with rfl | ⟨old, different⟩
    · rcases (mem other).mp otherInMap with rfl | ⟨otherOld, otherDifferent⟩
      · rfl
      · exact absurd same.symm (others other otherOld otherDifferent).2
    · rcases (mem other).mp otherInMap with rfl | ⟨otherOld, otherDifferent⟩
      · exact absurd same (others trace old different).2
      · exact observed.apart trace old other otherOld same
  · intro trace inMap
    rcases (mem trace).mp inMap with rfl | ⟨old, -⟩
    · exact below
    · exact (observed.used trace old).trans_le grows
  · intro trace inMap
    rcases (mem trace).mp inMap with rfl | ⟨old, different⟩
    · exact numbered
    · rw [includedWith_concat_of_ne (mine ▸ (others trace old different).1)]
      exact observed.numbered trace old
  · intro trace inMap
    rcases (mem trace).mp inMap with rfl | ⟨old, different⟩
    · exact reports
    · have untouched : recordsOf trace.traceId emission.records = [] := by
        apply recordsOf_of_none
        intro logged isSent
        rw [ofTrace logged isSent]
        exact (others trace old different).2.symm
      rw [includedWith_concat_of_ne (mine ▸ (others trace old different).1), recordsOf_append,
        untouched, List.append_nil]
      exact observed.reports trace old
  · intro logged isSent
    rcases List.mem_append.mp isSent with earlier | now
    · rcases observed.covered logged earlier with ⟨trace, inMap, ofEarlier⟩
      rcases retains trace inMap with ⟨same, sameInMap, -, -, sameTrace⟩
      exact ⟨same, sameInMap, ofEarlier.trans sameTrace.symm⟩
    · exact ⟨changed, isMember, ofTrace logged now⟩
  · exact called.emits.socket.trans observed.socket
  · rcases observed.carries with ⟨made, logEq, carries⟩
    exact called.emits.carries observed.socket logEq carries

/-- The current trace of a thread is told so far by its records, if it is new or not. -/
theorem current (observed : application.Observed selfOf start hostname calls known)
    (kernel : Kernel) (thread : Thread) (change : KiekerTrace → KiekerTrace) :
    (application.library.registry.current kernel (selfOf thread)).orderIndex + 1 =
        (includedWith selfOf start.filter calls (threadIdOf (selfOf thread))).length ∧
      Reports (includedWith selfOf start.filter calls (threadIdOf (selfOf thread)))
        (recordsOf (application.library.registry.current kernel (selfOf thread)).traceId
          application.sent) ∧
      (∀ other ∈ application.library.registry.traces,
        other.address ≠ (application.library.registry.current kernel (selfOf thread)).address →
          other.threadId ≠ threadIdOf (selfOf thread) ∧
          other.traceId ≠ (application.library.registry.current kernel (selfOf thread)).traceId) ∧
      (application.library.registry.current kernel (selfOf thread)).traceId <
        (application.library.registry.entering kernel (selfOf thread) change).currentId ∧
      application.library.registry.currentId ≤
        (application.library.registry.entering kernel (selfOf thread) change).currentId := by
  have wellFormed := observed.idle.wellFormed
  cases found : application.library.registry.traceFind (threadIdOf (selfOf thread)) with
  | some trace =>
      rcases TraceRegistry.mem_of_traceFind found with ⟨inMap, mine⟩
      rw [(TraceRegistry.traceGet_of_some kernel found).2,
        TraceRegistry.currentId_entering_of_some found, ← mine]
      refine ⟨observed.numbered trace inMap, observed.reports trace inMap, ?_,
        observed.used trace inMap, le_refl _⟩
      intro other otherInMap different
      refine ⟨?_, ?_⟩
      · intro same
        rw [wellFormed.eq_of_threadId otherInMap inMap same] at different
        exact different rfl
      · intro same
        rw [observed.apart other otherInMap trace inMap same] at different
        exact different rfl
  | none =>
      have created : application.library.registry.current kernel (selfOf thread) =
          TraceRegistry.traceCreate kernel application.library.registry.allocated
            (threadIdOf (selfOf thread)) application.library.registry.currentId := by
        simp only [TraceRegistry.current, found]
      have noCall : includedWith selfOf start.filter calls (threadIdOf (selfOf thread)) = [] := by
        apply includedWith_eq_nil
        intro call call_mem same
        rcases observed.registered call call_mem with ⟨trace, inMap, ofThread⟩
        exact TraceRegistry.threadId_ne_of_traceFind found inMap (ofThread.trans same)
      have noRecord : recordsOf application.library.registry.currentId application.sent = [] := by
        apply recordsOf_of_none
        intro logged isSent
        rcases observed.covered logged isSent with ⟨trace, inMap, ofTrace⟩
        rw [ofTrace]
        exact (observed.used trace inMap).ne
      rw [created, noCall, TraceRegistry.currentId_entering_of_none found]
      refine ⟨rfl, Or.inl ⟨rfl, noRecord⟩, ?_, lt_add_one _, (lt_add_one _).le⟩
      intro other otherInMap _
      exact ⟨TraceRegistry.threadId_ne_of_traceFind found otherInMap,
        (observed.used other otherInMap).ne⟩

/-- Entering an operation tells its event if its class is included, and nothing otherwise. -/
theorem told_enter (observed : application.Observed selfOf start hostname calls known)
    (kernel : Kernel) (thread : Thread) (event : operation.probe = .event) :
    (operation.entry application.library.filter
        (application.library.registry.current kernel (selfOf thread))).orderIndex + 1 =
        (includedWith selfOf start.filter (calls ++ [⟨thread, .enter operation⟩])
          (threadIdOf (selfOf thread))).length ∧
      Reports (includedWith selfOf start.filter (calls ++ [⟨thread, .enter operation⟩])
          (threadIdOf (selfOf thread)))
        (recordsOf (application.library.registry.current kernel (selfOf thread)).traceId
          (application.sent ++
            (application.library.enterEmission kernel (selfOf thread) operation).records)) ∧
      ∀ logged ∈ (application.library.enterEmission kernel (selfOf thread) operation).records,
        logged.record.traceId =
          (application.library.registry.current kernel (selfOf thread)).traceId := by
  rcases observed.current kernel thread (operation.entry application.library.filter) with
    ⟨numbered, reports, -⟩
  rw [Operation.entry_of_event event, observed.filter]
  cases included : start.filter.Includes operation with
  | false =>
      have excluded : application.library.filter.Includes operation = false := by
        rw [observed.filter, included]
      rw [includedWith_concat_of_excluded selfOf calls ⟨thread, .enter operation⟩ included,
        records_enterEmission_of_excluded event excluded, List.append_nil]
      exact ⟨numbered, reports, fun _ isSent => absurd isSent List.not_mem_nil⟩
  | true =>
      have alsoIncluded : application.library.filter.Includes operation = true := by
        rw [observed.filter, included]
      rcases records_enterEmission_of_included kernel (selfOf thread) event alsoIncluded with
        ⟨reading, records⟩
      have events := includedWith_concat_self selfOf calls ⟨thread, .enter operation⟩ included
      have number : (application.library.registry.current kernel (selfOf thread)).enter.orderIndex =
          (includedWith selfOf start.filter calls (threadIdOf (selfOf thread))).length := numbered
      rw [events, records]
      have ofTrace : ∀ logged ∈ openingLogged kernel application.library.hostname
            application.library.channel.world.clockReads
            (application.library.registry.current kernel (selfOf thread)) ++
          [beforeLogged kernel reading
            (application.library.registry.current kernel (selfOf thread)).enter
            operation.classSignature operation.operationSignature],
          logged.record.traceId =
            (application.library.registry.current kernel (selfOf thread)).traceId := by
        intro logged isSent
        rcases List.mem_append.mp isSent with isOpening | isEvent
        · rw [mem_openingLogged isOpening]
          rfl
        · rw [List.mem_singleton.mp isEvent]
          rfl
      refine ⟨?_, ?_, ofTrace⟩
      · rw [if_pos rfl, List.length_append, number]
        rfl
      · rw [recordsOf_append, recordsOf_of_all ofTrace, List.map_append]
        have reported := aspectEvent_beforeLogged kernel
          (application.library.registry.current kernel (selfOf thread)).enter event reading
        rw [number] at reported
        refine reports.snoc ?_ ?_ reported
        · intro noEvent
          have isNew : (application.library.registry.current kernel (selfOf thread)).orderIndex =
              -1 := by
            rw [noEvent, List.length_nil] at numbered
            push_cast at numbered
            linarith
          exact ⟨_, by rw [openingLogged, if_pos isNew]; rfl⟩
        · intro someEvent
          have notNew : (application.library.registry.current kernel (selfOf thread)).orderIndex ≠
              -1 := by
            have positive := List.length_pos_of_ne_nil someEvent
            omega
          rw [openingLogged, if_neg notNew]
          rfl

theorem enter (observed : application.Observed selfOf start hostname calls known)
    (event : operation.probe = .event)
    (done : application.library.enter kernel (selfOf thread) operation = some (address, after)) :
    ∃ known, Application.Observed selfOf start hostname (calls ++ [⟨thread, .enter operation⟩])
      ⟨after, ⟨thread, operation, address⟩ :: application.frames, application.sent ++
        (application.library.enterEmission kernel (selfOf thread) operation).records⟩ known := by
  rcases Library.enter_eq_some observed.idle done with ⟨addressEq, called⟩
  have wellFormed := observed.idle.wellFormed
  have keeps := operation.keepsIdentity_entry application.library.filter
  rcases observed.current kernel thread (operation.entry application.library.filter) with
    ⟨-, -, others, below, grows⟩
  rcases observed.told_enter kernel thread event with ⟨numbered, reports, ofTrace⟩
  have mine : (operation.entry application.library.filter
      (application.library.registry.current kernel (selfOf thread))).threadId =
        threadIdOf (selfOf thread) :=
    (keeps.threadId _).trans TraceRegistry.threadId_current
  refine ⟨_, observed.advance called
    (Tracked.enter ⟨thread, operation, address⟩ observed.tracked keeps
      (operation.stack_entry _) addressEq)
    (observed.follows.enter address) ?_ mine (.entering wellFormed keeps) ?_ grows ?_ ?_ ?_ ?_⟩
  · intro other
    rw [TraceRegistry.mem_entering wellFormed, keeps.address]
  · rw [keeps.traceId]
    exact below
  · rw [mine, keeps.address, keeps.traceId]
    exact others
  · rw [mine]
    exact numbered
  · rw [mine, keeps.traceId]
    exact reports
  · rw [keeps.traceId]
    exact ofTrace

theorem told_leave (observed : application.Observed selfOf start hostname calls known)
    (kernel : Kernel) {frame : Frame Thread Operation} (isOpen : frame ∈ application.frames)
    (event : frame.operation.probe = .event) (inMap : trace ∈ application.library.registry.traces)
    (mine : trace.threadId = threadIdOf (selfOf frame.thread)) :
    (frame.operation.exit application.library.filter trace).orderIndex + 1 =
        (includedWith selfOf start.filter (calls ++ [⟨frame.thread, .leave frame.operation⟩])
          trace.threadId).length ∧
      Reports (includedWith selfOf start.filter
          (calls ++ [⟨frame.thread, .leave frame.operation⟩]) trace.threadId)
        (recordsOf trace.traceId (application.sent ++ (application.library.leaveEmission kernel
          (selfOf frame.thread) frame.operation trace.address).records)) ∧
      ∀ logged ∈ (application.library.leaveEmission kernel (selfOf frame.thread) frame.operation
          trace.address).records, logged.record.traceId = trace.traceId := by
  have numbered := observed.numbered trace inMap
  have reports := observed.reports trace inMap
  have found := observed.idle.wellFormed.deref_of_mem inMap
  rw [Operation.exit_of_event event, observed.filter]
  cases included : start.filter.Includes frame.operation with
  | false =>
      have excluded : application.library.filter.Includes frame.operation = false := by
        rw [observed.filter, included]
      rw [includedWith_concat_of_excluded selfOf calls ⟨frame.thread, .leave frame.operation⟩
          included, records_leaveEmission_of_excluded event excluded found, List.append_nil]
      exact ⟨numbered, reports, fun _ isSent => absurd isSent List.not_mem_nil⟩
  | true =>
      have alsoIncluded : application.library.filter.Includes frame.operation = true := by
        rw [observed.filter, included]
      have someEvent : includedWith selfOf start.filter calls trace.threadId ≠ [] := by
        rw [mine]
        exact List.ne_nil_of_mem (mem_includedWith_of_open selfOf observed.follows isOpen included)
      have events := includedWith_concat_self selfOf calls
        ⟨frame.thread, .leave frame.operation⟩ included
      rw [← mine] at events
      have ofTrace : ∀ logged ∈ [afterLogged kernel application.library.channel.world.clockReads
          trace frame.operation.classSignature frame.operation.operationSignature],
          logged.record.traceId = trace.traceId := by
        intro logged isSent
        rw [List.mem_singleton.mp isSent]
        rfl
      rw [events, records_leaveEmission_of_included event alsoIncluded found]
      refine ⟨?_, ?_, ofTrace⟩
      · rw [if_pos rfl, List.length_append, List.length_singleton]
        change trace.orderIndex + 1 + 1 = _
        rw [numbered]
        push_cast
        rfl
      · rw [recordsOf_append, recordsOf_of_all ofTrace]
        have number : trace.orderIndex = ((includedWith selfOf start.filter calls
            trace.threadId).length : ℤ) - 1 := by omega
        have reported := aspectEvent_afterLogged kernel trace event
          application.library.channel.world.clockReads
        rw [number] at reported
        exact reports.snoc (fun noEvent => absurd noEvent someEvent) (fun _ => rfl) reported

theorem leave (observed : application.Observed selfOf start hostname calls known)
    {frame : Frame Thread Operation} {rest : List (Frame Thread Operation)}
    (popped : pop Frame.thread frame.thread application.frames = some (frame, rest))
    (event : frame.operation.probe = .event)
    (done : application.library.leave kernel (selfOf frame.thread) frame.operation frame.trace =
      some after) :
    ∃ known, Application.Observed selfOf start hostname
      (calls ++ [⟨frame.thread, .leave frame.operation⟩])
      ⟨after, rest, application.sent ++ (application.library.leaveEmission kernel
        (selfOf frame.thread) frame.operation frame.trace).records⟩ known := by
  have isOpen : frame ∈ application.frames :=
    (perm_of_pop popped).mem_iff.mpr List.mem_cons_self
  rcases observed.tracked.framed frame isOpen with ⟨trace, inMap, address, mine⟩
  rw [← address] at done ⊢
  have wellFormed := observed.idle.wellFormed
  have keeps := frame.operation.keepsIdentity_exit application.library.filter
  have called := Library.leave_eq_some observed.idle inMap mine done
  have enough := observed.tracked.stack_pos popped inMap mine
  have bound : frame.operation.bound = -1 := by rw [Operation.bound, event]
  -- The stack counts the operation that is left, so it does not come down to `-1`.
  have above : (frame.operation.exit application.library.filter trace).stack ≠
      frame.operation.bound := by
    rw [bound, Operation.stack_exit]
    omega
  rcases observed.told_leave kernel isOpen event inMap mine with ⟨numbered, reports, ofTrace⟩
  refine ⟨_, observed.advance called
    (observed.tracked.leave popped keeps (frame.operation.stack_exit _)
      frame.operation.bound_nonpos inMap mine)
    (observed.follows.leave popped) ?_ ((keeps.threadId trace).trans mine) (.leaving keeps above)
    ?_ ?_ ?_ ?_ ?_ ?_⟩
  · intro other
    rw [TraceRegistry.mem_leaving wellFormed keeps inMap, keeps.address, and_iff_left above]
  · rw [keeps.traceId, TraceRegistry.currentId_leaving]
    exact observed.used trace inMap
  · rw [TraceRegistry.currentId_leaving]
  · intro other otherInMap different
    rw [keeps.address] at different
    rw [keeps.threadId, keeps.traceId]
    refine ⟨?_, ?_⟩
    · intro same
      rw [wellFormed.eq_of_threadId otherInMap inMap same] at different
      exact different rfl
    · intro same
      rw [observed.apart other otherInMap trace inMap same] at different
      exact different rfl
  · rw [keeps.threadId]
    exact numbered
  · rw [keeps.threadId, keeps.traceId]
    exact reports
  · rw [keeps.traceId]
    exact ofTrace

theorem step (observed : application.Observed selfOf start hostname calls known)
    (event : next.event.label.probe = .event)
    (done : application.call kernel selfOf next = some later) :
    ∃ known, later.Observed selfOf start hostname (calls ++ [next]) known := by
  rcases next with ⟨thread, operation | operation⟩
  · rcases Application.call_enter_eq_some.mp done with ⟨address, library, entered, rfl⟩
    exact observed.enter event entered
  · rcases Application.call_leave_eq_some.mp done with
      ⟨frame, rest, library, popped, rfl, left, rfl⟩
    have own := owner_of_pop popped
    subst own
    exact observed.leave popped event left

theorem initial (idle : start.Idle known hostname) (noTraces : start.registry.traces = []) :
    (Application.start start : Application Thread).Observed selfOf start hostname [] known := by
  have nothing : ∀ trace, trace ∉ start.registry.traces := by
    rw [noTraces]
    exact fun _ => List.not_mem_nil
  exact {
    idle := idle
    tracked := ⟨idle.wellFormed, fun _ frame_mem => absurd frame_mem List.not_mem_nil,
      fun trace inMap => absurd inMap (nothing trace)⟩
    follows := .nil
    filter := rfl
    registered := fun _ call_mem => absurd call_mem List.not_mem_nil
    owned := fun trace inMap => absurd inMap (nothing trace)
    apart := fun trace inMap => absurd inMap (nothing trace)
    used := fun trace inMap => absurd inMap (nothing trace)
    numbered := fun trace inMap => absurd inMap (nothing trace)
    reports := fun trace inMap => absurd inMap (nothing trace)
    covered := fun _ isSent => absurd isSent List.not_mem_nil
    socket := rfl
    carries := ⟨[], (List.append_nil _).symm, .nil _ _⟩ }

theorem of_run (idle : start.Idle known hostname) (noTraces : start.registry.traces = [])
    (events : ∀ call ∈ calls, call.event.label.probe = .event)
    (done : Application.run kernel selfOf calls (Application.start start) = some application) :
    ∃ known, application.Observed selfOf start hostname calls known := by
  induction calls using List.reverseRecOn generalizing application with
  | nil =>
      cases done
      exact ⟨known, initial idle noTraces⟩
  | append_singleton calls last ih =>
      rw [Application.run_concat, Option.bind_eq_some_iff] at done
      rcases done with ⟨middle, earlier, called⟩
      rcases ih (fun call call_mem => events call (List.mem_append_left _ call_mem)) earlier with
        ⟨middleKnown, observed⟩
      exact observed.step (events last (List.mem_append_right _ List.mem_cons_self)) called

theorem exists_run (kernel : Kernel) (idle : start.Idle known hostname)
    (noTraces : start.registry.traces = []) (hostnameFits : hostname.Fits)
    (nested : WellNested calls) (events : ∀ call ∈ calls, call.event.label.probe = .event)
    (fits : ∀ call ∈ calls, call.operation.classSignature.Fits ∧
      call.operation.operationSignature.Fits) :
    ∃ final, Application.run kernel selfOf calls (Application.start start) = some final := by
  induction calls using List.reverseRecOn with
  | nil => exact ⟨_, rfl⟩
  | append_singleton calls last ih =>
      have earlier : ∀ call ∈ calls, call ∈ calls ++ [last] :=
        fun call call_mem => List.mem_append_left _ call_mem
      have isLast : last ∈ calls ++ [last] := List.mem_append_right _ List.mem_cons_self
      rcases ih nested.of_append (fun call call_mem => events call (earlier call call_mem))
        (fun call call_mem => fits call (earlier call call_mem)) with ⟨middle, ran⟩
      rcases of_run idle noTraces (fun call call_mem => events call (earlier call call_mem)) ran with
        ⟨middleKnown, observed⟩
      rcases observed.tracked.call_isSome kernel observed.idle observed.follows nested hostnameFits
        (fits last isLast).1 (fits last isLast).2 with ⟨final, called⟩
      refine ⟨final, ?_⟩
      rw [Application.run_concat, ran, Option.bind_some, called]

end Application.Observed

/-! ### Numbers -/

/-- The numbers that the events of a trace carry, in the order in which they are sent. -/
def orderIndices (id : ℤ) (sent : List Logged) : List ℤ :=
  (recordsOf id sent).filterMap fun record => record.aspectEvent.map Prod.snd

/-- The events of every trace are numbered `0`, `1`, `2`, and so on. -/
def NumbersEvents (sent : List Logged) : Prop :=
  ∀ id, orderIndices id sent =
    (List.range (orderIndices id sent).length).map fun number : ℕ => (number : ℤ)

/-- An event of leaving does not carry the number of its position. -/
theorem carriedNumbers_eq_iff {events : List (Event Operation)} :
    (events.zipIdx.map fun numbered => carriedNumber numbered.2 numbered.1) =
        (List.range events.length).map (fun number : ℕ => (number : ℤ)) ↔
      ∀ operation, .leave operation ∉ events := by
  constructor
  · intro same operation left
    rcases List.getElem_of_mem left with ⟨position, below, isLeave⟩
    have numbers := congrArg (fun numbers => numbers[position]?) same
    simp [below, isLeave, carriedNumber] at numbers
  · intro noLeave
    apply List.ext_getElem
    · simp
    · intro position below _
      rw [List.length_map, List.length_zipIdx] at below
      have isMember := List.getElem_mem below
      cases isEvent : events[position] with
      | enter operation => simp [isEvent, carriedNumber]
      | leave operation =>
          rw [isEvent] at isMember
          exact absurd isMember (noLeave operation)

theorem Reports.orderIndices_eq {events : List (Event Operation)} {sent : List Logged} {id : ℤ}
    (reports : Reports events (recordsOf id sent)) :
    orderIndices id sent =
      events.zipIdx.map fun numbered => carriedNumber numbered.2 numbered.1 := by
  rcases reports with ⟨rfl, noRecord⟩ | ⟨-, metadata, rest, records, numbered⟩
  · rw [orderIndices, noRecord]
    rfl
  · have events : orderIndices id sent =
        (rest.map Record.aspectEvent).filterMap (Option.map Prod.snd) := by
      rw [List.filterMap_map, orderIndices, records, List.filterMap_cons_none rfl]
      rfl
    rw [events, numbered, List.filterMap_map]
    exact congrFun List.filterMap_eq_map _

namespace Application.Observed

/-- The events are numbered as they should be exactly if no included operation was left. -/
theorem numbersEvents_iff (observed : application.Observed selfOf start hostname calls known) :
    NumbersEvents application.sent ↔ ∀ call ∈ calls, ∀ operation, call.event = .leave operation →
      start.filter.isClassExcluded operation.classSignature = true := by
  constructor
  · intro numbers call call_mem operation isLeave
    by_contra included
    rcases observed.registered call call_mem with ⟨trace, inMap, mine⟩
    have reported := (observed.reports trace inMap).orderIndices_eq
    have same := numbers trace.traceId
    rw [reported, List.length_map, List.length_zipIdx, carriedNumbers_eq_iff] at same
    apply same operation
    rw [includedWith, List.mem_filter, List.mem_map]
    refine ⟨⟨call, List.mem_filter.mpr ⟨call_mem, decide_eq_true mine.symm⟩, isLeave⟩, ?_⟩
    simpa [AdaptiveFilter.Includes] using included
  · intro excluded id
    by_cases isUsed : ∃ trace ∈ application.library.registry.traces, trace.traceId = id
    · rcases isUsed with ⟨trace, inMap, rfl⟩
      rw [(observed.reports trace inMap).orderIndices_eq, List.length_map, List.length_zipIdx,
        carriedNumbers_eq_iff]
      intro operation left
      rw [includedWith, List.mem_filter, List.mem_map] at left
      rcases left with ⟨⟨call, call_mem, isLeave⟩, included⟩
      have isExcluded := excluded call (List.mem_filter.mp call_mem).1 operation isLeave
      simp [AdaptiveFilter.Includes, isExcluded] at included
    · have noRecord : recordsOf id application.sent = [] := by
        apply recordsOf_of_none
        intro logged isSent same
        rcases observed.covered logged isSent with ⟨trace, inMap, ofTrace⟩
        exact isUsed ⟨trace, inMap, ofTrace.symm.trans same⟩
      rw [orderIndices, noRecord]
      rfl

end Application.Observed

/-- What was offered on the socket are the records sent. -/
theorem Application.Observed.offered
    (observed : application.Observed selfOf start hostname calls known) :
    ∃ made table, application.library.channel.world.log = start.channel.world.log ++ made ∧
      application.library.channel.lookup.Holds table ∧
      Carries table start.channel.controller.socket made application.sent := by
  rcases observed.carries with ⟨made, logEq, carries⟩
  exact ⟨made, known, logEq, observed.idle.ready.holds, carries⟩

/--
In every run through the event aspect, the events of every trace, as they are offered
on the socket, are numbered `0`, `1`, `2`, and so on, exactly if no operation whose
class is not excluded was left: leaving it repeats a number.
-/
theorem event_aspect_numbers_events_iff (idle : start.Idle known hostname)
    (noTraces : start.registry.traces = [])
    (events : ∀ call ∈ calls, call.event.label.probe = .event)
    (done : Application.run kernel selfOf calls (Application.start start) = some application) :
    (∃ made table, application.library.channel.world.log = start.channel.world.log ++ made ∧
      application.library.channel.lookup.Holds table ∧
      Carries table start.channel.controller.socket made application.sent) ∧
    (NumbersEvents application.sent ↔
      ∀ call ∈ calls, ∀ operation, call.event = .leave operation →
        start.filter.isClassExcluded operation.classSignature = true) := by
  rcases Application.Observed.of_run idle noTraces events done with ⟨finalKnown, observed⟩
  exact ⟨observed.offered, observed.numbersEvents_iff⟩

/-- A filter that excludes nothing. -/
def includeAll : AdaptiveFilter :=
  { AdaptiveFilter.initial with mode := 1 }

/-- A filter that excludes the class `Main`. -/
def excludeMain : AdaptiveFilter where
  functionHashes _ := adaptiveHash (CString.literal "Main").bytes
  excludesSize := 1
  mode := 1

def mainOperation : Operation :=
  ⟨.event, .literal "Main", .literal "int main()"⟩

def workerOperation : Operation :=
  ⟨.event, .literal "Worker", .literal "void work()"⟩

theorem includes_mainOperation : includeAll.Includes mainOperation = true := by
  decide

/-- Two threads take turns; what they leave is of the class `Main`. -/
def entryTurns : List (Call Bool) :=
  [⟨true, .enter workerOperation⟩, ⟨false, .enter mainOperation⟩, ⟨true, .enter mainOperation⟩,
    ⟨true, .leave mainOperation⟩, ⟨false, .leave mainOperation⟩, ⟨true, .enter workerOperation⟩]

/-- The class `Main` is excluded, so the entries of one thread are numbered `0` and `1`. -/
theorem event_aspect_numbers_entries :
    ∃ initialized final,
      controllerInitialize Kernel.accepting StartUp.smooth (Library.loaded excludeMain) =
        some initialized ∧
      Application.run Kernel.accepting (fun thread : Bool => BitVec.ofNat 64 thread.toNat)
        entryTurns (Application.start initialized) = some final ∧
      (∃ made table, final.library.channel.world.log = initialized.channel.world.log ++ made ∧
        final.library.channel.lookup.Holds table ∧
        Carries table initialized.channel.controller.socket made final.sent) ∧
      NumbersEvents final.sent := by
  rcases exists_idle_loaded Kernel.accepting excludeMain with
    ⟨initialized, done, idle, noTraces, sameFilter⟩
  have nested : WellNested entryTurns := by
    intro thread
    cases thread <;> exact ⟨_, rfl⟩
  have events : ∀ call ∈ entryTurns, call.event.label.probe = .event := by decide
  rcases Application.Observed.exists_run Kernel.accepting idle noTraces (by decide) nested events
    (by decide) with ⟨final, ran⟩
  rcases event_aspect_numbers_events_iff idle noTraces events ran with ⟨offered, numbers⟩
  refine ⟨initialized, final, done, ran, offered, numbers.mpr ?_⟩
  intro call call_mem operation isLeave
  have left : ∀ call ∈ entryTurns, call.event = .leave call.event.label →
      excludeMain.isClassExcluded call.event.label.classSignature = true := by decide
  have isExcluded := left call call_mem (by rw [isLeave]; rfl)
  rw [isLeave] at isExcluded
  rw [sameFilter]
  exact isExcluded

/-- A thread enters and leaves one operation: both events carry the number `0`. -/
theorem event_aspect_repeats_number :
    ∃ initialized final,
      controllerInitialize Kernel.accepting StartUp.smooth (Library.loaded includeAll) =
        some initialized ∧
      Application.run Kernel.accepting (fun _ : Unit => 7)
        [⟨(), .enter mainOperation⟩, ⟨(), .leave mainOperation⟩] (Application.start initialized) =
        some final ∧
      (∃ made table, final.library.channel.world.log = initialized.channel.world.log ++ made ∧
        final.library.channel.lookup.Holds table ∧
        Carries table initialized.channel.controller.socket made final.sent) ∧
      (∃ id, orderIndices id final.sent = [0, 0]) ∧ ¬NumbersEvents final.sent := by
  rcases exists_idle_loaded Kernel.accepting includeAll with
    ⟨initialized, done, idle, noTraces, sameFilter⟩
  have nested : WellNested [(⟨(), .enter mainOperation⟩ : Call Unit),
      ⟨(), .leave mainOperation⟩] := fun _ => ⟨_, rfl⟩
  have events : ∀ call ∈ [(⟨(), .enter mainOperation⟩ : Call Unit), ⟨(), .leave mainOperation⟩],
      call.event.label.probe = .event := by simp [mainOperation]
  rcases Application.Observed.exists_run Kernel.accepting idle noTraces (by decide) nested events
    (by decide) with ⟨final, ran⟩
  rcases Application.Observed.of_run idle noTraces events ran with ⟨known, observed⟩
  have notExcluded : initialized.filter.Includes mainOperation = true := by
    rw [sameFilter]
    exact includes_mainOperation
  refine ⟨initialized, final, done, ran, observed.offered, ?_, ?_⟩
  · rcases observed.registered _ List.mem_cons_self with ⟨trace, inMap, mine⟩
    refine ⟨trace.traceId, ?_⟩
    rw [(observed.reports trace inMap).orderIndices_eq, mine]
    simp [includedWith, notExcluded, carriedNumber]
  · rw [observed.numbersEvents_iff]
    intro excluded
    have isExcluded := excluded ⟨(), .leave mainOperation⟩ (by simp) mainOperation rfl
    simp [AdaptiveFilter.Includes, isExcluded] at notExcluded

end Kieker
