import Kieker.Application.Chronicle
import Kieker.Application.Tracking
import Kieker.Connection.Failures
import Kieker.Library.Steps
import Kieker.Wire.Entries

/-!
# Processes with plain probes

Threads come and go, and call the plain probes while they live. As long as the
living threads have different thread ids, every thread has a trace exactly while
it has an operation open, and the records tell one trace for each outermost
operation. The kernel is arbitrary: a record counts as sent when it is offered.
-/

namespace Kieker

open Nesting

/-- What happens in a process: threads begin, end, and call probes. -/
inductive Happening (Thread : Type) where
  | begin (thread : Thread)
  | finish (thread : Thread)
  | call (call : Call Thread)

/-- An application and its living threads. -/
structure Process (Thread : Type) where
  application : Application Thread
  live : List Thread

/-- The calls among some happenings. -/
def callsOf {Thread : Type} (happenings : List (Happening Thread)) : List (Call Thread) :=
  happenings.filterMap fun happening =>
    match happening with
    | .call call => some call
    | _ => none

variable {Thread : Type} [DecidableEq Thread]

namespace Process

/-- A process in which no thread runs yet. -/
def start (library : Library) : Process Thread where
  application := Application.start library
  live := []

/-- The traces that are registered. -/
def traces (process : Process Thread) : List KiekerTrace :=
  process.application.library.registry.traces

/--
The steps of a process. A thread that begins has a thread id that no living thread
has; it ends when it has left all its operations, and calls plain probes meanwhile.
-/
inductive Step (kernel : Kernel) (selfOf : Thread → PthreadSelf) :
    Process Thread → Happening Thread → Process Thread → Prop
  | begin (process : Process Thread) (thread : Thread)
      (different : ∀ other ∈ process.live,
        threadIdOf (selfOf other) ≠ threadIdOf (selfOf thread)) :
      Step kernel selfOf process (.begin thread)
        { process with live := thread :: process.live }
  | finish (process : Process Thread) (thread : Thread)
      (nothingOpen : stackOf Frame.thread thread process.application.frames = []) :
      Step kernel selfOf process (.finish thread)
        { process with live := process.live.filter fun other => other ≠ thread }
  | call (process : Process Thread) (call : Call Thread) (later : Application Thread)
      (alive : call.thread ∈ process.live) (plain : call.operation.probe = .plain)
      (called : process.application.call kernel selfOf call = some later) :
      Step kernel selfOf process (.call call) { process with application := later }

end Process

/-! ### What the plain probes send -/

variable {kernel : Kernel} {self : PthreadSelf} {library after : Library} {known : List CString}
  {hostname : CString} {operation : Operation} {trace : KiekerTrace}

theorem records_enterEmission_of_new (plain : operation.probe = .plain)
    (new : (library.registry.current kernel self).orderIndex = -1) :
    (library.enterEmission kernel self operation).records =
      [metadataLogged kernel library.hostname library.channel.world.clockReads
          (library.registry.current kernel self),
        beforeLogged kernel (library.channel.world.clockReads + 1)
          (library.registry.current kernel self).enter operation.classSignature
          operation.operationSignature] := by
  rcases operation with ⟨probe, classSignature, operationSignature⟩
  cases plain
  simp only [Library.enterEmission, beforeEmission, openingLogged, new, if_true]
  rfl

theorem records_enterEmission_of_old (plain : operation.probe = .plain)
    (old : (library.registry.current kernel self).orderIndex ≠ -1) :
    (library.enterEmission kernel self operation).records =
      [beforeLogged kernel library.channel.world.clockReads
        (library.registry.current kernel self).enter operation.classSignature
        operation.operationSignature] := by
  rcases operation with ⟨probe, classSignature, operationSignature⟩
  cases plain
  simp only [Library.enterEmission, beforeEmission, openingLogged, old, if_false]
  rfl

theorem records_leaveEmission (plain : operation.probe = .plain) (address : ℕ) :
    (library.leaveEmission kernel self operation address).records =
      [afterLogged kernel library.channel.world.clockReads
        (library.registry.current kernel self).leave operation.classSignature
        operation.operationSignature] := by
  rcases operation with ⟨probe, classSignature, operationSignature⟩
  cases plain
  rfl

theorem event_beforeLogged (plain : operation.probe = .plain) (reading : ℕ) :
    (beforeLogged kernel reading trace operation.classSignature
      operation.operationSignature).record.event =
      some (.enter operation, trace.orderIndex) := by
  rcases operation with ⟨probe, classSignature, operationSignature⟩
  cases plain
  rfl

theorem event_afterLogged (plain : operation.probe = .plain) (reading : ℕ) :
    (afterLogged kernel reading trace operation.classSignature
      operation.operationSignature).record.event =
      some (.leave operation, trace.orderIndex) := by
  rcases operation with ⟨probe, classSignature, operationSignature⟩
  cases plain
  rfl

theorem Operation.entry_of_plain (plain : operation.probe = .plain) (filter : AdaptiveFilter) :
    operation.entry filter = KiekerTrace.enter := by
  rw [Operation.entry, plain]

theorem Operation.exit_of_plain (plain : operation.probe = .plain) (filter : AdaptiveFilter) :
    operation.exit filter = KiekerTrace.leave := by
  rw [Operation.exit, plain]

theorem Operation.bound_of_plain (plain : operation.probe = .plain) : operation.bound = 0 := by
  rw [Operation.bound, plain]

/-! ### The invariant -/

variable {selfOf : Thread → PthreadSelf} {start : Library} {calls : List (Call Thread)}
  {process later : Process Thread} {ids : Thread → List ℤ} {thread : Thread}

/-- What holds between the steps of a process with plain probes. -/
structure Process.Traced (kernel : Kernel) (selfOf : Thread → PthreadSelf) (start : Library)
    (hostname : CString) (calls : List (Call Thread)) (process : Process Thread)
    (known : List CString) (ids : Thread → List ℤ) : Prop where
  idle : process.application.library.Idle known hostname
  tracked : Tracked selfOf process.application.library.registry process.application.frames
  counts : CountsOpen selfOf process.application.library.registry process.application.frames
  follows : Follows calls process.application.frames
  alive : ∀ frame ∈ process.application.frames, frame.thread ∈ process.live
  apart : ∀ first ∈ process.live, ∀ second ∈ process.live,
    threadIdOf (selfOf first) = threadIdOf (selfOf second) → first = second
  busy : ∀ trace ∈ process.traces, 0 < trace.stack
  latest : ∀ trace ∈ process.traces, ∀ thread ∈ process.live,
    trace.threadId = threadIdOf (selfOf thread) →
      (ids thread).getLast? = some trace.traceId ∧
      trace.orderIndex + 1 = ((outermost (eventsOf thread calls)).getLastD []).length
  chronicle : Chronicle calls process.application.sent
    process.application.library.registry.currentId ids
  socket : process.application.library.channel.controller.socket = start.channel.controller.socket
  carries : ∃ made, process.application.library.channel.world.log = start.channel.world.log ++ made ∧
    Carries known start.channel.controller.socket made process.application.sent

namespace Process.Traced

/-- A trace is registered for a living thread, which has an operation open. -/
theorem owner (traced : process.Traced kernel selfOf start hostname calls known ids)
    (inMap : trace ∈ process.traces) :
    ∃ frame ∈ process.application.frames, frame.thread ∈ process.live ∧
      threadIdOf (selfOf frame.thread) = trace.threadId := by
  have counted := traced.counts trace inMap
  have busy := traced.busy trace inMap
  have someOpen : 0 < openWith selfOf process.application.frames trace.threadId := by omega
  rw [openWith, List.countP_pos_iff] at someOpen
  rcases someOpen with ⟨frame, frame_mem, same⟩
  exact ⟨frame, frame_mem, traced.alive frame frame_mem, of_decide_eq_true same⟩

/-- The operations open under the thread id of a living thread are its own. -/
theorem openWith_eq (traced : process.Traced kernel selfOf start hostname calls known ids)
    (alive : thread ∈ process.live) :
    openWith selfOf process.application.frames (threadIdOf (selfOf thread)) =
      (stackOf Frame.thread thread process.application.frames).length := by
  rw [openWith, stackOf, List.countP_eq_length_filter]
  congr 1
  apply List.filter_congr
  intro frame frame_mem
  rw [decide_eq_decide]
  constructor
  · exact traced.apart _ (traced.alive frame frame_mem) _ alive
  · rintro rfl
    rfl

/-- The trace of a living thread counts its open operations. -/
theorem stack_eq (traced : process.Traced kernel selfOf start hostname calls known ids)
    (alive : thread ∈ process.live) (inMap : trace ∈ process.traces)
    (mine : trace.threadId = threadIdOf (selfOf thread)) :
    trace.stack = (stackOf Frame.thread thread process.application.frames).length := by
  rw [← traced.openWith_eq alive, ← mine]
  exact le_antisymm (traced.counts trace inMap) (traced.tracked.counted trace inMap)

/-- A living thread has a trace exactly while it has an operation open. -/
theorem registered_iff (traced : process.Traced kernel selfOf start hostname calls known ids)
    (alive : thread ∈ process.live) :
    (∃ trace ∈ process.traces, trace.threadId = threadIdOf (selfOf thread)) ↔
      stackOf Frame.thread thread process.application.frames ≠ [] := by
  constructor
  · rintro ⟨trace, inMap, mine⟩ nothingOpen
    have busy := traced.busy trace inMap
    rw [traced.stack_eq alive inMap mine, nothingOpen] at busy
    exact absurd busy (lt_irrefl _)
  · intro someOpen
    rcases List.exists_mem_of_ne_nil _ someOpen with ⟨frame, frame_mem⟩
    rw [stackOf, List.mem_filter, decide_eq_true_eq] at frame_mem
    rcases frame_mem with ⟨isOpen, rfl⟩
    rcases traced.tracked.framed frame isOpen with ⟨trace, inMap, -, mine⟩
    exact ⟨trace, inMap, mine⟩

theorem balanced_iff (traced : process.Traced kernel selfOf start hostname calls known ids) :
    IsBalanced (eventsOf thread calls) ↔
      stackOf Frame.thread thread process.application.frames = [] := by
  rw [IsBalanced, traced.follows thread, Option.some.injEq, List.map_eq_nil_iff]

/-- A thread with nothing open has no trace. -/
theorem traceFind_of_closed (traced : process.Traced kernel selfOf start hostname calls known ids)
    (alive : thread ∈ process.live)
    (nothingOpen : stackOf Frame.thread thread process.application.frames = []) :
    process.application.library.registry.traceFind (threadIdOf (selfOf thread)) = none := by
  cases found : process.application.library.registry.traceFind (threadIdOf (selfOf thread)) with
  | none => rfl
  | some trace =>
      rcases TraceRegistry.mem_of_traceFind found with ⟨inMap, mine⟩
      exact absurd nothingOpen ((traced.registered_iff alive).mp ⟨trace, inMap, mine⟩)

/-- Records that go on with the trace of a thread that has an operation open. -/
theorem chronicle_extend (traced : process.Traced kernel selfOf start hostname calls known ids)
    (call : Call Thread) (alive : call.thread ∈ process.live) (inMap : trace ∈ process.traces)
    (mine : trace.threadId = threadIdOf (selfOf call.thread)) {logged : Logged}
    (ofTrace : logged.record.traceId = trace.traceId)
    (reports : logged.record.event = some (call.event, trace.orderIndex + 1)) :
    Chronicle (calls ++ [call]) (process.application.sent ++ [logged])
      process.application.library.registry.currentId ids := by
  rcases traced.latest trace inMap call.thread alive mine with ⟨isLatest, length⟩
  refine traced.chronicle.extend ?_ isLatest ofTrace ?_
  · rw [traced.balanced_iff]
    exact (traced.registered_iff alive).mp ⟨trace, inMap, mine⟩
  · rw [reports, length]

/-- A trace that is registered has an event. -/
theorem orderIndex_nonneg (traced : process.Traced kernel selfOf start hostname calls known ids)
    (alive : thread ∈ process.live) (inMap : trace ∈ process.traces)
    (mine : trace.threadId = threadIdOf (selfOf thread)) : 0 ≤ trace.orderIndex := by
  have length := (traced.latest trace inMap thread alive mine).2
  have lastOpen := (openAfter_outermost (traced.follows thread)).2
  have someOpen := (traced.registered_iff alive).mp ⟨trace, inMap, mine⟩
  cases segment : (outermost (eventsOf thread calls)).getLastD [] with
  | nil =>
      rw [segment, openAfter_nil, Option.some.injEq, eq_comm, List.map_eq_nil_iff] at lastOpen
      exact absurd lastOpen someOpen
  | cons event events =>
      rw [segment, List.length_cons] at length
      push_cast at length
      omega

/-- The next event of a thread goes to its latest trace. -/
theorem latest_snoc (traced : process.Traced kernel selfOf start hostname calls known ids)
    (call : Call Thread) (alive : call.thread ∈ process.live) (inMap : trace ∈ process.traces)
    (mine : trace.threadId = threadIdOf (selfOf call.thread)) :
    (ids call.thread).getLast? = some trace.traceId ∧
      trace.orderIndex + 1 + 1 =
        ((outermost (eventsOf call.thread (calls ++ [call]))).getLastD []).length := by
  rcases traced.latest trace inMap call.thread alive mine with ⟨isLatest, length⟩
  have notClosed : ¬IsBalanced (eventsOf call.thread calls) := by
    rw [traced.balanced_iff]
    exact (traced.registered_iff alive).mp ⟨trace, inMap, mine⟩
  refine ⟨isLatest, ?_⟩
  rw [eventsOf_concat_self, outermost_concat_of_open notClosed, List.getLastD_concat,
    List.length_append, length]
  rfl

theorem latest_other (traced : process.Traced kernel selfOf start hostname calls known ids)
    (call : Call Thread) (inMap : trace ∈ process.traces)
    (different : trace.threadId ≠ threadIdOf (selfOf call.thread)) (alive : thread ∈ process.live)
    (mine : trace.threadId = threadIdOf (selfOf thread)) :
    thread ≠ call.thread ∧ (ids thread).getLast? = some trace.traceId ∧
      trace.orderIndex + 1 =
        ((outermost (eventsOf thread (calls ++ [call]))).getLastD []).length := by
  have otherThread : thread ≠ call.thread := by
    rintro rfl
    exact different mine
  rw [eventsOf_concat_of_ne calls otherThread.symm]
  exact ⟨otherThread, traced.latest trace inMap thread alive mine⟩

theorem carries_after (traced : process.Traced kernel selfOf start hostname calls known ids)
    {registry : TraceRegistry} {emission : Emission}
    (called : process.application.library.Calls kernel after known registry emission) :
    ∃ made, after.channel.world.log = start.channel.world.log ++ made ∧
      Carries (Interning.internAll known emission.strings) start.channel.controller.socket made
        (process.application.sent ++ emission.records) := by
  rcases traced.carries with ⟨made, logEq, carries⟩
  exact called.emits.carries traced.socket logEq carries

/-- A probe call keeps the invariant if it does on the trace map. -/
theorem emit (traced : process.Traced kernel selfOf start hostname calls known ids)
    {registry : TraceRegistry} {emission : Emission} {frames : List (Frame Thread Operation)}
    {next : Call Thread} {laterIds : Thread → List ℤ}
    (called : process.application.library.Calls kernel after known registry emission)
    (tracked : Tracked selfOf registry frames) (counts : CountsOpen selfOf registry frames)
    (follows : Follows (calls ++ [next]) frames)
    (alive : ∀ frame ∈ frames, frame.thread ∈ process.live)
    (busy : ∀ trace ∈ registry.traces, 0 < trace.stack)
    (latest : ∀ trace ∈ registry.traces, ∀ thread ∈ process.live,
      trace.threadId = threadIdOf (selfOf thread) →
        (laterIds thread).getLast? = some trace.traceId ∧
        trace.orderIndex + 1 =
          ((outermost (eventsOf thread (calls ++ [next]))).getLastD []).length)
    (chronicle : Chronicle (calls ++ [next]) (process.application.sent ++ emission.records)
      registry.currentId laterIds) :
    Traced kernel selfOf start hostname (calls ++ [next])
      { process with
        application := ⟨after, frames, process.application.sent ++ emission.records⟩ }
      (Interning.internAll known emission.strings) laterIds := by
  have sameMap := called.registry
  subst sameMap
  refine ⟨called.idle traced.idle tracked.wellFormed, tracked, counts, follows, alive,
    traced.apart, busy, latest, chronicle, ?_, traced.carries_after called⟩
  rw [called.emits.socket, traced.socket]

/-- A thread enters an outermost operation: it gets a new trace. -/
theorem enter_closed (traced : process.Traced kernel selfOf start hostname calls known ids)
    (alive : thread ∈ process.live) (plain : operation.probe = .plain)
    (nothingOpen : stackOf Frame.thread thread process.application.frames = []) {address : ℕ}
    (done : process.application.library.enter kernel (selfOf thread) operation =
      some (address, after)) :
    ∃ known ids, Process.Traced kernel selfOf start hostname
      (calls ++ [⟨thread, .enter operation⟩])
      { process with
        application := ⟨after, ⟨thread, operation, address⟩ :: process.application.frames,
          process.application.sent ++ (process.application.library.enterEmission kernel
            (selfOf thread) operation).records⟩ } known ids := by
  rcases Library.enter_eq_some traced.idle done with ⟨addressEq, called⟩
  rw [Operation.entry_of_plain plain] at called
  have wellFormed := traced.idle.wellFormed
  have keeps := TraceRegistry.keepsIdentity_enter
  have missing := traced.traceFind_of_closed alive nothingOpen
  have created : process.application.library.registry.current kernel (selfOf thread) =
      TraceRegistry.traceCreate kernel process.application.library.registry.allocated
        (threadIdOf (selfOf thread)) process.application.library.registry.currentId := by
    simp only [TraceRegistry.current, missing]
  have closed : IsBalanced (eventsOf thread calls) := traced.balanced_iff.mpr nothingOpen
  have new : (process.application.library.registry.current kernel (selfOf thread)).orderIndex =
      -1 := by
    rw [created]
    rfl
  refine ⟨_, Function.update ids thread
    (ids thread ++ [process.application.library.registry.currentId]), traced.emit called
    (Tracked.enter ⟨thread, operation, address⟩ traced.tracked keeps (fun _ => rfl) addressEq)
    (CountsOpen.enter kernel ⟨thread, operation, address⟩ traced.counts traced.tracked keeps
      fun _ => rfl) (traced.follows.enter address) ?_ ?_ ?_ ?_⟩
  · intro frame frame_mem
    rcases List.mem_cons.mp frame_mem with rfl | earlier
    · exact alive
    · exact traced.alive frame earlier
  · intro trace inMap
    rcases (TraceRegistry.mem_entering wellFormed).mp inMap with rfl | ⟨old, -⟩
    · rw [created]
      exact zero_lt_one
    · exact traced.busy trace old
  · intro trace inMap other otherAlive mine
    rcases (TraceRegistry.mem_entering wellFormed).mp inMap with rfl | ⟨old, -⟩
    · rw [keeps.threadId, TraceRegistry.threadId_current] at mine
      have same := traced.apart _ alive _ otherAlive mine
      subst same
      have events := eventsOf_concat_self calls ⟨thread, .enter operation⟩
      rw [Function.update_self, List.getLast?_concat, created, events,
        outermost_concat_of_closed closed, List.getLastD_concat]
      exact ⟨rfl, rfl⟩
    · have different := TraceRegistry.threadId_ne_of_traceFind missing old
      rcases traced.latest_other ⟨thread, .enter operation⟩ old different otherAlive mine with
        ⟨otherThread, isLatest⟩
      rw [Function.update_of_ne otherThread]
      exact isLatest
  · rw [TraceRegistry.currentId_entering_of_none missing]
    refine traced.chronicle.begin closed ?_ ?_
    · rw [records_enterEmission_of_new plain new]
      refine ⟨_, _, rfl, ?_⟩
      simp only [List.map_cons, List.map_nil, event_beforeLogged plain, created]
      rfl
    · intro logged isBuilt
      rw [records_enterEmission_of_new plain new, created] at isBuilt
      rcases List.mem_cons.mp isBuilt with rfl | event
      · rfl
      · rw [List.mem_singleton.mp event]
        rfl

theorem enter_open (traced : process.Traced kernel selfOf start hostname calls known ids)
    (alive : thread ∈ process.live) (plain : operation.probe = .plain)
    (inMap : trace ∈ process.traces) (mine : trace.threadId = threadIdOf (selfOf thread))
    {address : ℕ}
    (done : process.application.library.enter kernel (selfOf thread) operation =
      some (address, after)) :
    ∃ known ids, Process.Traced kernel selfOf start hostname
      (calls ++ [⟨thread, .enter operation⟩])
      { process with
        application := ⟨after, ⟨thread, operation, address⟩ :: process.application.frames,
          process.application.sent ++ (process.application.library.enterEmission kernel
            (selfOf thread) operation).records⟩ } known ids := by
  rcases Library.enter_eq_some traced.idle done with ⟨addressEq, called⟩
  rw [Operation.entry_of_plain plain] at called
  have wellFormed := traced.idle.wellFormed
  have keeps := TraceRegistry.keepsIdentity_enter
  have current : process.application.library.registry.current kernel (selfOf thread) = trace :=
    TraceRegistry.current_of_mem wellFormed inMap mine
  have found : process.application.library.registry.traceFind (threadIdOf (selfOf thread)) =
      some trace := by
    rw [← mine]
    exact wellFormed.traceFind_of_mem inMap
  have next := traced.latest_snoc ⟨thread, .enter operation⟩ alive inMap mine
  have old : (process.application.library.registry.current kernel (selfOf thread)).orderIndex ≠
      -1 := by
    have counted := traced.orderIndex_nonneg alive inMap mine
    rw [current]
    omega
  refine ⟨_, ids, traced.emit called
    (Tracked.enter ⟨thread, operation, address⟩ traced.tracked keeps (fun _ => rfl) addressEq)
    (CountsOpen.enter kernel ⟨thread, operation, address⟩ traced.counts traced.tracked keeps
      fun _ => rfl) (traced.follows.enter address) ?_ ?_ ?_ ?_⟩
  · intro frame frame_mem
    rcases List.mem_cons.mp frame_mem with rfl | earlier
    · exact alive
    · exact traced.alive frame earlier
  · intro other otherInMap
    rcases (TraceRegistry.mem_entering wellFormed).mp otherInMap with rfl | ⟨isOld, -⟩
    · rw [current]
      exact (traced.busy trace inMap).trans (lt_add_one _)
    · exact traced.busy other isOld
  · intro other otherInMap otherThread otherAlive otherMine
    rcases (TraceRegistry.mem_entering wellFormed).mp otherInMap with rfl | ⟨isOld, different⟩
    · rw [keeps.threadId, TraceRegistry.threadId_current] at otherMine
      have same := traced.apart _ alive _ otherAlive otherMine
      subst same
      rw [current]
      exact next
    · exact (traced.latest_other ⟨thread, .enter operation⟩ isOld
        (Tracked.threadId_ne_of_address_ne wellFormed thread isOld different).symm otherAlive
        otherMine).2
  · rw [TraceRegistry.currentId_entering_of_some found, records_enterEmission_of_old plain old,
      current]
    exact traced.chronicle_extend ⟨thread, .enter operation⟩ alive inMap mine rfl
      (event_beforeLogged plain _)

theorem leave (traced : process.Traced kernel selfOf start hostname calls known ids)
    {frame : Frame Thread Operation} {rest : List (Frame Thread Operation)}
    (popped : pop Frame.thread frame.thread process.application.frames = some (frame, rest))
    (plain : frame.operation.probe = .plain)
    (done : process.application.library.leave kernel (selfOf frame.thread) frame.operation
      frame.trace = some after) :
    ∃ known ids, Process.Traced kernel selfOf start hostname
      (calls ++ [⟨frame.thread, .leave frame.operation⟩])
      { process with
        application := ⟨after, rest, process.application.sent ++
          (process.application.library.leaveEmission kernel (selfOf frame.thread) frame.operation
            frame.trace).records⟩ } known ids := by
  have isOpen : frame ∈ process.application.frames :=
    (perm_of_pop popped).mem_iff.mpr List.mem_cons_self
  have alive := traced.alive frame isOpen
  rcases traced.tracked.framed frame isOpen with ⟨trace, inMap, address, mine⟩
  rw [← address] at done ⊢
  have called := Library.leave_eq_some traced.idle inMap mine done
  rw [Operation.exit_of_plain plain, Operation.bound_of_plain plain] at called
  have wellFormed := traced.idle.wellFormed
  have keeps := TraceRegistry.keepsIdentity_leave
  have current : process.application.library.registry.current kernel (selfOf frame.thread) =
      trace := TraceRegistry.current_of_mem wellFormed inMap mine
  refine ⟨_, ids, traced.emit called
    (traced.tracked.leave popped keeps (fun _ => rfl) (le_refl 0) inMap mine)
    (traced.counts.leave traced.tracked popped keeps (fun _ => rfl) inMap mine)
    (traced.follows.leave popped) ?_ ?_ ?_ ?_⟩
  · intro other other_mem
    exact traced.alive other ((perm_of_pop popped).mem_iff.mpr (List.mem_cons_of_mem _ other_mem))
  · intro other otherInMap
    rcases (TraceRegistry.mem_leaving wellFormed keeps inMap).mp otherInMap with
      ⟨rfl, stays⟩ | ⟨isOld, -⟩
    · have busy : 0 < trace.stack := traced.busy trace inMap
      have low : 0 ≤ trace.leave.stack := Int.sub_nonneg_of_le busy
      exact lt_of_le_of_ne low stays.symm
    · exact traced.busy other isOld
  · intro other otherInMap otherThread otherAlive otherMine
    rcases (TraceRegistry.mem_leaving wellFormed keeps inMap).mp otherInMap with
      ⟨rfl, -⟩ | ⟨isOld, different⟩
    · rw [keeps.threadId, mine] at otherMine
      have same := traced.apart _ alive _ otherAlive otherMine
      subst same
      exact traced.latest_snoc ⟨frame.thread, .leave frame.operation⟩ alive inMap mine
    · refine (traced.latest_other ⟨frame.thread, .leave frame.operation⟩ isOld ?_
        otherAlive otherMine).2
      intro sameId
      exact different (congrArg KiekerTrace.address
        (wellFormed.eq_of_threadId isOld inMap (sameId.trans mine.symm)))
  · rw [TraceRegistry.currentId_leaving, records_leaveEmission plain, current]
    exact traced.chronicle_extend ⟨frame.thread, .leave frame.operation⟩ alive inMap
      mine rfl (event_afterLogged plain _)

theorem step (traced : process.Traced kernel selfOf start hostname calls known ids)
    {happening : Happening Thread} (stepped : Process.Step kernel selfOf process happening later) :
    ∃ known ids, later.Traced kernel selfOf start hostname (calls ++ callsOf [happening]) known
      ids := by
  cases stepped with
  | begin thread different =>
      have noCall : calls ++ callsOf [Happening.begin thread] = calls := List.append_nil calls
      rw [noCall]
      refine ⟨known, ids, traced.idle, traced.tracked, traced.counts, traced.follows, ?_, ?_,
        traced.busy, ?_, traced.chronicle, traced.socket, traced.carries⟩
      · intro frame frame_mem
        exact List.mem_cons_of_mem thread (traced.alive frame frame_mem)
      · intro first first_mem second second_mem same
        rcases List.mem_cons.mp first_mem with rfl | firstAlive
        · rcases List.mem_cons.mp second_mem with rfl | secondAlive
          · rfl
          · exact absurd same.symm (different second secondAlive)
        · rcases List.mem_cons.mp second_mem with rfl | secondAlive
          · exact absurd same (different first firstAlive)
          · exact traced.apart first firstAlive second secondAlive same
      · intro trace inMap other other_mem mine
        rcases List.mem_cons.mp other_mem with rfl | alive
        · rcases traced.owner inMap with ⟨frame, -, alive, same⟩
          exact absurd (same.trans mine) (different frame.thread alive)
        · exact traced.latest trace inMap other alive mine
  | finish thread nothingOpen =>
      have noCall : calls ++ callsOf [Happening.finish thread] = calls := List.append_nil calls
      rw [noCall]
      refine ⟨known, ids, traced.idle, traced.tracked, traced.counts, traced.follows, ?_, ?_,
        traced.busy, ?_, traced.chronicle, traced.socket, traced.carries⟩
      · intro frame frame_mem
        rw [List.mem_filter, decide_eq_true_eq]
        refine ⟨traced.alive frame frame_mem, ?_⟩
        rintro rfl
        rw [stackOf, List.filter_eq_nil_iff] at nothingOpen
        exact nothingOpen frame frame_mem (decide_eq_true rfl)
      · intro first first_mem second second_mem
        exact traced.apart first (List.mem_filter.mp first_mem).1 second
          (List.mem_filter.mp second_mem).1
      · intro trace inMap other other_mem
        exact traced.latest trace inMap other (List.mem_filter.mp other_mem).1
  | call call after alive plain called =>
      rcases call with ⟨thread, operation | operation⟩
      · rcases Application.call_enter_eq_some.mp called with ⟨address, library, done, rfl⟩
        by_cases nothingOpen : stackOf Frame.thread thread process.application.frames = []
        · exact traced.enter_closed alive plain nothingOpen done
        · rcases (traced.registered_iff alive).mpr nothingOpen with ⟨trace, inMap, mine⟩
          exact traced.enter_open alive plain inMap mine done
      · rcases Application.call_leave_eq_some.mp called with
          ⟨frame, rest, library, popped, rfl, done, rfl⟩
        have mine := owner_of_pop popped
        subst mine
        exact traced.leave popped plain done

theorem untouched (traced : process.Traced kernel selfOf start hostname calls known ids)
    {call : Call Thread} (stepped : Process.Step kernel selfOf process (.call call) later)
    (ofOther : trace.threadId ≠ threadIdOf (selfOf call.thread)) :
    trace ∈ later.traces ↔ trace ∈ process.traces := by
  have wellFormed := traced.idle.wellFormed
  cases stepped with
  | call call after alive plain called =>
      rcases call with ⟨thread, operation | operation⟩
      · rcases Application.call_enter_eq_some.mp called with ⟨address, library, done, rfl⟩
        have keeps := operation.keepsIdentity_entry process.application.library.filter
        have sameMap := (Library.enter_eq_some traced.idle done).2.registry
        change trace ∈ library.registry.traces ↔ _
        rw [sameMap, TraceRegistry.mem_entering wellFormed]
        constructor
        · rintro (rfl | ⟨old, -⟩)
          · rw [keeps.threadId, TraceRegistry.threadId_current] at ofOther
            exact absurd rfl ofOther
          · exact old
        · intro old
          refine Or.inr ⟨old, fun same => ofOther ?_⟩
          have isCurrent := wellFormed.traceGet.eq_of_address
            (TraceRegistry.mem_traceGet.mpr (Or.inl old))
            (TraceRegistry.mem_traceGet.mpr (Or.inr rfl)) same
          rw [isCurrent, TraceRegistry.threadId_current]
      · rcases Application.call_leave_eq_some.mp called with
          ⟨frame, rest, library, popped, rfl, done, rfl⟩
        have isOpen : frame ∈ process.application.frames :=
          (perm_of_pop popped).mem_iff.mpr List.mem_cons_self
        rcases traced.tracked.framed frame isOpen with ⟨own, inMap, address, mine⟩
        rw [owner_of_pop popped] at mine
        rw [← address] at done
        have keeps := frame.operation.keepsIdentity_exit process.application.library.filter
        have sameMap := (Library.leave_eq_some traced.idle inMap mine done).registry
        change trace ∈ library.registry.traces ↔ _
        rw [sameMap, TraceRegistry.mem_leaving wellFormed keeps inMap]
        constructor
        · rintro (⟨rfl, -⟩ | ⟨old, -⟩)
          · rw [keeps.threadId] at ofOther
            exact absurd mine ofOther
          · exact old
        · intro old
          refine Or.inr ⟨old, fun same => ofOther ?_⟩
          rw [wellFormed.eq_of_address old inMap same, mine]

/-- Living threads can make any well-nested calls of plain probes. -/
theorem exists_run (traced : process.Traced kernel selfOf start hostname calls known ids)
    (hostnameFits : hostname.Fits) (more : List (Call Thread)) (nested : WellNested (calls ++ more))
    (alive : ∀ call ∈ more, call.thread ∈ process.live)
    (plain : ∀ call ∈ more, call.operation.probe = .plain)
    (fits : ∀ call ∈ more, call.operation.classSignature.Fits ∧
      call.operation.operationSignature.Fits) :
    ∃ later, Steps (Process.Step kernel selfOf) process (more.map .call) later := by
  induction more generalizing process calls known ids with
  | nil => exact ⟨process, .nil process⟩
  | cons next more ih =>
      have split : calls ++ next :: more = calls ++ [next] ++ more := by simp
      rw [split] at nested
      have isFirst : next ∈ next :: more := List.mem_cons_self
      rcases traced.tracked.call_isSome kernel traced.idle traced.follows nested.of_append
        hostnameFits (fits next isFirst).1 (fits next isFirst).2 with ⟨after, called⟩
      have stepped := Process.Step.call process next after (alive next isFirst)
        (plain next isFirst) called
      rcases traced.step stepped with ⟨known, ids, middle⟩
      rcases ih middle nested (fun call call_mem => alive call (List.mem_cons_of_mem _ call_mem))
        (fun call call_mem => plain call (List.mem_cons_of_mem _ call_mem))
        (fun call call_mem => fits call (List.mem_cons_of_mem _ call_mem)) with ⟨final, run⟩
      exact ⟨final, .cons stepped run⟩

end Process.Traced

/-! ### Runs -/

omit [DecidableEq Thread] in
theorem callsOf_append (front back : List (Happening Thread)) :
    callsOf (front ++ back) = callsOf front ++ callsOf back :=
  List.filterMap_append

theorem Process.Traced.initial (idle : start.Idle known hostname)
    (noTraces : start.registry.traces = []) :
    (Process.start start : Process Thread).Traced kernel selfOf start hostname [] known
      fun _ => [] where
  idle := idle
  tracked := by
    refine ⟨idle.wellFormed, fun frame frame_mem => ?_, fun trace inMap => ?_⟩
    · cases frame_mem
    · change trace ∈ start.registry.traces at inMap
      rw [noTraces] at inMap
      cases inMap
  counts := by
    intro trace inMap
    change trace ∈ start.registry.traces at inMap
    rw [noTraces] at inMap
    cases inMap
  follows := .nil
  alive := fun _ frame_mem => absurd frame_mem List.not_mem_nil
  apart := fun _ first_mem => absurd first_mem List.not_mem_nil
  busy := by
    intro trace inMap
    change trace ∈ start.registry.traces at inMap
    rw [noTraces] at inMap
    cases inMap
  latest := fun _ _ _ alive => absurd alive List.not_mem_nil
  chronicle := .nil _
  socket := rfl
  carries := ⟨[], (List.append_nil _).symm, .nil _ _⟩

theorem Process.Traced.of_run (idle : start.Idle known hostname)
    (noTraces : start.registry.traces = []) {happenings : List (Happening Thread)}
    (run : Steps (Process.Step kernel selfOf) (Process.start start) happenings process) :
    ∃ known ids, process.Traced kernel selfOf start hostname (callsOf happenings) known ids := by
  induction run with
  | nil => exact ⟨_, _, .initial idle noTraces⟩
  | snoc _ last ih =>
      rcases ih with ⟨known, ids, traced⟩
      rw [callsOf_append]
      exact traced.step last

/--
The trace map agrees with the open operations: there is at most one trace for each
thread id; a living thread has one exactly while it has an operation open, and its
stack counts the operations that are open.
-/
structure Process.Agrees (selfOf : Thread → PthreadSelf) (calls : List (Call Thread))
    (process : Process Thread) : Prop where
  single : (process.traces.map KiekerTrace.threadId).Nodup
  owned : ∀ trace ∈ process.traces, ∃ thread ∈ process.live,
    threadIdOf (selfOf thread) = trace.threadId
  registered : ∀ thread ∈ process.live, ∃ openOperations,
    openAfter (eventsOf thread calls) = some openOperations ∧
      ((∃ trace ∈ process.traces, trace.threadId = threadIdOf (selfOf thread)) ↔
        openOperations ≠ []) ∧
      ∀ trace ∈ process.traces, trace.threadId = threadIdOf (selfOf thread) →
        trace.stack = openOperations.length

theorem Process.Traced.agrees
    (traced : process.Traced kernel selfOf start hostname calls known ids) :
    process.Agrees selfOf calls where
  single := traced.idle.wellFormed.threads
  owned := by
    intro trace inMap
    rcases traced.owner inMap with ⟨frame, -, alive, same⟩
    exact ⟨frame.thread, alive, same⟩
  registered := by
    intro thread alive
    refine ⟨_, traced.follows thread, ?_, ?_⟩
    · rw [traced.registered_iff alive, ne_eq, ne_eq, List.map_eq_nil_iff]
    · intro trace inMap mine
      rw [traced.stack_eq alive inMap mine, List.length_map]

/--
In every state that a process with plain probes reaches from a start without
traces, the trace map agrees with the open operations. The records offered on the
socket tell one trace, with an id of its own, for each outermost operation of each
thread: first its metadata, and then its events, which are nested and numbered in
the order of the calls. A further call leaves the traces of other threads alone.
The counters of a trace are unbounded here; they are those of the source as long
as no trace has `2 ^ 31` events.
-/
theorem plain_probes_tell_traces (idle : start.Idle known hostname)
    (noTraces : start.registry.traces = []) {happenings : List (Happening Thread)}
    (run : Steps (Process.Step kernel selfOf) (Process.start start) happenings process) :
    process.Agrees selfOf (callsOf happenings) ∧
      (∃ ids : Thread → List ℤ, Chronicle (callsOf happenings) process.application.sent
        process.application.library.registry.currentId ids) ∧
      (∀ thread, let operations := outermost (eventsOf thread (callsOf happenings))
        operations.flatten = eventsOf thread (callsOf happenings) ∧
          (∀ events ∈ operations.dropLast, IsBalanced events ∧ Even events.length) ∧
          openAfter (operations.getLastD []) = openAfter (eventsOf thread (callsOf happenings))) ∧
      (∃ made table,
        process.application.library.channel.world.log = start.channel.world.log ++ made ∧
        process.application.library.channel.lookup.Holds table ∧
        Carries table start.channel.controller.socket made process.application.sent) ∧
      ∀ call later, Process.Step kernel selfOf process (.call call) later →
        ∀ trace, trace.threadId ≠ threadIdOf (selfOf call.thread) →
          (trace ∈ later.traces ↔ trace ∈ process.traces) := by
  rcases Process.Traced.of_run idle noTraces run with ⟨known, ids, traced⟩
  rcases traced.carries with ⟨made, logEq, carries⟩
  refine ⟨traced.agrees, ⟨ids, traced.chronicle⟩, ?_,
    ⟨made, known, logEq, traced.idle.ready.holds, carries⟩, ?_⟩
  · intro thread
    have nested := traced.follows thread
    rcases openAfter_outermost nested with ⟨ended, lastOpen⟩
    refine ⟨flatten_outermost _, ?_, lastOpen.trans nested.symm⟩
    intro events events_mem
    exact ⟨ended events events_mem, (ended events events_mem).even_length⟩
  · intro call later stepped trace ofOther
    exact traced.untouched stepped ofOther

/-- Two threads take turns; one of them nests an operation in another one. -/
def plainTurns : List (Call Bool) :=
  let outer : Operation := ⟨.plain, .literal "Main", .literal "int main()"⟩
  let inner : Operation := ⟨.plain, .literal "Worker", .literal "void work()"⟩
  [⟨true, .enter outer⟩, ⟨false, .enter inner⟩, ⟨true, .enter inner⟩, ⟨false, .leave inner⟩,
    ⟨true, .leave inner⟩, ⟨true, .leave outer⟩]

theorem plain_turns_tell_traces :
    ∃ initialized : Library, ∃ final : Process Bool,
      controllerInitialize Kernel.accepting StartUp.smooth Library.initial = some initialized ∧
      Steps (Process.Step Kernel.accepting fun thread => BitVec.ofNat 64 thread.toNat)
        (Process.start initialized) ([.begin true, .begin false] ++ plainTurns.map .call) final ∧
      final.Agrees (fun thread => BitVec.ofNat 64 thread.toNat) plainTurns ∧
      ∃ ids : Bool → List ℤ, Chronicle plainTurns final.application.sent
        final.application.library.registry.currentId ids := by
  rcases exists_idle Kernel.accepting with ⟨initialized, done, idle, noTraces⟩
  have first : Process.Step Kernel.accepting (fun thread : Bool => BitVec.ofNat 64 thread.toNat)
      (Process.start initialized) (.begin true) ⟨Application.start initialized, [true]⟩ :=
    .begin _ true fun _ alive => absurd alive List.not_mem_nil
  have different : ∀ other ∈ [true], threadIdOf (BitVec.ofNat 64 other.toNat) ≠
      threadIdOf (BitVec.ofNat 64 false.toNat) := by decide +kernel
  have second : Process.Step Kernel.accepting (fun thread : Bool => BitVec.ofNat 64 thread.toNat)
      ⟨Application.start initialized, [true]⟩ (.begin false)
      ⟨Application.start initialized, [false, true]⟩ :=
    .begin ⟨Application.start initialized, [true]⟩ false different
  have begun := Steps.cons first (.single second)
  rcases Process.Traced.of_run idle noTraces begun with ⟨known, ids, traced⟩
  have nested : WellNested plainTurns := by
    intro thread
    cases thread <;> exact ⟨_, rfl⟩
  have alive : ∀ call ∈ plainTurns, call.thread ∈ [false, true] := by decide
  rcases traced.exists_run (by decide) plainTurns nested alive (by decide) (by decide) with
    ⟨final, run⟩
  rcases plain_probes_tell_traces idle noTraces (begun.append run) with ⟨agrees, told, -⟩
  exact ⟨initialized, final, done, begun.append run, agrees, told⟩

end Kieker
