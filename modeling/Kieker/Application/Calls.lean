import Kieker.Library.Nesting
import Kieker.Probes.Aspects

/-!
# An instrumented application

The threads of an application call the probes around their operations, one call
at a time in any order. The application remembers which operations each thread
has open, with the trace that was returned to it; beside that we keep the records
that were sent so far, as the probes built them.
-/

namespace Kieker

open Nesting

/-- The probes that an operation can be instrumented with. -/
inductive Probe where
  | plain
  | event
  deriving DecidableEq

/-- An instrumented operation. -/
structure Operation where
  probe : Probe
  classSignature : CString
  operationSignature : CString
  deriving DecidableEq

/-- A thread enters or leaves an operation. -/
structure Call (Thread : Type) where
  thread : Thread
  event : Event Operation

/-- The operation that a call enters or leaves. -/
def Call.operation {Thread : Type} (call : Call Thread) : Operation :=
  match call.event with
  | .enter operation => operation
  | .leave operation => operation

/-- An open operation of a thread, and the trace in which it was counted. -/
structure Frame (Thread Label : Type) where
  thread : Thread
  operation : Label
  trace : ℕ

/-- The application, with the records sent so far. -/
structure Application (Thread : Type) where
  library : Library
  /-- The open operations of all threads, latest first. -/
  frames : List (Frame Thread Operation)
  sent : List Logged

namespace Library

/-- The name that records carry as their host. -/
def hostname (library : Library) : CString :=
  library.channel.controller.localHostname.getD (.literal "")

/-- What the probe for an operation does when the operation is entered. -/
def enter (kernel : Kernel) (self : PthreadSelf) (operation : Operation) (library : Library) :
    Option (ℕ × Library) :=
  match operation.probe with
  | .plain => do
      let after ← probeBeforeOperationEvent kernel self operation.classSignature
        operation.operationSignature library
      some ((library.registry.traceGet kernel self).1, after)
  | .event =>
      probeAspectEventBeforeOperation kernel self operation.operationSignature
        operation.classSignature library

/-- What the probe for an operation does when the operation is left. -/
def leave (kernel : Kernel) (self : PthreadSelf) (operation : Operation) (trace : ℕ)
    (library : Library) : Option Library :=
  match operation.probe with
  | .plain => probeAfterOperationEvent kernel self operation.classSignature
      operation.operationSignature library
  | .event => probeAspectEventAfterOperation kernel trace operation.operationSignature
      operation.classSignature library

/-- What is emitted when an operation is entered. -/
def enterEmission (kernel : Kernel) (self : PthreadSelf) (operation : Operation)
    (library : Library) : Emission :=
  match operation.probe with
  | .plain => beforeEmission kernel library.hostname self operation.classSignature
      operation.operationSignature library
  | .event => aspectBeforeEmission kernel library.hostname self operation.classSignature
      operation.operationSignature library

/-- What is emitted when an operation is left. -/
def leaveEmission (kernel : Kernel) (self : PthreadSelf) (operation : Operation) (trace : ℕ)
    (library : Library) : Emission :=
  match operation.probe with
  | .plain => afterEmission kernel self operation.classSignature operation.operationSignature
      library
  | .event =>
      match library.registry.deref trace with
      | some data => aspectAfterEmission kernel data operation.classSignature
          operation.operationSignature library
      | none => ⟨[], false⟩

end Library

/-- The change of a trace when the probe for an operation enters it. -/
def Operation.entry (filter : AdaptiveFilter) (operation : Operation) : KiekerTrace → KiekerTrace :=
  match operation.probe with
  | .plain => KiekerTrace.enter
  | .event => filter.entry operation.classSignature

/-- The change of a trace when the probe for an operation leaves it. -/
def Operation.exit (filter : AdaptiveFilter) (operation : Operation) : KiekerTrace → KiekerTrace :=
  match operation.probe with
  | .plain => KiekerTrace.leave
  | .event => filter.exit operation.classSignature

/-- The stack at which the probe for an operation removes a trace. -/
def Operation.bound (operation : Operation) : ℤ :=
  match operation.probe with
  | .plain => 0
  | .event => -1

namespace Application

variable {Thread : Type} [DecidableEq Thread]

/-- One call of a thread; leaving an operation that is not the latest one open is no call. -/
def call (kernel : Kernel) (selfOf : Thread → PthreadSelf) (application : Application Thread)
    (call : Call Thread) : Option (Application Thread) :=
  match call.event with
  | .enter operation => do
      let (trace, library) ← application.library.enter kernel (selfOf call.thread) operation
      some {
        library := library
        frames := ⟨call.thread, operation, trace⟩ :: application.frames
        sent := application.sent ++
          (application.library.enterEmission kernel (selfOf call.thread) operation).records }
  | .leave operation => do
      let (frame, frames) ← pop Frame.thread call.thread application.frames
      if frame.operation = operation then do
        let library ← application.library.leave kernel (selfOf call.thread) operation frame.trace
        some {
          library := library
          frames := frames
          sent := application.sent ++ (application.library.leaveEmission kernel (selfOf call.thread)
            operation frame.trace).records }
      else none

/-- Calls one after another. -/
def run (kernel : Kernel) (selfOf : Thread → PthreadSelf) (calls : List (Call Thread))
    (application : Application Thread) : Option (Application Thread) :=
  calls.foldlM (call kernel selfOf) application

/-- An application that has no operation open and has sent nothing yet. -/
def start (library : Library) : Application Thread where
  library := library
  frames := []
  sent := []

theorem run_concat (kernel : Kernel) (selfOf : Thread → PthreadSelf) (calls : List (Call Thread))
    (last : Call Thread) (application : Application Thread) :
    run kernel selfOf (calls ++ [last]) application =
      (run kernel selfOf calls application).bind fun middle => middle.call kernel selfOf last := by
  rw [run, List.foldlM_append]
  congr 1
  funext middle
  simp

variable {kernel : Kernel} {selfOf : Thread → PthreadSelf} {application later : Application Thread}
  {thread : Thread} {operation : Operation}

theorem call_enter_eq_some :
    application.call kernel selfOf ⟨thread, .enter operation⟩ = some later ↔
      ∃ address after,
        application.library.enter kernel (selfOf thread) operation = some (address, after) ∧
        later = ⟨after, ⟨thread, operation, address⟩ :: application.frames, application.sent ++
          (application.library.enterEmission kernel (selfOf thread) operation).records⟩ := by
  simp only [call, Option.bind_eq_bind, Option.bind_eq_some_iff, Option.some.injEq, Prod.exists,
    @eq_comm _ _ later]

theorem call_leave_eq_some :
    application.call kernel selfOf ⟨thread, .leave operation⟩ = some later ↔
      ∃ frame rest after, pop Frame.thread thread application.frames = some (frame, rest) ∧
        frame.operation = operation ∧
        application.library.leave kernel (selfOf thread) operation frame.trace = some after ∧
        later = ⟨after, rest, application.sent ++ (application.library.leaveEmission kernel
          (selfOf thread) operation frame.trace).records⟩ := by
  simp only [call, Option.bind_eq_bind, Option.bind_eq_some_iff, Prod.exists]
  constructor
  · rintro ⟨frame, rest, popped, called⟩
    split at called
    · rename_i same
      simp only [Option.bind_eq_some_iff, Option.some.injEq] at called
      rcases called with ⟨after, done, rfl⟩
      exact ⟨frame, rest, after, popped, same, done, rfl⟩
    · cases called
  · rintro ⟨frame, rest, after, popped, same, done, rfl⟩
    refine ⟨frame, rest, popped, ?_⟩
    rw [if_pos same, done]
    rfl

end Application

/-! ### Well-nested calls -/

variable {Thread : Type} [DecidableEq Thread]

/-- The events of one thread, in order. -/
def eventsOf (thread : Thread) (calls : List (Call Thread)) : List (Event Operation) :=
  (calls.filter fun call => call.thread = thread).map Call.event

/-- Every thread leaves only the operation that it entered last. -/
def WellNested (calls : List (Call Thread)) : Prop :=
  ∀ thread, ∃ stack, openAfter (eventsOf thread calls) = some stack

theorem eventsOf_concat_self (calls : List (Call Thread)) (last : Call Thread) :
    eventsOf last.thread (calls ++ [last]) = eventsOf last.thread calls ++ [last.event] := by
  simp [eventsOf]

theorem eventsOf_concat_of_ne {thread : Thread} (calls : List (Call Thread)) {last : Call Thread}
    (different : last.thread ≠ thread) :
    eventsOf thread (calls ++ [last]) = eventsOf thread calls := by
  simp [eventsOf, different]

theorem WellNested.of_append {calls more : List (Call Thread)}
    (nested : WellNested (calls ++ more)) : WellNested calls := by
  intro thread
  rcases nested thread with ⟨stack, stackEq⟩
  have events : eventsOf thread (calls ++ more) = eventsOf thread calls ++ eventsOf thread more := by
    simp [eventsOf]
  rw [events, openAfter_append, Option.bind_eq_some_iff] at stackEq
  rcases stackEq with ⟨earlier, earlierEq, -⟩
  exact ⟨earlier, earlierEq⟩

/-- The open operations are those that the calls so far leave open. -/
def Follows (calls : List (Call Thread)) (frames : List (Frame Thread Operation)) : Prop :=
  ∀ thread, openAfter (eventsOf thread calls) =
    some ((stackOf Frame.thread thread frames).map Frame.operation)

namespace Follows

variable {calls : List (Call Thread)} {frames rest : List (Frame Thread Operation)}
  {frame : Frame Thread Operation}
  {thread : Thread} {operation : Operation}

theorem nil : Follows ([] : List (Call Thread)) [] := fun _ => rfl

theorem enter (follows : Follows calls frames) (address : ℕ) :
    Follows (calls ++ [⟨thread, .enter operation⟩]) (⟨thread, operation, address⟩ :: frames) := by
  intro other
  by_cases mine : thread = other
  · subst mine
    have concat := eventsOf_concat_self calls ⟨thread, .enter operation⟩
    rw [concat, openAfter_concat, follows thread]
    simp [openStep, stackOf]
  · rw [eventsOf_concat_of_ne calls mine, follows other]
    simp [stackOf, mine]

theorem leave (follows : Follows calls frames)
    (popped : pop Frame.thread thread frames = some (frame, rest)) :
    Follows (calls ++ [⟨thread, .leave frame.operation⟩]) rest := by
  intro other
  by_cases mine : thread = other
  · subst mine
    have concat := eventsOf_concat_self calls ⟨thread, .leave frame.operation⟩
    rw [concat, openAfter_concat, follows thread, stackOf_of_pop popped]
    simp [openStep]
  · rw [eventsOf_concat_of_ne calls mine, follows other,
      stackOf_of_pop_of_ne popped (Ne.symm mine)]

/-- A thread that leaves an operation in a well-nested run has it on top of its stack. -/
theorem popped (follows : Follows calls frames)
    (nested : WellNested (calls ++ [⟨thread, .leave operation⟩])) :
    ∃ frame rest, pop Frame.thread thread frames = some (frame, rest) ∧
      frame.operation = operation := by
  rcases nested thread with ⟨stack, stackEq⟩
  have concat := eventsOf_concat_self calls ⟨thread, .leave operation⟩
  rw [concat, openAfter_concat, follows thread, Option.bind_some] at stackEq
  cases stacked : stackOf Frame.thread thread frames with
  | nil =>
      rw [stacked] at stackEq
      cases stackEq
  | cons frame tail =>
      rcases pop_of_stackOf stacked with ⟨rest, popped⟩
      refine ⟨frame, rest, popped, ?_⟩
      rw [stacked, List.map_cons, openStep] at stackEq
      by_contra different
      rw [if_neg different] at stackEq
      cases stackEq

end Follows

/-! ### What the calls do -/

variable {kernel : Kernel} {self : PthreadSelf} {library after : Library} {known : List CString}
  {hostname : CString} {operation : Operation} {trace : KiekerTrace} {address : ℕ}

theorem Library.Idle.hostname_eq (idle : library.Idle known hostname) :
    library.hostname = hostname := by
  rw [Library.hostname, idle.named]
  rfl

theorem Operation.keepsIdentity_entry (filter : AdaptiveFilter) (operation : Operation) :
    TraceRegistry.KeepsIdentity (operation.entry filter) := by
  unfold Operation.entry
  split
  · exact TraceRegistry.keepsIdentity_enter
  · exact filter.keepsIdentity_entry operation.classSignature

theorem Operation.keepsIdentity_exit (filter : AdaptiveFilter) (operation : Operation) :
    TraceRegistry.KeepsIdentity (operation.exit filter) := by
  unfold Operation.exit
  split
  · exact TraceRegistry.keepsIdentity_leave
  · exact filter.keepsIdentity_exit operation.classSignature

@[simp]
theorem Operation.stack_entry (filter : AdaptiveFilter) (operation : Operation)
    (trace : KiekerTrace) : (operation.entry filter trace).stack = trace.stack + 1 := by
  rcases operation with ⟨_ | _, classSignature, operationSignature⟩
  · rfl
  · exact filter.stack_entry classSignature trace

@[simp]
theorem Operation.stack_exit (filter : AdaptiveFilter) (operation : Operation)
    (trace : KiekerTrace) : (operation.exit filter trace).stack = trace.stack - 1 := by
  rcases operation with ⟨_ | _, classSignature, operationSignature⟩
  · rfl
  · exact filter.stack_exit classSignature trace

theorem Operation.orderIndex_le_entry (filter : AdaptiveFilter) (operation : Operation)
    (trace : KiekerTrace) : trace.orderIndex ≤ (operation.entry filter trace).orderIndex := by
  rcases operation with ⟨_ | _, classSignature, operationSignature⟩
  · exact le_add_of_nonneg_right (by norm_num)
  · simp only [Operation.entry, AdaptiveFilter.entry]
    split
    · exact le_refl _
    · exact le_add_of_nonneg_right (by norm_num)

theorem Operation.orderIndex_le_exit (filter : AdaptiveFilter) (operation : Operation)
    (trace : KiekerTrace) : trace.orderIndex ≤ (operation.exit filter trace).orderIndex := by
  rcases operation with ⟨_ | _, classSignature, operationSignature⟩
  · exact le_add_of_nonneg_right (by norm_num)
  · simp only [Operation.exit, AdaptiveFilter.exit]
    split
    · exact le_refl _
    · exact le_add_of_nonneg_right (by norm_num)

theorem Operation.bound_nonpos (operation : Operation) : operation.bound ≤ 0 := by
  unfold Operation.bound
  split <;> norm_num

/-- Entering an operation counts it in the current trace of the thread. -/
theorem Library.enter_eq_some (idle : library.Idle known hostname)
    (done : library.enter kernel self operation = some (address, after)) :
    address = (library.registry.current kernel self).address ∧
      library.Calls kernel after known
        (library.registry.entering kernel self (operation.entry library.filter))
        (library.enterEmission kernel self operation) := by
  rcases operation with ⟨probe, classSignature, operationSignature⟩
  cases probe with
  | plain =>
      simp only [Library.enter, Option.bind_eq_bind, Option.bind_eq_some_iff, Option.some.injEq,
        Prod.mk.injEq, TraceRegistry.traceGet_fst] at done
      rcases done with ⟨library', entered, rfl, rfl⟩
      refine ⟨rfl, ?_⟩
      simp only [Library.enterEmission, idle.hostname_eq]
      exact probeBeforeOperationEvent_eq_some idle entered
  | event =>
      simp only [Library.enterEmission, idle.hostname_eq]
      exact probeAspectEventBeforeOperation_eq_some idle done

theorem Library.enter_isSome (kernel : Kernel) (self : PthreadSelf)
    (idle : library.Idle known hostname) (hostnameFits : hostname.Fits)
    (classFits : operation.classSignature.Fits)
    (operationFits : operation.operationSignature.Fits) :
    ∃ result, library.enter kernel self operation = some result := by
  rcases operation with ⟨probe, classSignature, operationSignature⟩
  cases probe with
  | plain =>
      rcases probeBeforeOperationEvent_isSome kernel self idle hostnameFits classFits
        operationFits with ⟨after, entered⟩
      exact ⟨((library.registry.traceGet kernel self).1, after), by simp [Library.enter, entered]⟩
  | event =>
      exact probeAspectEventBeforeOperation_isSome kernel self idle hostnameFits classFits
        operationFits

theorem Library.leave_eq_some (idle : library.Idle known hostname)
    (inMap : trace ∈ library.registry.traces) (mine : trace.threadId = threadIdOf self)
    (done : library.leave kernel self operation trace.address = some after) :
    library.Calls kernel after known
      (library.registry.leaving trace.address (operation.exit library.filter) operation.bound trace)
      (library.leaveEmission kernel self operation trace.address) := by
  rcases operation with ⟨probe, classSignature, operationSignature⟩
  cases probe with
  | plain =>
      have found := idle.wellFormed.traceFind_of_mem inMap
      rw [mine] at found
      rcases TraceRegistry.traceGet_of_some kernel found with ⟨sameMap, sameTrace⟩
      have left := probeAfterOperationEvent_eq_some idle done
      rw [sameMap, sameTrace] at left
      exact left
  | event =>
      have left := probeAspectEventAfterOperation_eq_some idle inMap done
      simp only [Library.leaveEmission, idle.wellFormed.deref_of_mem inMap]
      exact left

theorem Library.leave_isSome (kernel : Kernel) (self : PthreadSelf)
    (idle : library.Idle known hostname) (inMap : trace ∈ library.registry.traces)
    (classFits : operation.classSignature.Fits)
    (operationFits : operation.operationSignature.Fits) :
    ∃ result, library.leave kernel self operation trace.address = some result := by
  rcases operation with ⟨probe, classSignature, operationSignature⟩
  cases probe with
  | plain => exact probeAfterOperationEvent_isSome kernel self idle classFits operationFits
  | event =>
      exact probeAspectEventAfterOperation_isSome kernel idle inMap classFits operationFits

end Kieker
