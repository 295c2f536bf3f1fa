import Kieker.Application.Tracking
import Kieker.Connection.Failures
import Kieker.Library.Steps
import Kieker.Probes.Controlflow
import Mathlib.Data.List.Infix

/-!
# Processes with aspects

Threads call the event aspect and the controlflow aspect around their operations.
Both test at the end of an operation whether the stack of its trace is `-1`, the
start value that the trace test asserts. But a trace starts with stack `0`, and
comes back to `0` at the end of an outermost operation. So no trace is ever
removed, and all outermost operations of a thread share one.
-/

namespace Kieker

open Nesting

/-- What an aspect keeps while its operation runs. -/
inductive Monitored where
  | event (operationSignature classSignature : CString)
  | controlflow (operationSignature : CString) (execution : OpenExecution)

/-- What the controlflow aspect keeps between its two last calls. -/
structure Returning where
  operationSignature : CString
  execution : OpenExecution
  tout : ℤ

/-- The calls of the aspects. -/
inductive AspectMethod where
  | eventBefore (operationSignature classSignature : CString)
  | eventAfter
  | controlflowBefore (operationSignature : CString)
  | controlflowAfter
  | controlflowAfter2

/-- A thread calls a method of an aspect. -/
structure AspectCall (Thread : Type) where
  thread : Thread
  method : AspectMethod

/-- The library, with the operations that run and those that are about to return. -/
structure AspectProcess (Thread : Type) where
  library : Library
  running : List (Frame Thread Monitored)
  returning : List (Frame Thread Returning)

variable {Thread : Type} [DecidableEq Thread]

namespace AspectProcess

/-- No operation runs yet. -/
def start (library : Library) : AspectProcess Thread where
  library := library
  running := []
  returning := []

/-- A call of a thread; what a call at the end of an operation is given is of the latest one. -/
inductive Step (kernel : Kernel) (selfOf : Thread → PthreadSelf) :
    AspectProcess Thread → AspectCall Thread → AspectProcess Thread → Prop
  | eventBefore {process : AspectProcess Thread} {thread : Thread}
      {operationSignature classSignature : CString} {trace : ℕ} {after : Library}
      (done : probeAspectEventBeforeOperation kernel (selfOf thread) operationSignature
        classSignature process.library = some (trace, after)) :
      Step kernel selfOf process ⟨thread, .eventBefore operationSignature classSignature⟩
        { process with
          library := after
          running := ⟨thread, .event operationSignature classSignature, trace⟩ ::
            process.running }
  | eventAfter {process : AspectProcess Thread} {thread : Thread}
      {operationSignature classSignature : CString} {after : Library}
      {frame : Frame Thread Monitored} {rest : List (Frame Thread Monitored)}
      (popped : pop Frame.thread thread process.running = some (frame, rest))
      (latest : frame.operation = .event operationSignature classSignature)
      (done : probeAspectEventAfterOperation kernel frame.trace operationSignature
        classSignature process.library = some after) :
      Step kernel selfOf process ⟨thread, .eventAfter⟩
        { process with library := after, running := rest }
  | controlflowBefore {process : AspectProcess Thread} {thread : Thread}
      {operationSignature : CString} {trace : ℕ} {execution : OpenExecution} {after : Library}
      (done : probeAspectControlflowBefore kernel (selfOf thread) process.library =
        some (trace, execution, after)) :
      Step kernel selfOf process ⟨thread, .controlflowBefore operationSignature⟩
        { process with
          library := after
          running := ⟨thread, .controlflow operationSignature execution, trace⟩ ::
            process.running }
  | controlflowAfter {process : AspectProcess Thread} {thread : Thread}
      {operationSignature : CString} {execution : OpenExecution} {tout : ℤ} {after : Library}
      {frame : Frame Thread Monitored} {rest : List (Frame Thread Monitored)}
      (popped : pop Frame.thread thread process.running = some (frame, rest))
      (latest : frame.operation = .controlflow operationSignature execution)
      (done : probeAspectControlflowAfter kernel frame.trace process.library =
        some (tout, after)) :
      Step kernel selfOf process ⟨thread, .controlflowAfter⟩
        { library := after
          running := rest
          returning := ⟨thread, ⟨operationSignature, execution, tout⟩, frame.trace⟩ ::
            process.returning }
  | controlflowAfter2 {process : AspectProcess Thread} {thread : Thread}
      {record : OperationExecutionRecord} {after : Library}
      {frame : Frame Thread Returning} {rest : List (Frame Thread Returning)}
      (popped : pop Frame.thread thread process.returning = some (frame, rest))
      (complete : frame.operation.execution.close frame.operation.tout
        frame.operation.operationSignature = some record)
      (done : probeAspectControlflowAfter2 kernel frame.trace record process.library =
        some after) :
      Step kernel selfOf process ⟨thread, .controlflowAfter2⟩
        { process with library := after, returning := rest }

/-- No operation is open under the thread id of a thread. -/
def Quiet (selfOf : Thread → PthreadSelf) (thread : Thread) (process : AspectProcess Thread) :
    Prop :=
  (∀ frame ∈ process.running, threadIdOf (selfOf frame.thread) ≠ threadIdOf (selfOf thread)) ∧
    ∀ frame ∈ process.returning, threadIdOf (selfOf frame.thread) ≠ threadIdOf (selfOf thread)

end AspectProcess

/-! ### The invariant -/

variable {kernel : Kernel} {selfOf : Thread → PthreadSelf} {library start : Library}
  {hostname : CString} {known : List CString} {calls : List (AspectCall Thread)}
  {process later : AspectProcess Thread} {last : AspectCall Thread}

/-- What holds between the calls of aspects. -/
structure AspectProcess.Kept (selfOf : Thread → PthreadSelf) (hostname : CString)
    (calls : List (AspectCall Thread)) (process : AspectProcess Thread) (known : List CString) :
    Prop where
  idle : process.library.Idle known hostname
  tracked : Tracked selfOf process.library.registry process.running
  returning : ∀ frame ∈ process.returning, ∃ trace ∈ process.library.registry.traces,
    trace.address = frame.trace ∧ trace.threadId = threadIdOf (selfOf frame.thread)
  called : ∀ call ∈ calls, ∃ trace ∈ process.library.registry.traces,
    trace.threadId = threadIdOf (selfOf call.thread)

namespace AspectProcess.Kept

omit [DecidableEq Thread] in
/-- A call keeps the invariant if it retains the traces and leaves one for its thread. -/
theorem next {laterKnown : List CString}
    (kept : process.Kept selfOf hostname calls known)
    (idle : later.library.Idle laterKnown hostname)
    (tracked : Tracked selfOf later.library.registry later.running)
    (retains : process.library.registry.Retains later.library.registry)
    (returning : ∀ frame ∈ later.returning, ∃ trace ∈ later.library.registry.traces,
      trace.address = frame.trace ∧ trace.threadId = threadIdOf (selfOf frame.thread))
    (mine : ∃ trace ∈ later.library.registry.traces,
      trace.threadId = threadIdOf (selfOf last.thread)) :
    later.Kept selfOf hostname (calls ++ [last]) laterKnown where
  idle := idle
  tracked := tracked
  returning := returning
  called := by
    intro call call_mem
    rcases List.mem_append.mp call_mem with earlier | isLast
    · rcases kept.called call earlier with ⟨trace, inMap, ofThread⟩
      rcases retains trace inMap with ⟨same, sameInMap, -, sameThread, -⟩
      exact ⟨same, sameInMap, sameThread.trans ofThread⟩
    · rw [List.mem_singleton.mp isLast]
      exact mine

omit [DecidableEq Thread] in
/-- The traces of operations about to return are retained. -/
theorem returning_of_retains (kept : process.Kept selfOf hostname calls known)
    {registry : TraceRegistry} (retains : process.library.registry.Retains registry) :
    ∀ frame ∈ process.returning, ∃ trace ∈ registry.traces,
      trace.address = frame.trace ∧ trace.threadId = threadIdOf (selfOf frame.thread) := by
  intro frame frame_mem
  rcases kept.returning frame frame_mem with ⟨trace, inMap, address, ofThread⟩
  rcases retains trace inMap with ⟨same, sameInMap, sameAddress, sameThread, -⟩
  exact ⟨same, sameInMap, sameAddress.trans address, sameThread.trans ofThread⟩

/-- The stack of a trace never comes down to the value that would remove it. -/
theorem stack_leave_ne (kept : process.Kept selfOf hostname calls known)
    {frame : Frame Thread Monitored} {rest : List (Frame Thread Monitored)} {trace : KiekerTrace}
    (popped : pop Frame.thread frame.thread process.running = some (frame, rest))
    (inMap : trace ∈ process.library.registry.traces)
    (ofThread : trace.threadId = threadIdOf (selfOf frame.thread)) : trace.stack - 1 ≠ -1 := by
  have enough := kept.tracked.stack_pos popped inMap ofThread
  omega

theorem step (kept : process.Kept selfOf hostname calls known)
    (stepped : AspectProcess.Step kernel selfOf process last later) :
    process.library.registry.Retains later.library.registry ∧
      ∃ known, later.Kept selfOf hostname (calls ++ [last]) known := by
  have wellFormed := kept.idle.wellFormed
  cases stepped with
  | @eventBefore thread operationSignature classSignature address after done =>
      rcases probeAspectEventBeforeOperation_eq_some kept.idle done with ⟨addressEq, called⟩
      have keeps := process.library.filter.keepsIdentity_entry classSignature
      have retains : process.library.registry.Retains after.registry := by
        rw [called.registry]
        exact .entering wellFormed keeps
      have tracked := Tracked.enter
        ⟨thread, Monitored.event operationSignature classSignature, address⟩ kept.tracked keeps
        (process.library.filter.stack_entry classSignature) addressEq
      refine ⟨retains, _, kept.next (called.idle kept.idle (wellFormed.entering keeps)) ?_ retains
        (kept.returning_of_retains retains) ?_⟩
      · change Tracked selfOf after.registry _
        rw [called.registry]
        exact tracked
      · rw [called.registry]
        exact ⟨_, (TraceRegistry.mem_entering wellFormed).mpr (Or.inl rfl),
          (keeps.threadId _).trans TraceRegistry.threadId_current⟩
  | @eventAfter thread operationSignature classSignature after frame rest popped latest done =>
      have isOpen : frame ∈ process.running :=
        (perm_of_pop popped).mem_iff.mpr List.mem_cons_self
      have own := owner_of_pop popped
      subst own
      rcases kept.tracked.framed frame isOpen with ⟨trace, inMap, address, ofThread⟩
      rw [← address] at done
      have called := probeAspectEventAfterOperation_eq_some kept.idle inMap done
      have keeps := process.library.filter.keepsIdentity_exit classSignature
      have above : (process.library.filter.exit classSignature trace).stack ≠ -1 := by
        rw [AdaptiveFilter.stack_exit]
        exact kept.stack_leave_ne popped inMap ofThread
      have retains : process.library.registry.Retains after.registry := by
        rw [called.registry]
        exact .leaving keeps above
      rcases retains trace inMap with ⟨same, sameInMap, -, sameThread, -⟩
      refine ⟨retains, _, kept.next (called.idle kept.idle (wellFormed.leaving keeps)) ?_ retains
        (kept.returning_of_retains retains) ⟨same, sameInMap, sameThread.trans ofThread⟩⟩
      change Tracked selfOf after.registry rest
      rw [called.registry]
      exact kept.tracked.leave popped keeps
        (process.library.filter.stack_exit classSignature) (by norm_num) inMap ofThread
  | @controlflowBefore thread operationSignature address execution after done =>
      rcases probeAspectControlflowBefore_eq_some kept.idle done with
        ⟨addressEq, -, sameMap, idle⟩
      have keeps := TraceRegistry.keepsIdentity_enter
      have retains : process.library.registry.Retains after.registry := by
        rw [sameMap]
        exact .entering wellFormed keeps
      have tracked := Tracked.enter
        ⟨thread, Monitored.controlflow operationSignature execution, address⟩ kept.tracked keeps
        (fun _ => rfl) addressEq
      refine ⟨retains, _, kept.next idle ?_ retains (kept.returning_of_retains retains) ?_⟩
      · change Tracked selfOf after.registry _
        rw [sameMap]
        exact tracked
      · rw [sameMap]
        exact ⟨_, (TraceRegistry.mem_entering wellFormed).mpr (Or.inl rfl),
          (keeps.threadId _).trans TraceRegistry.threadId_current⟩
  | @controlflowAfter thread operationSignature execution tout after frame rest popped latest
      done =>
      have isOpen : frame ∈ process.running :=
        (perm_of_pop popped).mem_iff.mpr List.mem_cons_self
      have own := owner_of_pop popped
      subst own
      rcases kept.tracked.framed frame isOpen with ⟨trace, inMap, address, ofThread⟩
      rcases probeAspectControlflowAfter_eq_some kept.idle done with ⟨sameMap, idle⟩
      have keeps := TraceRegistry.keepsIdentity_pop
      have above : trace.pop.stack ≠ -1 := kept.stack_leave_ne popped inMap ofThread
      rw [← address, ← TraceRegistry.leaving_of_ne above] at sameMap
      have retains : process.library.registry.Retains after.registry := by
        rw [sameMap]
        exact .leaving keeps above
      rcases retains trace inMap with ⟨same, sameInMap, sameAddress, sameThread, -⟩
      refine ⟨retains, _, kept.next idle ?_ retains ?_
        ⟨same, sameInMap, sameThread.trans ofThread⟩⟩
      · change Tracked selfOf after.registry rest
        rw [sameMap]
        exact kept.tracked.leave popped keeps (fun _ => rfl) (by norm_num) inMap ofThread
      · intro other other_mem
        rcases List.mem_cons.mp other_mem with rfl | earlier
        · exact ⟨same, sameInMap, sameAddress.trans address, sameThread.trans ofThread⟩
        · exact kept.returning_of_retains retains other earlier
  | @controlflowAfter2 thread record after frame rest popped complete done =>
      have isOpen : frame ∈ process.returning :=
        (perm_of_pop popped).mem_iff.mpr List.mem_cons_self
      have own := owner_of_pop popped
      subst own
      rcases kept.returning frame isOpen with ⟨trace, inMap, address, ofThread⟩
      rw [← address] at done
      rcases probeAspectControlflowAfter2_eq_some kept.idle inMap done with
        ⟨buffer, laterKnown, sameMap, idle⟩
      have keeps : TraceRegistry.KeepsIdentity fun data => { data with buffer := buffer } :=
        ⟨fun _ => rfl, fun _ => rfl, fun _ => rfl⟩
      have counted := kept.tracked.counted trace inMap
      have above : trace.stack ≠ -1 := by omega
      rw [TraceRegistry.leaving_of_ne above] at sameMap
      have retains : process.library.registry.Retains after.registry := by
        rw [sameMap]
        exact .assign keeps trace.address
      rcases retains trace inMap with ⟨same, sameInMap, -, sameThread, -⟩
      refine ⟨retains, laterKnown, kept.next idle ?_ retains ?_
        ⟨same, sameInMap, sameThread.trans ofThread⟩⟩
      · change Tracked selfOf after.registry process.running
        rw [sameMap]
        exact kept.tracked.assign keeps (fun _ => rfl) trace.address
      · intro other other_mem
        exact kept.returning_of_retains retains other
          ((perm_of_pop popped).mem_iff.mpr (List.mem_cons_of_mem _ other_mem))

omit [DecidableEq Thread] in
theorem initial (idle : library.Idle known hostname)
    (notNegative : ∀ trace ∈ library.registry.traces, 0 ≤ trace.stack) :
    (AspectProcess.start library : AspectProcess Thread).Kept selfOf hostname [] known where
  idle := idle
  tracked := ⟨idle.wellFormed, fun _ frame_mem => absurd frame_mem List.not_mem_nil, notNegative⟩
  returning := fun _ frame_mem => absurd frame_mem List.not_mem_nil
  called := fun _ call_mem => absurd call_mem List.not_mem_nil

theorem run (kept : process.Kept selfOf hostname calls known) {more : List (AspectCall Thread)}
    (run : Steps (AspectProcess.Step kernel selfOf) process more later) :
    process.library.registry.Retains later.library.registry ∧
      ∃ known, later.Kept selfOf hostname (calls ++ more) known := by
  induction run with
  | nil => exact ⟨.refl _, known, by simpa using kept⟩
  | snoc _ last ih =>
      rcases ih with ⟨retains, middleKnown, middle⟩
      rcases middle.step last with ⟨retainsLast, laterKnown, after⟩
      refine ⟨retains.trans retainsLast, laterKnown, ?_⟩
      rw [← List.append_assoc]
      exact after

omit [DecidableEq Thread] in
/-- The next trace of a thread that was called is the one that it has. -/
theorem traceId_current (kept : process.Kept selfOf hostname calls known) {thread : Thread}
    (isCalled : ∃ call ∈ calls, call.thread = thread)
    (retains : process.library.registry.Retains later.library.registry)
    (wellFormed : later.library.registry.WellFormed) :
    (later.library.registry.current kernel (selfOf thread)).traceId =
      (process.library.registry.current kernel (selfOf thread)).traceId := by
  rcases isCalled with ⟨call, call_mem, rfl⟩
  rcases kept.called call call_mem with ⟨trace, inMap, ofThread⟩
  rcases retains trace inMap with ⟨same, sameInMap, -, sameThread, sameTrace⟩
  rw [TraceRegistry.current_of_mem wellFormed sameInMap (sameThread.trans ofThread),
    TraceRegistry.current_of_mem kept.idle.wellFormed inMap ofThread, sameTrace]

end AspectProcess.Kept

/-! ### The end of outermost operations -/

/-- At some moment of a run a thread has returned from all the operations it called. -/
def OutermostReturns (kernel : Kernel) (selfOf : Thread → PthreadSelf) (library : Library)
    (calls : List (AspectCall Thread)) : Prop :=
  ∃ front back process thread, calls = front ++ back ∧
    Steps (AspectProcess.Step kernel selfOf) (AspectProcess.start library) front process ∧
    (∃ call ∈ front, call.thread = thread) ∧ process.Quiet selfOf thread

/--
Whenever a thread has returned from all the operations it called, it has no trace;
and outermost operations that it calls before and after belong to traces with
different ids.
-/
def EndsTraces (kernel : Kernel) (selfOf : Thread → PthreadSelf) (library : Library)
    (calls : List (AspectCall Thread)) : Prop :=
  (∀ front back process thread, calls = front ++ back →
    Steps (AspectProcess.Step kernel selfOf) (AspectProcess.start library) front process →
    (∃ call ∈ front, call.thread = thread) → process.Quiet selfOf thread →
    ∀ trace ∈ process.library.registry.traces, trace.threadId ≠ threadIdOf (selfOf thread)) ∧
  ∀ front between back first second thread, calls = front ++ between ++ back →
    Steps (AspectProcess.Step kernel selfOf) (AspectProcess.start library) front first →
    Steps (AspectProcess.Step kernel selfOf) first between second →
    (∃ call ∈ between, call.thread = thread) → first.Quiet selfOf thread →
    second.Quiet selfOf thread →
    (first.library.registry.current kernel (selfOf thread)).traceId ≠
      (second.library.registry.current kernel (selfOf thread)).traceId

/--
The aspects end traces with outermost operations only in runs in which no outermost
operation returns: after that the thread always has a trace left. All operations of
a thread, outermost or not, belong to the trace that its first call got.
-/
theorem endsTraces_iff (idle : library.Idle known hostname)
    (notNegative : ∀ trace ∈ library.registry.traces, 0 ≤ trace.stack) :
    (EndsTraces kernel selfOf library calls ↔ ¬OutermostReturns kernel selfOf library calls) ∧
      ∀ front more first second thread,
        Steps (AspectProcess.Step kernel selfOf) (AspectProcess.start library) front first →
        Steps (AspectProcess.Step kernel selfOf) first more second →
        (∃ call ∈ front, call.thread = thread) →
        (second.library.registry.current kernel (selfOf thread)).traceId =
          (first.library.registry.current kernel (selfOf thread)).traceId := by
  have initial : (AspectProcess.start library : AspectProcess Thread).Kept selfOf hostname []
      known := .initial idle notNegative
  refine ⟨⟨?_, ?_⟩, ?_⟩
  · rintro ⟨removed, -⟩ ⟨front, back, process, thread, split, run, isCalled, quiet⟩
    rcases initial.run run with ⟨-, laterKnown, kept⟩
    have missing := removed front back process thread split run isCalled quiet
    rcases isCalled with ⟨call, call_mem, rfl⟩
    rcases kept.called call call_mem with ⟨trace, inMap, ofThread⟩
    exact missing trace inMap ofThread
  · intro noReturn
    refine ⟨?_, ?_⟩
    · intro front back process thread split run isCalled quiet
      exact absurd ⟨front, back, process, thread, split, run, isCalled, quiet⟩ noReturn
    · intro front between back first second thread split run more isCalled _ quiet
      rcases isCalled with ⟨call, call_mem, ofThread⟩
      exact absurd ⟨front ++ between, back, second, thread, split, run.append more,
        ⟨call, List.mem_append_right _ call_mem, ofThread⟩, quiet⟩ noReturn
  · intro front more first second thread run next isCalled
    rcases initial.run run with ⟨-, firstKnown, keptFirst⟩
    rcases keptFirst.run next with ⟨retains, secondKnown, keptSecond⟩
    exact keptFirst.traceId_current isCalled retains keptSecond.idle.wellFormed

/-- The call enters an operation. -/
def AspectMethod.opens : AspectMethod → Bool
  | .eventBefore _ _ => true
  | .controlflowBefore _ => true
  | _ => false

/-- The call is the first one at the end of an operation. -/
def AspectMethod.closes : AspectMethod → Bool
  | .eventAfter => true
  | .controlflowAfter => true
  | _ => false

/-- How many operations a thread entered in some calls. -/
def opened (thread : Thread) (calls : List (AspectCall Thread)) : ℕ :=
  calls.countP fun call => call.thread = thread ∧ call.method.opens

/-- How many operations a thread came to the end of in some calls. -/
def closed (thread : Thread) (calls : List (AspectCall Thread)) : ℕ :=
  calls.countP fun call => call.thread = thread ∧ call.method.closes

theorem opened_concat (thread : Thread) (calls : List (AspectCall Thread))
    (call : AspectCall Thread) : opened thread (calls ++ [call]) =
      opened thread calls + if call.thread = thread ∧ call.method.opens then 1 else 0 := by
  simp only [opened, List.countP_append, List.countP_singleton, decide_eq_true_eq]

theorem closed_concat (thread : Thread) (calls : List (AspectCall Thread))
    (call : AspectCall Thread) : closed thread (calls ++ [call]) =
      closed thread calls + if call.thread = thread ∧ call.method.closes then 1 else 0 := by
  simp only [closed, List.countP_append, List.countP_singleton, decide_eq_true_eq]

/-- The operations of a thread that run are those that it entered and did not end. -/
theorem AspectProcess.length_running
    (run : Steps (AspectProcess.Step kernel selfOf) (AspectProcess.start library) calls process)
    (thread : Thread) :
    (stackOf Frame.thread thread process.running).length + closed thread calls =
      opened thread calls := by
  induction run with
  | nil => rfl
  | snoc _ last ih =>
      rw [opened_concat, closed_concat, ← ih]
      cases last with
      | @eventBefore owner operationSignature classSignature address after done =>
          by_cases mine : owner = thread
          · simp [stackOf_cons_self, mine, AspectMethod.opens, AspectMethod.closes]
            omega
          · simp [stackOf_cons_other, mine]
      | @controlflowBefore owner operationSignature address execution after done =>
          by_cases mine : owner = thread
          · simp [stackOf_cons_self, mine, AspectMethod.opens, AspectMethod.closes]
            omega
          · simp [stackOf_cons_other, mine]
      | @eventAfter owner operationSignature classSignature after frame rest popped latest done =>
          by_cases mine : owner = thread
          · subst mine
            simp [stackOf_of_pop popped, AspectMethod.opens, AspectMethod.closes]
            omega
          · simp [stackOf_of_pop_of_ne popped (Ne.symm mine), mine]
      | @controlflowAfter owner operationSignature execution tout after frame rest popped latest
          done =>
          by_cases mine : owner = thread
          · subst mine
            simp [stackOf_of_pop popped, AspectMethod.opens, AspectMethod.closes]
            omega
          · simp [stackOf_of_pop_of_ne popped (Ne.symm mine), mine]
      | controlflowAfter2 popped complete done =>
          simp [AspectMethod.opens, AspectMethod.closes]

/-- As long as every thread that calls has more operations entered than ended, none returns. -/
theorem not_outermostReturns
    (stays : ∀ front ∈ calls.inits, ∀ call ∈ front,
      closed call.thread front < opened call.thread front) :
    ¬OutermostReturns kernel selfOf library calls := by
  rintro ⟨front, back, process, _, split, run, ⟨call, call_mem, rfl⟩, quiet, -⟩
  have counted := AspectProcess.length_running run call.thread
  have more := stays front ((List.mem_inits _ _).mpr ⟨back, split.symm⟩) call call_mem
  have someOpen : 0 < (stackOf Frame.thread call.thread process.running).length := by omega
  rcases List.exists_mem_of_length_pos someOpen with ⟨frame, frame_mem⟩
  rw [stackOf, List.mem_filter, decide_eq_true_eq] at frame_mem
  exact quiet frame frame_mem.1 (by rw [frame_mem.2])

/-- Two threads with different thread ids. -/
def twoThreads (thread : Bool) : PthreadSelf :=
  BitVec.ofNat 64 thread.toNat

/-- Two threads are in their outermost operations, and one of them leaves an inner one. -/
def innerTurns : List (AspectCall Bool) :=
  [⟨true, .eventBefore (.literal "int main()") (.literal "Main")⟩,
    ⟨false, .controlflowBefore (.literal "void work()")⟩,
    ⟨true, .eventBefore (.literal "void work()") (.literal "Worker")⟩, ⟨true, .eventAfter⟩]

/-- What the calls of the two threads do, one after another. -/
def runInnerTurns (initialized : Library) : Option Library := do
  let (_, library) ← probeAspectEventBeforeOperation Kernel.accepting (twoThreads true)
    (.literal "int main()") (.literal "Main") initialized
  let (_, _, library) ← probeAspectControlflowBefore Kernel.accepting (twoThreads false) library
  let (trace, library) ← probeAspectEventBeforeOperation Kernel.accepting (twoThreads true)
    (.literal "void work()") (.literal "Worker") library
  probeAspectEventAfterOperation Kernel.accepting trace (.literal "void work()")
    (.literal "Worker") library

theorem exists_innerTurns {initialized after : Library}
    (done : runInnerTurns initialized = some after) :
    ∃ process, Steps (AspectProcess.Step Kernel.accepting twoThreads)
      (AspectProcess.start initialized) innerTurns process := by
  simp only [runInnerTurns, Option.bind_eq_bind, Option.bind_eq_some_iff, Prod.exists] at done
  rcases done with ⟨outer, first, entersOuter, other, execution, second, entersOther, inner, third,
    entersInner, leaves⟩
  exact ⟨_, (((Steps.single (.eventBefore entersOuter)).snoc (.controlflowBefore entersOther)).snoc
    (.eventBefore entersInner)).snoc (.eventAfter rfl rfl leaves)⟩

theorem endsTraces_in_innerTurns :
    ∃ initialized, ∃ final : AspectProcess Bool,
      controllerInitialize Kernel.accepting StartUp.smooth Library.initial = some initialized ∧
      Steps (AspectProcess.Step Kernel.accepting twoThreads) (AspectProcess.start initialized)
        innerTurns final ∧
      EndsTraces Kernel.accepting twoThreads initialized innerTurns := by
  rcases exists_idle Kernel.accepting with ⟨initialized, done, idle, noTraces⟩
  have notNegative : ∀ trace ∈ initialized.registry.traces, 0 ≤ trace.stack := by
    rw [noTraces]
    exact fun _ inMap => absurd inMap List.not_mem_nil
  have possible : ((controllerInitialize Kernel.accepting StartUp.smooth Library.initial).bind
      runInnerTurns).isSome = true := by decide +kernel
  rw [done, Option.bind_some, Option.isSome_iff_exists] at possible
  rcases possible with ⟨after, turns⟩
  rcases exists_innerTurns turns with ⟨final, run⟩
  exact ⟨initialized, final, done, run, (endsTraces_iff idle notNegative).1.mpr
    (not_outermostReturns (by decide))⟩

/--
A thread enters and leaves one operation through the event aspect. It still has
its trace, and the next operation that it enters will belong to the same trace.
-/
theorem event_aspect_keeps_trace :
    ∃ initialized, ∃ final : AspectProcess Unit,
      controllerInitialize Kernel.accepting StartUp.smooth Library.initial = some initialized ∧
      Steps (AspectProcess.Step Kernel.accepting fun _ => 7) (AspectProcess.start initialized)
        [⟨(), .eventBefore (.literal "int main()") (.literal "Main")⟩, ⟨(), .eventAfter⟩] final ∧
      final.Quiet (fun _ => 7) () ∧
      ¬EndsTraces Kernel.accepting (fun _ : Unit => 7) initialized
        [⟨(), .eventBefore (.literal "int main()") (.literal "Main")⟩, ⟨(), .eventAfter⟩] := by
  rcases exists_idle Kernel.accepting with ⟨initialized, done, idle, noTraces⟩
  have notNegative : ∀ trace ∈ initialized.registry.traces, 0 ≤ trace.stack := by
    rw [noTraces]
    exact fun _ inMap => absurd inMap List.not_mem_nil
  have start : (AspectProcess.start initialized).Kept (fun _ : Unit => 7) _ [] _ :=
    .initial idle notNegative
  have classFits : (CString.literal "Main").Fits := by decide
  have operationFits : (CString.literal "int main()").Fits := by decide
  rcases probeAspectEventBeforeOperation_isSome Kernel.accepting 7 idle (by decide) classFits
    operationFits with ⟨⟨address, entered⟩, entry⟩
  have first : AspectProcess.Step Kernel.accepting (fun _ : Unit => 7)
      (AspectProcess.start initialized)
      ⟨(), .eventBefore (.literal "int main()") (.literal "Main")⟩ _ := .eventBefore entry
  rcases start.step first with ⟨-, known, kept⟩
  rcases kept.tracked.framed _ List.mem_cons_self with ⟨trace, inMap, sameAddress, -⟩
  rcases probeAspectEventAfterOperation_isSome Kernel.accepting kept.idle inMap classFits
    operationFits with ⟨left, exit⟩
  rw [sameAddress] at exit
  have second : AspectProcess.Step Kernel.accepting (fun _ : Unit => 7)
      ⟨entered, [⟨(), .event (.literal "int main()") (.literal "Main"), address⟩], []⟩
      ⟨(), .eventAfter⟩ ⟨left, [], []⟩ := .eventAfter rfl rfl exit
  have run := Steps.cons first (.single second)
  have quiet : (⟨left, [], []⟩ : AspectProcess Unit).Quiet (fun _ => 7) () :=
    ⟨fun _ frame_mem => absurd frame_mem List.not_mem_nil,
      fun _ frame_mem => absurd frame_mem List.not_mem_nil⟩
  refine ⟨initialized, _, done, run, quiet, ?_⟩
  rintro ⟨removed, -⟩
  rcases (kept.step second).2 with ⟨later, keptLater⟩
  rcases keptLater.called _ (List.mem_append_right _ List.mem_cons_self) with ⟨own, ownInMap, mine⟩
  exact removed _ [] _ () (List.append_nil _).symm run ⟨_, List.mem_cons_self, rfl⟩ quiet own
    ownInMap mine

end Kieker
