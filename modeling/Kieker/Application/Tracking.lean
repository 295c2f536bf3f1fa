import Kieker.Application.Calls

/-!
# Traces and open operations

The stack of a trace is never less than the number of operations that its thread
id has open, so no trace is removed while an open operation is counted in it, and
the pointers that the event aspect hands out stay valid. This holds for all
threads and for all mixtures of plain probes and event aspects, even if several
threads share a thread id.
-/

namespace Kieker

open Nesting

variable {Thread Label : Type} [DecidableEq Thread]

/-- The number of operations that are open under a thread id. -/
def openWith (selfOf : Thread → PthreadSelf) (frames : List (Frame Thread Label))
    (threadId : ℤ) : ℕ :=
  frames.countP fun frame => threadIdOf (selfOf frame.thread) = threadId

/-- Every open operation is counted in a trace of its thread. -/
structure Tracked (selfOf : Thread → PthreadSelf) (registry : TraceRegistry)
    (frames : List (Frame Thread Label)) : Prop where
  wellFormed : registry.WellFormed
  framed : ∀ frame ∈ frames, ∃ trace ∈ registry.traces, trace.address = frame.trace ∧
    trace.threadId = threadIdOf (selfOf frame.thread)
  counted : ∀ trace ∈ registry.traces, (openWith selfOf frames trace.threadId : ℤ) ≤ trace.stack

/-- A trace counts nothing but open operations. -/
def CountsOpen (selfOf : Thread → PthreadSelf) (registry : TraceRegistry)
    (frames : List (Frame Thread Label)) : Prop :=
  ∀ trace ∈ registry.traces, trace.stack ≤ openWith selfOf frames trace.threadId

variable {kernel : Kernel} {selfOf : Thread → PthreadSelf} {registry : TraceRegistry}
  {frames rest : List (Frame Thread Label)} {frame : Frame Thread Label} {trace : KiekerTrace}
  {change : KiekerTrace → KiekerTrace} {bound : ℤ}

omit [DecidableEq Thread] in
theorem openWith_cons_self :
    openWith selfOf (frame :: frames) (threadIdOf (selfOf frame.thread)) =
      openWith selfOf frames (threadIdOf (selfOf frame.thread)) + 1 := by
  simp [openWith]

omit [DecidableEq Thread] in
theorem openWith_cons_of_ne {threadId : ℤ} (different : threadIdOf (selfOf frame.thread) ≠ threadId) :
    openWith selfOf (frame :: frames) threadId = openWith selfOf frames threadId := by
  simp [openWith, different]

theorem openWith_pop (popped : pop Frame.thread frame.thread frames = some (frame, rest))
    (threadId : ℤ) : openWith selfOf frames threadId = openWith selfOf (frame :: rest) threadId :=
  (perm_of_pop popped).countP_eq _

namespace Tracked

omit [DecidableEq Thread] in
/-- The current trace of a thread counts at least the operations that are open. -/
theorem counted_current (tracked : Tracked selfOf registry frames) (kernel : Kernel)
    (thread : Thread) :
    (openWith selfOf frames (threadIdOf (selfOf thread)) : ℤ) ≤
      (registry.current kernel (selfOf thread)).stack := by
  cases found : registry.traceFind (threadIdOf (selfOf thread)) with
  | some data =>
      rcases TraceRegistry.mem_of_traceFind found with ⟨inMap, mine⟩
      rw [(TraceRegistry.traceGet_of_some kernel found).2, ← mine]
      exact tracked.counted data inMap
  | none =>
      have noneOpen : openWith selfOf frames (threadIdOf (selfOf thread)) = 0 := by
        rw [openWith, List.countP_eq_zero]
        intro frame frame_mem same
        rcases tracked.framed frame frame_mem with ⟨trace, inMap, -, mine⟩
        rw [decide_eq_true_eq] at same
        exact TraceRegistry.threadId_ne_of_traceFind found inMap (mine.trans same)
      have created : (registry.current kernel (selfOf thread)).stack = 0 := by
        simp only [TraceRegistry.current, found, TraceRegistry.traceCreate]
      rw [noneOpen, created]
      rfl

omit [DecidableEq Thread] in
/-- A trace other than the current one belongs to another thread id. -/
theorem threadId_ne_of_address_ne (wellFormed : registry.WellFormed) (thread : Thread)
    (inMap : trace ∈ registry.traces)
    (different : trace.address ≠ (registry.current kernel (selfOf thread)).address) :
    threadIdOf (selfOf thread) ≠ trace.threadId := by
  intro same
  apply different
  rw [TraceRegistry.current_of_mem wellFormed inMap same.symm]

omit [DecidableEq Thread] in
theorem enter (frame : Frame Thread Label) (tracked : Tracked selfOf registry frames)
    (keeps : TraceRegistry.KeepsIdentity change)
    (pushes : ∀ trace, (change trace).stack = trace.stack + 1)
    (current : frame.trace = (registry.current kernel (selfOf frame.thread)).address) :
    Tracked selfOf (registry.entering kernel (selfOf frame.thread) change) (frame :: frames) where
  wellFormed := tracked.wellFormed.entering keeps
  framed := by
    intro other other_mem
    rcases List.mem_cons.mp other_mem with rfl | earlier
    · refine ⟨_, (TraceRegistry.mem_entering tracked.wellFormed).mpr (Or.inl rfl), ?_, ?_⟩
      · rw [keeps.address, current]
      · rw [keeps.threadId, TraceRegistry.threadId_current]
    · rcases tracked.framed other earlier with ⟨trace, inMap, address, mine⟩
      rcases TraceRegistry.Retains.entering tracked.wellFormed keeps trace inMap with
        ⟨later, laterInMap, sameAddress, sameThread, -⟩
      exact ⟨later, laterInMap, sameAddress.trans address, sameThread.trans mine⟩
  counted := by
    intro trace inMap
    rcases (TraceRegistry.mem_entering tracked.wellFormed).mp inMap with rfl | ⟨old, different⟩
    · have earlier := tracked.counted_current kernel frame.thread
      rw [keeps.threadId, TraceRegistry.threadId_current, openWith_cons_self, pushes]
      push_cast
      omega
    · rw [openWith_cons_of_ne (threadId_ne_of_address_ne tracked.wellFormed frame.thread old
        different)]
      exact tracked.counted trace old

/-- While an operation is open its trace counts at least that operation. -/
theorem stack_pos (tracked : Tracked selfOf registry frames)
    (popped : pop Frame.thread frame.thread frames = some (frame, rest))
    (inMap : trace ∈ registry.traces) (mine : trace.threadId = threadIdOf (selfOf frame.thread)) :
    (openWith selfOf rest trace.threadId : ℤ) + 1 ≤ trace.stack := by
  have counted := tracked.counted trace inMap
  rw [openWith_pop popped, mine, openWith_cons_self] at counted
  rw [mine]
  exact_mod_cast counted

theorem leave (tracked : Tracked selfOf registry frames)
    (popped : pop Frame.thread frame.thread frames = some (frame, rest))
    (keeps : TraceRegistry.KeepsIdentity change)
    (pops : ∀ trace, (change trace).stack = trace.stack - 1) (low : bound ≤ 0)
    (inMap : trace ∈ registry.traces) (mine : trace.threadId = threadIdOf (selfOf frame.thread)) :
    Tracked selfOf (registry.leaving trace.address change bound trace) rest where
  wellFormed := tracked.wellFormed.leaving keeps
  framed := by
    intro other other_mem
    have wasOpen : other ∈ frames :=
      (perm_of_pop popped).mem_iff.mpr (List.mem_cons_of_mem frame other_mem)
    rcases tracked.framed other wasOpen with ⟨otherTrace, otherInMap, address, otherMine⟩
    by_cases same : otherTrace.address = trace.address
    · have isTrace := tracked.wellFormed.eq_of_address otherInMap inMap same
      have openBefore : 0 < openWith selfOf rest trace.threadId := by
        rw [openWith, List.countP_pos_iff]
        refine ⟨other, other_mem, ?_⟩
        rw [decide_eq_true_eq, ← otherMine, isTrace]
      have enough := tracked.stack_pos popped inMap mine
      refine ⟨change trace, ?_, ?_, ?_⟩
      · refine (TraceRegistry.mem_leaving tracked.wellFormed keeps inMap).mpr (Or.inl ⟨rfl, ?_⟩)
        rw [pops]
        omega
      · rw [keeps.address, ← isTrace, address]
      · rw [keeps.threadId, ← isTrace, otherMine]
    · exact ⟨otherTrace,
        (TraceRegistry.mem_leaving tracked.wellFormed keeps inMap).mpr (Or.inr ⟨otherInMap, same⟩),
        address, otherMine⟩
  counted := by
    intro other otherInMap
    rcases (TraceRegistry.mem_leaving tracked.wellFormed keeps inMap).mp otherInMap with
      ⟨rfl, -⟩ | ⟨old, different⟩
    · have enough := tracked.stack_pos popped inMap mine
      rw [keeps.threadId, pops]
      omega
    · have otherThread : threadIdOf (selfOf frame.thread) ≠ other.threadId := by
        intro same
        exact different (congrArg KiekerTrace.address
          (tracked.wellFormed.eq_of_threadId old inMap (same.symm.trans mine.symm)))
      have counted := tracked.counted other old
      rw [openWith_pop popped, openWith_cons_of_ne otherThread] at counted
      exact counted

omit [DecidableEq Thread] in
theorem assign (tracked : Tracked selfOf registry frames)
    (keeps : TraceRegistry.KeepsIdentity change)
    (sameStack : ∀ trace, (change trace).stack = trace.stack) (address : ℕ) :
    Tracked selfOf (registry.assign address change) frames where
  wellFormed := tracked.wellFormed.assign address keeps
  framed := by
    intro frame frame_mem
    rcases tracked.framed frame frame_mem with ⟨trace, inMap, own, mine⟩
    rcases TraceRegistry.Retains.assign keeps address trace inMap with
      ⟨later, laterInMap, sameAddress, sameThread, -⟩
    exact ⟨later, laterInMap, sameAddress.trans own, sameThread.trans mine⟩
  counted := by
    intro trace inMap
    rcases TraceRegistry.mem_assign.mp inMap with ⟨old, oldInMap, rfl⟩
    by_cases same : old.address = address
    · rw [if_pos same, keeps.threadId, sameStack]
      exact tracked.counted old oldInMap
    · rw [if_neg same]
      exact tracked.counted old oldInMap

theorem call_isSome {application : Application Thread} {known : List CString}
    {hostname : CString} {calls : List (Call Thread)} {next : Call Thread}
    (tracked : Tracked selfOf application.library.registry application.frames)
    (kernel : Kernel) (idle : application.library.Idle known hostname)
    (follows : Follows calls application.frames) (nested : WellNested (calls ++ [next]))
    (hostnameFits : hostname.Fits) (classFits : next.operation.classSignature.Fits)
    (operationFits : next.operation.operationSignature.Fits) :
    ∃ later, application.call kernel selfOf next = some later := by
  rcases next with ⟨thread, operation | operation⟩
  · rcases Library.enter_isSome kernel (selfOf thread) idle hostnameFits classFits
      operationFits with ⟨⟨address, after⟩, entered⟩
    exact ⟨_, Application.call_enter_eq_some.mpr ⟨address, after, entered, rfl⟩⟩
  · rcases follows.popped nested with ⟨frame, rest, popped, rfl⟩
    have isOpen : frame ∈ application.frames :=
      (perm_of_pop popped).mem_iff.mpr List.mem_cons_self
    rcases tracked.framed frame isOpen with ⟨trace, inMap, address, -⟩
    rcases Library.leave_isSome kernel (selfOf thread) idle inMap classFits operationFits with
      ⟨after, left⟩
    rw [address] at left
    exact ⟨_, Application.call_leave_eq_some.mpr ⟨frame, rest, after, popped, rfl, left, rfl⟩⟩

end Tracked

namespace CountsOpen

omit [DecidableEq Thread] in
theorem enter (kernel : Kernel) (frame : Frame Thread Label) (counts : CountsOpen selfOf registry frames)
    (tracked : Tracked selfOf registry frames) (keeps : TraceRegistry.KeepsIdentity change)
    (pushes : ∀ trace, (change trace).stack = trace.stack + 1) :
    CountsOpen selfOf (registry.entering kernel (selfOf frame.thread) change)
      (frame :: frames) := by
  intro trace inMap
  rcases (TraceRegistry.mem_entering tracked.wellFormed).mp inMap with rfl | ⟨old, different⟩
  · have current : (registry.current kernel (selfOf frame.thread)).stack ≤
        openWith selfOf frames (threadIdOf (selfOf frame.thread)) := by
      cases found : registry.traceFind (threadIdOf (selfOf frame.thread)) with
      | some data =>
          rcases TraceRegistry.mem_of_traceFind found with ⟨dataInMap, mine⟩
          rw [(TraceRegistry.traceGet_of_some kernel found).2, ← mine]
          exact counts data dataInMap
      | none =>
          simp only [TraceRegistry.current, found, TraceRegistry.traceCreate]
          omega
    rw [keeps.threadId, TraceRegistry.threadId_current, openWith_cons_self, pushes]
    push_cast
    omega
  · rw [openWith_cons_of_ne (Tracked.threadId_ne_of_address_ne tracked.wellFormed frame.thread old
      different)]
    exact counts trace old

theorem leave (counts : CountsOpen selfOf registry frames)
    (tracked : Tracked selfOf registry frames)
    (popped : pop Frame.thread frame.thread frames = some (frame, rest))
    (keeps : TraceRegistry.KeepsIdentity change)
    (pops : ∀ trace, (change trace).stack = trace.stack - 1)
    (inMap : trace ∈ registry.traces) (mine : trace.threadId = threadIdOf (selfOf frame.thread)) :
    CountsOpen selfOf (registry.leaving trace.address change bound trace) rest := by
  intro other otherInMap
  rcases (TraceRegistry.mem_leaving tracked.wellFormed keeps inMap).mp otherInMap with
    ⟨rfl, -⟩ | ⟨old, different⟩
  · have counted := counts trace inMap
    rw [openWith_pop popped, mine, openWith_cons_self] at counted
    rw [keeps.threadId, pops, mine]
    push_cast at counted
    omega
  · have otherThread : threadIdOf (selfOf frame.thread) ≠ other.threadId := by
      intro same
      exact different (congrArg KiekerTrace.address
        (tracked.wellFormed.eq_of_threadId old inMap (same.symm.trans mine.symm)))
    have counted := counts other old
    rw [openWith_pop popped, openWith_cons_of_ne otherThread] at counted
    exact counted

end CountsOpen

end Kieker
