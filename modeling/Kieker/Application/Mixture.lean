import Kieker.Application.Aspects

/-!
# Mixed probes

Plain probes, the event aspect and the controlflow aspect count in the same traces.
Operations of all three can be nested in each other: a trace is there as long as one
of them runs. But between the two calls with which the controlflow aspect leaves an
operation, this operation does not count any more while its trace is still needed.
A plain probe that leaves the last operation that runs then takes the trace away.
-/

namespace Kieker

open Nesting

/-- An operation that runs, with what the probes around it keep. -/
inductive Probed where
  | reported (operation : Operation)
  | recorded (operationSignature : CString) (execution : OpenExecution)

/-- The calls of all probes; those of plain probes and of the event aspect are told by the operation. -/
inductive MixedMethod where
  | enter (operation : Operation)
  | leave
  | controlflowBefore (operationSignature : CString)
  | controlflowAfter
  | controlflowAfter2

/-- A thread calls a probe. -/
structure MixedCall (Thread : Type) where
  thread : Thread
  method : MixedMethod

/-- The library, with the operations that run and those that are about to return. -/
structure Mixture (Thread : Type) where
  library : Library
  running : List (Frame Thread Probed)
  returning : List (Frame Thread Returning)

variable {Thread : Type} [DecidableEq Thread]

namespace Mixture

/-- No operation runs yet. -/
def start (library : Library) : Mixture Thread where
  library := library
  running := []
  returning := []

/-- A call of a thread; what a call at the end of an operation is given is of the latest one. -/
inductive Step (kernel : Kernel) (selfOf : Thread → PthreadSelf) :
    Mixture Thread → MixedCall Thread → Mixture Thread → Prop
  | enter {mixture : Mixture Thread} {thread : Thread} {operation : Operation} {trace : ℕ}
      {after : Library}
      (done : mixture.library.enter kernel (selfOf thread) operation = some (trace, after)) :
      Step kernel selfOf mixture ⟨thread, .enter operation⟩
        { mixture with
          library := after
          running := ⟨thread, .reported operation, trace⟩ :: mixture.running }
  | leave {mixture : Mixture Thread} {thread : Thread} {operation : Operation} {after : Library}
      {frame : Frame Thread Probed} {rest : List (Frame Thread Probed)}
      (popped : pop Frame.thread thread mixture.running = some (frame, rest))
      (latest : frame.operation = .reported operation)
      (done : mixture.library.leave kernel (selfOf thread) operation frame.trace = some after) :
      Step kernel selfOf mixture ⟨thread, .leave⟩
        { mixture with library := after, running := rest }
  | controlflowBefore {mixture : Mixture Thread} {thread : Thread}
      {operationSignature : CString} {trace : ℕ} {execution : OpenExecution} {after : Library}
      (done : probeAspectControlflowBefore kernel (selfOf thread) mixture.library =
        some (trace, execution, after)) :
      Step kernel selfOf mixture ⟨thread, .controlflowBefore operationSignature⟩
        { mixture with
          library := after
          running := ⟨thread, .recorded operationSignature execution, trace⟩ :: mixture.running }
  | controlflowAfter {mixture : Mixture Thread} {thread : Thread}
      {operationSignature : CString} {execution : OpenExecution} {tout : ℤ} {after : Library}
      {frame : Frame Thread Probed} {rest : List (Frame Thread Probed)}
      (popped : pop Frame.thread thread mixture.running = some (frame, rest))
      (latest : frame.operation = .recorded operationSignature execution)
      (done : probeAspectControlflowAfter kernel frame.trace mixture.library =
        some (tout, after)) :
      Step kernel selfOf mixture ⟨thread, .controlflowAfter⟩
        { library := after
          running := rest
          returning := ⟨thread, ⟨operationSignature, execution, tout⟩, frame.trace⟩ ::
            mixture.returning }
  | controlflowAfter2 {mixture : Mixture Thread} {thread : Thread}
      {record : OperationExecutionRecord} {after : Library}
      {frame : Frame Thread Returning} {rest : List (Frame Thread Returning)}
      (popped : pop Frame.thread thread mixture.returning = some (frame, rest))
      (complete : frame.operation.execution.close frame.operation.tout
        frame.operation.operationSignature = some record)
      (done : probeAspectControlflowAfter2 kernel frame.trace record mixture.library =
        some after) :
      Step kernel selfOf mixture ⟨thread, .controlflowAfter2⟩
        { mixture with library := after, returning := rest }

/-- A call that the thread can make, with signatures that fit into the buffer. -/
def Allows (mixture : Mixture Thread) (call : MixedCall Thread) : Prop :=
  match call.method with
  | .enter operation => operation.classSignature.Fits ∧ operation.operationSignature.Fits
  | .leave => ∃ frame rest operation,
      pop Frame.thread call.thread mixture.running = some (frame, rest) ∧
      frame.operation = .reported operation ∧
      operation.classSignature.Fits ∧ operation.operationSignature.Fits
  | .controlflowBefore _ => True
  | .controlflowAfter => ∃ frame rest operationSignature execution,
      pop Frame.thread call.thread mixture.running = some (frame, rest) ∧
      frame.operation = .recorded operationSignature execution
  | .controlflowAfter2 => ∃ frame rest,
      pop Frame.thread call.thread mixture.returning = some (frame, rest) ∧
      frame.operation.operationSignature.Fits

/--
A plain probe leaves the last operation that runs under its thread id, while the
controlflow aspect has still to send the record of another one.
-/
def Hasty (selfOf : Thread → PthreadSelf) (mixture : Mixture Thread) (call : MixedCall Thread) :
    Prop :=
  ∃ frame rest operation, call.method = .leave ∧
    pop Frame.thread call.thread mixture.running = some (frame, rest) ∧
    frame.operation = .reported operation ∧ operation.probe = .plain ∧
    openWith selfOf mixture.running (threadIdOf (selfOf call.thread)) = 1 ∧
    ∃ other ∈ mixture.returning, threadIdOf (selfOf other.thread) = threadIdOf (selfOf call.thread)

/-- A call that is not hasty. -/
def Careful (kernel : Kernel) (selfOf : Thread → PthreadSelf) (mixture : Mixture Thread)
    (call : MixedCall Thread) (later : Mixture Thread) : Prop :=
  Step kernel selfOf mixture call later ∧ ¬mixture.Hasty selfOf call

end Mixture

theorem Mixture.not_hasty {selfOf : Thread → PthreadSelf} {mixture : Mixture Thread}
    {call : MixedCall Thread} (other : call.method ≠ .leave) : ¬mixture.Hasty selfOf call :=
  fun ⟨_, _, _, isLeave, _⟩ => other isLeave

/-! ### Buffers -/

variable {kernel : Kernel} {selfOf : Thread → PthreadSelf} {library after : Library}
  {hostname : CString} {known laterKnown : List CString} {trace : KiekerTrace}
  {registry : TraceRegistry} {change : KiekerTrace → KiekerTrace} {bound : ℤ}

/-- The buffers of all traces have the size that they were allocated with. -/
def TraceRegistry.Sized (registry : TraceRegistry) : Prop :=
  ∀ trace ∈ registry.traces, trace.buffer.size = 1024

theorem Operation.buffer_entry (filter : AdaptiveFilter) (operation : Operation)
    (trace : KiekerTrace) : (operation.entry filter trace).buffer = trace.buffer := by
  rcases operation with ⟨_ | _, classSignature, operationSignature⟩
  · rfl
  · simp only [Operation.entry, AdaptiveFilter.entry]
    split <;> rfl

theorem Operation.buffer_exit (filter : AdaptiveFilter) (operation : Operation)
    (trace : KiekerTrace) : (operation.exit filter trace).buffer = trace.buffer := by
  rcases operation with ⟨_ | _, classSignature, operationSignature⟩
  · rfl
  · simp only [Operation.exit, AdaptiveFilter.exit]
    split <;> rfl

namespace TraceRegistry.Sized

theorem current (sized : registry.Sized) (kernel : Kernel) (self : PthreadSelf) :
    (registry.current kernel self).buffer.size = 1024 := by
  cases found : registry.traceFind (threadIdOf self) with
  | some data =>
      rw [(TraceRegistry.traceGet_of_some kernel found).2]
      exact sized data (TraceRegistry.mem_of_traceFind found).1
  | none => simp only [TraceRegistry.current, found, TraceRegistry.traceCreate]

theorem entering (sized : registry.Sized) (wellFormed : registry.WellFormed) {self : PthreadSelf}
    (sameBuffer : ∀ trace, (change trace).buffer = trace.buffer) :
    (registry.entering kernel self change).Sized := by
  intro trace inMap
  rcases (TraceRegistry.mem_entering wellFormed).mp inMap with rfl | ⟨old, -⟩
  · rw [sameBuffer]
    exact sized.current kernel self
  · exact sized trace old

theorem leaving (sized : registry.Sized) (wellFormed : registry.WellFormed)
    (keeps : TraceRegistry.KeepsIdentity change) (inMap : trace ∈ registry.traces)
    (sameSize : (change trace).buffer.size = trace.buffer.size) :
    (registry.leaving trace.address change bound trace).Sized := by
  intro other otherInMap
  rcases (TraceRegistry.mem_leaving wellFormed keeps inMap).mp otherInMap with ⟨rfl, -⟩ | ⟨old, -⟩
  · rw [sameSize]
    exact sized trace inMap
  · exact sized other old

end TraceRegistry.Sized

/-- Sending a record of the controlflow aspect keeps the size of the buffer. -/
theorem probeAspectControlflowSend_size {channel sent : Channel} (ready : channel.Ready known)
    {record : OperationExecutionRecord} {buffer stored : Block}
    (done : probeAspectControlflowSend kernel record buffer channel = some (stored, sent)) :
    stored.size = buffer.size := by
  simp only [probeAspectControlflowSend, operationExecutionRecordSerialize, Option.bind_eq_bind,
    Option.bind_eq_some_iff, Option.some.injEq, Prod.mk.injEq] at done
  rcases done with ⟨⟨length, written, middle⟩, serialized, after, -, rfl, -⟩
  exact (serializeFields_eq_some ready.toServes (Nat.zero_le _) serialized).2.2.2.size

theorem probeAspectControlflowAfter2_sized (idle : library.Idle known hostname)
    (inMap : trace ∈ library.registry.traces) {record : OperationExecutionRecord}
    (done : probeAspectControlflowAfter2 kernel trace.address record library = some after)
    (sized : library.registry.Sized) : after.registry.Sized := by
  have keeps : ∀ buffer : Block, TraceRegistry.KeepsIdentity fun data =>
      { data with buffer := buffer } :=
    fun _ => ⟨fun _ => rfl, fun _ => rfl, fun _ => rfl⟩
  simp only [probeAspectControlflowAfter2, idle.wellFormed.deref_of_mem inMap,
    Option.bind_eq_bind, Option.bind_some, Option.bind_eq_some_iff] at done
  rcases done with ⟨⟨buffer, sent⟩, sends, data, found, same⟩
  rw [idle.wellFormed.deref_assign (keeps buffer) inMap, Option.some.injEq] at found
  subst found
  rw [Option.some.injEq] at same
  subst same
  exact TraceRegistry.Sized.leaving sized idle.wellFormed (keeps buffer) inMap
    (probeAspectControlflowSend_size idle.ready sends)

/-! ### The invariant -/

/-- What the controlflow aspect notes of the process. -/
structure OpenExecution.Noted (hostname : CString) (execution : OpenExecution) : Prop where
  hostname : execution.hostname = some hostname
  sessionId : execution.sessionId = .literal "<no session>"

omit [DecidableEq Thread] in
theorem CountsOpen.assign {Label : Type} {frames : List (Frame Thread Label)}
    (counts : CountsOpen selfOf registry frames)
    (keeps : TraceRegistry.KeepsIdentity change)
    (sameStack : ∀ trace, (change trace).stack = trace.stack) (address : ℕ) :
    CountsOpen selfOf (registry.assign address change) frames := by
  intro trace inMap
  rcases TraceRegistry.mem_assign.mp inMap with ⟨old, oldInMap, rfl⟩
  by_cases same : old.address = address
  · rw [if_pos same, keeps.threadId, sameStack]
    exact counts old oldInMap
  · rw [if_neg same]
    exact counts old oldInMap

/-- What holds between the calls of mixed probes that are not hasty. -/
structure Mixture.Kept (selfOf : Thread → PthreadSelf) (hostname : CString)
    (mixture : Mixture Thread) (known : List CString) : Prop where
  idle : mixture.library.Idle known hostname
  tracked : Tracked selfOf mixture.library.registry mixture.running
  counts : CountsOpen selfOf mixture.library.registry mixture.running
  sized : mixture.library.registry.Sized
  returning : ∀ frame ∈ mixture.returning, ∃ trace ∈ mixture.library.registry.traces,
    trace.address = frame.trace ∧ trace.threadId = threadIdOf (selfOf frame.thread)
  noted : ∀ frame ∈ mixture.running, ∀ operationSignature execution,
    frame.operation = .recorded operationSignature execution → execution.Noted hostname
  closed : ∀ frame ∈ mixture.returning, frame.operation.execution.Noted hostname

variable {mixture later : Mixture Thread} {call : MixedCall Thread}
  {frame : Frame Thread Probed} {rest : List (Frame Thread Probed)}

namespace Mixture.Kept

omit [DecidableEq Thread] in
/-- A trace counts exactly the operations that run under its thread id. -/
theorem stack_eq (kept : mixture.Kept selfOf hostname known)
    (inMap : trace ∈ mixture.library.registry.traces) :
    trace.stack = openWith selfOf mixture.running trace.threadId :=
  le_antisymm (kept.counts trace inMap) (kept.tracked.counted trace inMap)

omit [DecidableEq Thread] in
/-- A probe that enters an operation keeps the invariant. -/
theorem entering (frame : Frame Thread Probed) (kept : mixture.Kept selfOf hostname known)
    (idle : after.Idle laterKnown hostname)
    (sameMap : after.registry =
      mixture.library.registry.entering kernel (selfOf frame.thread) change)
    (keeps : TraceRegistry.KeepsIdentity change)
    (pushes : ∀ trace, (change trace).stack = trace.stack + 1)
    (sameBuffer : ∀ trace, (change trace).buffer = trace.buffer)
    (current : frame.trace =
      (mixture.library.registry.current kernel (selfOf frame.thread)).address)
    (noted : ∀ operationSignature execution,
      frame.operation = .recorded operationSignature execution → execution.Noted hostname) :
    Kept selfOf hostname { mixture with library := after, running := frame :: mixture.running }
      laterKnown := by
  have wellFormed := kept.idle.wellFormed
  refine ⟨idle, ?_, ?_, ?_, ?_, ?_, kept.closed⟩
  · change Tracked selfOf after.registry _
    rw [sameMap]
    exact Tracked.enter frame kept.tracked keeps pushes current
  · change CountsOpen selfOf after.registry _
    rw [sameMap]
    exact CountsOpen.enter kernel frame kept.counts kept.tracked keeps pushes
  · change after.registry.Sized
    rw [sameMap]
    exact TraceRegistry.Sized.entering kept.sized wellFormed sameBuffer
  · intro other other_mem
    rcases kept.returning other other_mem with ⟨trace, inMap, address, mine⟩
    rcases TraceRegistry.Retains.entering wellFormed keeps trace inMap with
      ⟨same, sameInMap, sameAddress, sameThread, -⟩
    change ∃ trace ∈ after.registry.traces, _
    rw [sameMap]
    exact ⟨same, sameInMap, sameAddress.trans address, sameThread.trans mine⟩
  · intro other other_mem
    rcases List.mem_cons.mp other_mem with rfl | earlier
    · exact noted
    · exact kept.noted other earlier

/-- So does one that leaves an operation, unless it takes away a trace that is still needed. -/
theorem leaving (kept : mixture.Kept selfOf hostname known) (idle : after.Idle laterKnown hostname)
    (popped : pop Frame.thread frame.thread mixture.running = some (frame, rest))
    (inMap : trace ∈ mixture.library.registry.traces)
    (mine : trace.threadId = threadIdOf (selfOf frame.thread))
    (sameMap : after.registry =
      mixture.library.registry.leaving trace.address change bound trace)
    (keeps : TraceRegistry.KeepsIdentity change)
    (pops : ∀ trace, (change trace).stack = trace.stack - 1) (low : bound ≤ 0)
    (sameBuffer : ∀ trace, (change trace).buffer = trace.buffer)
    (needed : (∃ other ∈ mixture.returning,
      threadIdOf (selfOf other.thread) = threadIdOf (selfOf frame.thread)) →
      (change trace).stack ≠ bound) :
    Kept selfOf hostname { mixture with library := after, running := rest } laterKnown := by
  have wellFormed := kept.idle.wellFormed
  refine ⟨idle, ?_, ?_, ?_, ?_, ?_, kept.closed⟩
  · change Tracked selfOf after.registry _
    rw [sameMap]
    exact kept.tracked.leave popped keeps pops low inMap mine
  · change CountsOpen selfOf after.registry _
    rw [sameMap]
    exact kept.counts.leave kept.tracked popped keeps pops inMap mine
  · change after.registry.Sized
    rw [sameMap]
    exact TraceRegistry.Sized.leaving kept.sized wellFormed keeps inMap
      (congrArg Block.size (sameBuffer trace))
  · intro other other_mem
    rcases kept.returning other other_mem with ⟨own, ownInMap, address, ownThread⟩
    change ∃ trace ∈ after.registry.traces, _
    rw [sameMap]
    by_cases same : own.address = trace.address
    · have isTrace := wellFormed.eq_of_address ownInMap inMap same
      subst isTrace
      have stays := needed ⟨other, other_mem, ownThread.symm.trans mine⟩
      refine ⟨change own, (TraceRegistry.mem_leaving wellFormed keeps inMap).mpr
        (Or.inl ⟨rfl, stays⟩), (keeps.address _).trans address, (keeps.threadId _).trans ownThread⟩
    · exact ⟨own, (TraceRegistry.mem_leaving wellFormed keeps inMap).mpr
        (Or.inr ⟨ownInMap, same⟩), address, ownThread⟩
  · intro other other_mem
    exact kept.noted other ((perm_of_pop popped).mem_iff.mpr (List.mem_cons_of_mem _ other_mem))

/-- The trace of an operation that runs counts it. -/
theorem exists_trace (kept : mixture.Kept selfOf hostname known)
    (popped : pop Frame.thread frame.thread mixture.running = some (frame, rest)) :
    ∃ trace ∈ mixture.library.registry.traces, trace.address = frame.trace ∧
      trace.threadId = threadIdOf (selfOf frame.thread) ∧
      trace.stack = openWith selfOf mixture.running (threadIdOf (selfOf frame.thread)) ∧
      1 ≤ trace.stack := by
  have isOpen : frame ∈ mixture.running :=
    (perm_of_pop popped).mem_iff.mpr List.mem_cons_self
  rcases kept.tracked.framed frame isOpen with ⟨trace, inMap, address, mine⟩
  have enough := kept.tracked.stack_pos popped inMap mine
  refine ⟨trace, inMap, address, mine, ?_, by omega⟩
  rw [← mine]
  exact kept.stack_eq inMap

theorem step (kept : mixture.Kept selfOf hostname known)
    (stepped : Mixture.Step kernel selfOf mixture call later)
    (careful : ¬mixture.Hasty selfOf call) : ∃ known, later.Kept selfOf hostname known := by
  have wellFormed := kept.idle.wellFormed
  cases stepped with
  | @enter thread operation address after done =>
      rcases Library.enter_eq_some kept.idle done with ⟨current, called⟩
      have keeps := operation.keepsIdentity_entry mixture.library.filter
      exact ⟨_, kept.entering ⟨thread, .reported operation, address⟩
        (called.idle kept.idle (wellFormed.entering keeps)) called.registry keeps
        (operation.stack_entry _) (operation.buffer_entry _) current
        fun _ _ isReported => nomatch isReported⟩
  | @leave thread operation after frame rest popped latest done =>
      have own := owner_of_pop popped
      subst own
      rcases kept.exists_trace popped with ⟨trace, inMap, address, mine, counted, atLeastOne⟩
      rw [← address] at done
      have called := Library.leave_eq_some kept.idle inMap mine done
      have keeps := operation.keepsIdentity_exit mixture.library.filter
      refine ⟨_, kept.leaving (called.idle kept.idle (wellFormed.leaving keeps)) popped inMap mine
        called.registry keeps (operation.stack_exit _) operation.bound_nonpos
        (operation.buffer_exit _) ?_⟩
      intro needed removed
      rw [Operation.stack_exit] at removed
      have bound_eq : operation.probe = .plain ∧ operation.bound = 0 ∨ operation.bound = -1 := by
        rcases operation with ⟨_ | _, classSignature, operationSignature⟩
        · exact Or.inl ⟨rfl, rfl⟩
        · exact Or.inr rfl
      rcases bound_eq with ⟨plain, atZero⟩ | atMinusOne
      · rw [atZero] at removed
        have last : openWith selfOf mixture.running (threadIdOf (selfOf frame.thread)) = 1 := by
          omega
        exact careful ⟨frame, rest, operation, rfl, popped, latest, plain, last, needed⟩
      · -- The event aspect waits for a stack that this trace, which still counts, cannot reach.
        rw [atMinusOne] at removed
        omega
  | @controlflowBefore thread operationSignature address execution after done =>
      rcases probeAspectControlflowBefore_eq_some kept.idle done with
        ⟨current, rfl, sameMap, idle⟩
      refine ⟨_, kept.entering ⟨thread, .recorded operationSignature _, address⟩ idle sameMap
        TraceRegistry.keepsIdentity_enter (fun _ => rfl) (fun _ => rfl) current ?_⟩
      intro signature execution isRecorded
      cases isRecorded
      exact ⟨rfl, rfl⟩
  | @controlflowAfter thread operationSignature execution tout after frame rest popped latest done =>
      have isOpen : frame ∈ mixture.running :=
        (perm_of_pop popped).mem_iff.mpr List.mem_cons_self
      have own := owner_of_pop popped
      subst own
      rcases kept.exists_trace popped with ⟨trace, inMap, address, mine, -, atLeastOne⟩
      rcases probeAspectControlflowAfter_eq_some kept.idle done with ⟨sameMap, idle⟩
      have keeps := TraceRegistry.keepsIdentity_pop
      -- The trace stays, although it does not count the operation any more.
      have above : trace.pop.stack ≠ -1 := by
        change trace.stack - 1 ≠ -1
        omega
      rw [← address, ← TraceRegistry.leaving_of_ne above] at sameMap
      have left := kept.leaving idle popped inMap mine sameMap keeps (fun _ => rfl) (by norm_num)
        (fun _ => rfl) fun _ => above
      refine ⟨known, idle, left.tracked, left.counts, left.sized, ?_, left.noted, ?_⟩
      · intro other other_mem
        rcases List.mem_cons.mp other_mem with rfl | earlier
        · refine ⟨trace.pop, ?_, address, mine⟩
          change trace.pop ∈ after.registry.traces
          rw [sameMap]
          exact (TraceRegistry.mem_leaving wellFormed keeps inMap).mpr (Or.inl ⟨rfl, above⟩)
        · exact left.returning other earlier
      · intro other other_mem
        rcases List.mem_cons.mp other_mem with rfl | earlier
        · exact kept.noted frame isOpen _ _ latest
        · exact kept.closed other earlier
  | @controlflowAfter2 thread record after frame rest popped complete done =>
      have isOpen : frame ∈ mixture.returning :=
        (perm_of_pop popped).mem_iff.mpr List.mem_cons_self
      have stillReturning : ∀ other ∈ rest, other ∈ mixture.returning := fun other other_mem =>
        (perm_of_pop popped).mem_iff.mpr (List.mem_cons_of_mem _ other_mem)
      rcases kept.returning frame isOpen with ⟨trace, inMap, address, mine⟩
      rw [← address] at done
      have sized := probeAspectControlflowAfter2_sized kept.idle inMap done kept.sized
      rcases probeAspectControlflowAfter2_eq_some kept.idle inMap done with
        ⟨buffer, laterKnown, sameMap, idle⟩
      have keeps : TraceRegistry.KeepsIdentity fun data => { data with buffer := buffer } :=
        ⟨fun _ => rfl, fun _ => rfl, fun _ => rfl⟩
      have counted := kept.tracked.counted trace inMap
      have above : trace.stack ≠ -1 := by omega
      rw [TraceRegistry.leaving_of_ne above] at sameMap
      refine ⟨laterKnown, idle, ?_, ?_, sized, ?_, kept.noted, ?_⟩
      · change Tracked selfOf after.registry _
        rw [sameMap]
        exact kept.tracked.assign keeps (fun _ => rfl) trace.address
      · change CountsOpen selfOf after.registry _
        rw [sameMap]
        exact kept.counts.assign keeps (fun _ => rfl) trace.address
      · intro other other_mem
        rcases kept.returning other (stillReturning other other_mem) with
          ⟨own, ownInMap, ownAddress, ownThread⟩
        rcases TraceRegistry.Retains.assign keeps trace.address own ownInMap with
          ⟨same, sameInMap, sameAddress, sameThread, -⟩
        change ∃ trace ∈ after.registry.traces, _
        rw [sameMap]
        exact ⟨same, sameInMap, sameAddress.trans ownAddress, sameThread.trans ownThread⟩
      · intro other other_mem
        exact kept.closed other (stillReturning other other_mem)

/-! ### Every call is defined -/

omit [DecidableEq Thread] in
/-- The record of an operation that is about to return can be sent. -/
theorem after2_isSome (kernel : Kernel) (kept : mixture.Kept selfOf hostname known)
    {returned : Frame Thread Returning} (isReturning : returned ∈ mixture.returning)
    {record : OperationExecutionRecord}
    (fits : ∀ string ∈ Field.stringsAll record.fields, string.Fits) :
    ∃ after, probeAspectControlflowAfter2 kernel returned.trace record mixture.library =
      some after := by
  rcases kept.returning returned isReturning with ⟨trace, inMap, address, -⟩
  rw [← address]
  have size := kept.sized trace inMap
  exact probeAspectControlflowAfter2_isSome kernel kept.idle inMap
    (fun string isUsed => Or.inr (fits string isUsed)) (by omega)

theorem exists_step (kernel : Kernel) (kept : mixture.Kept selfOf hostname known)
    (hostnameFits : hostname.Fits) (allowed : mixture.Allows call) :
    ∃ later, Mixture.Step kernel selfOf mixture call later := by
  rcases call with ⟨thread, operation | _ | operationSignature | _ | _⟩
  · rcases Library.enter_isSome kernel (selfOf thread) kept.idle hostnameFits allowed.1 allowed.2
      with ⟨⟨address, after⟩, entered⟩
    exact ⟨_, .enter entered⟩
  · rcases allowed with ⟨frame, rest, operation, popped, latest, classFits, operationFits⟩
    have own := owner_of_pop popped
    change frame.thread = thread at own
    subst own
    rcases kept.exists_trace popped with ⟨trace, inMap, address, -⟩
    rcases Library.leave_isSome kernel (selfOf frame.thread) kept.idle inMap classFits
      operationFits with ⟨after, left⟩
    rw [address] at left
    exact ⟨_, .leave popped latest left⟩
  · rcases probeAspectControlflowBefore_eq kernel (selfOf thread) kept.idle with
      ⟨after, entered, -⟩
    exact ⟨_, .controlflowBefore entered⟩
  · rcases allowed with ⟨frame, rest, operationSignature, execution, popped, latest⟩
    have own := owner_of_pop popped
    change frame.thread = thread at own
    subst own
    rcases kept.exists_trace popped with ⟨trace, inMap, address, -⟩
    rcases probeAspectControlflowAfter_isSome kernel kept.idle inMap with ⟨⟨tout, after⟩, left⟩
    rw [address] at left
    exact ⟨_, .controlflowAfter popped latest left⟩
  · rcases allowed with ⟨frame, rest, popped, operationFits⟩
    have isReturning : frame ∈ mixture.returning :=
      (perm_of_pop popped).mem_iff.mpr List.mem_cons_self
    rcases kept.closed frame isReturning with ⟨hostname_eq, sessionId_eq⟩
    have closes : ∃ record, frame.operation.execution.close frame.operation.tout
        frame.operation.operationSignature = some record ∧ Field.stringsAll record.fields =
        [frame.operation.operationSignature, frame.operation.execution.sessionId, hostname] := by
      rw [OpenExecution.close, hostname_eq]
      exact ⟨_, rfl, rfl⟩
    rcases closes with ⟨record, complete, strings⟩
    have sessionFits : (CString.literal "<no session>").Fits := by decide
    have fits : ∀ string ∈ Field.stringsAll record.fields, string.Fits := by
      rw [strings, sessionId_eq]
      simpa using ⟨operationFits, sessionFits, hostnameFits⟩
    rcases kept.after2_isSome kernel isReturning fits with ⟨after, answers⟩
    exact ⟨_, .controlflowAfter2 popped complete answers⟩

/-- A hasty call, and no other one, takes away a trace that is still needed. -/
theorem hasty_iff (kept : mixture.Kept selfOf hostname known)
    (stepped : Mixture.Step kernel selfOf mixture call later) :
    mixture.Hasty selfOf call ↔ ∃ returned ∈ later.returning, ∀ record,
      probeAspectControlflowAfter2 kernel returned.trace record later.library = none := by
  have wellFormed := kept.idle.wellFormed
  constructor
  · rintro ⟨frame, rest, operation, isLeave, popped, isOperation, plain, last, other, other_mem,
      sameId⟩
    cases stepped with
    | @leave thread left after _ _ poppedHere latest done =>
        cases popped.symm.trans poppedHere
        cases isOperation.symm.trans latest
        have own := owner_of_pop popped
        change frame.thread = thread at own
        subst own
        rcases kept.exists_trace popped with ⟨trace, inMap, address, mine, counted, -⟩
        rcases kept.returning other other_mem with ⟨needed, neededInMap, neededAddress, neededId⟩
        -- A thread id has one trace, so the call removes the one that is still needed.
        have isTrace := wellFormed.eq_of_threadId neededInMap inMap
          (neededId.trans (sameId.trans mine.symm))
        subst isTrace
        rw [← address] at done
        have called := Library.leave_eq_some kept.idle inMap mine done
        have keeps := operation.keepsIdentity_exit mixture.library.filter
        refine ⟨other, other_mem, fun record => ?_⟩
        have removed : (operation.exit mixture.library.filter needed).stack = operation.bound := by
          rw [Operation.stack_exit, counted, Operation.bound, plain, last]
          rfl
        have missing : after.registry.deref needed.address = none := by
          rw [called.registry, TraceRegistry.deref, List.find?_eq_none]
          intro found foundInMap
          rcases (TraceRegistry.mem_leaving wellFormed keeps inMap).mp foundInMap with
            ⟨-, stays⟩ | ⟨-, different⟩
          · exact absurd removed stays
          · simpa using different
        rw [← neededAddress]
        simp only [probeAspectControlflowAfter2, missing, Option.bind_eq_bind, Option.bind_none]
    | enter done => cases isLeave
    | controlflowBefore done => cases isLeave
    | controlflowAfter popped latest done => cases isLeave
    | controlflowAfter2 popped complete done => cases isLeave
  · rintro ⟨returned, isReturning, undefined⟩
    by_contra careful
    rcases kept.step stepped careful with ⟨laterKnown, laterKept⟩
    let record : OperationExecutionRecord :=
      ⟨.literal "", .literal "", 0, 0, 0, .literal "", 0, 0⟩
    have fits : ∀ string ∈ Field.stringsAll record.fields, string.Fits := by decide
    rcases laterKept.after2_isSome kernel isReturning fits with ⟨after, answers⟩
    rw [undefined record] at answers
    cases answers

omit [DecidableEq Thread] in
theorem initial (idle : library.Idle known hostname) (noTraces : library.registry.traces = []) :
    (Mixture.start library : Mixture Thread).Kept selfOf hostname known := by
  have nothing : ∀ trace, trace ∉ library.registry.traces := by
    rw [noTraces]
    exact fun _ => List.not_mem_nil
  exact {
    idle := idle
    tracked := ⟨idle.wellFormed, fun _ frame_mem => absurd frame_mem List.not_mem_nil,
      fun trace inMap => absurd inMap (nothing trace)⟩
    counts := fun trace inMap => absurd inMap (nothing trace)
    sized := fun trace inMap => absurd inMap (nothing trace)
    returning := fun _ frame_mem => absurd frame_mem List.not_mem_nil
    noted := fun _ frame_mem => absurd frame_mem List.not_mem_nil
    closed := fun _ frame_mem => absurd frame_mem List.not_mem_nil }

theorem of_run {calls : List (MixedCall Thread)} (idle : library.Idle known hostname)
    (noTraces : library.registry.traces = [])
    (run : Steps (Mixture.Careful kernel selfOf) (Mixture.start library) calls mixture) :
    ∃ known, mixture.Kept selfOf hostname known := by
  induction run with
  | nil => exact ⟨known, .initial idle noTraces⟩
  | snoc _ last ih =>
      rcases ih with ⟨middleKnown, middle⟩
      exact middle.step last.1 last.2

end Mixture.Kept

/--
Operations with probes of all three kinds may be nested in each other, in any number
of threads, even if these share thread ids, and whatever the writes return. In every
state that calls without haste lead to, the trace of a thread id counts exactly the
operations that run under it; every call that a thread can make is defined, so no
pointer dangles and no buffer overruns; and a call leaves the controlflow aspect with
a pointer to a freed trace exactly if it is hasty.
-/
theorem probes_mix_without_haste {calls : List (MixedCall Thread)}
    (idle : library.Idle known hostname) (hostnameFits : hostname.Fits)
    (noTraces : library.registry.traces = [])
    (run : Steps (Mixture.Careful kernel selfOf) (Mixture.start library) calls mixture) :
    (mixture.library.registry.traces.map KiekerTrace.threadId).Nodup ∧
      (∀ trace ∈ mixture.library.registry.traces,
        trace.stack = openWith selfOf mixture.running trace.threadId) ∧
      (∀ frame ∈ mixture.running, ∃ trace ∈ mixture.library.registry.traces,
        trace.address = frame.trace ∧ trace.threadId = threadIdOf (selfOf frame.thread)) ∧
      (∀ call, mixture.Allows call → ∃ later, Mixture.Step kernel selfOf mixture call later) ∧
      ∀ call later, Mixture.Step kernel selfOf mixture call later →
        (mixture.Hasty selfOf call ↔ ∃ returned ∈ later.returning, ∀ record,
          probeAspectControlflowAfter2 kernel returned.trace record later.library = none) := by
  rcases Mixture.Kept.of_run idle noTraces run with ⟨finalKnown, kept⟩
  exact ⟨kept.idle.wellFormed.threads, fun trace inMap => kept.stack_eq inMap, kept.tracked.framed,
    fun call allowed => kept.exists_step kernel hostnameFits allowed,
    fun call later stepped => kept.hasty_iff stepped⟩

/-- An operation with a plain probe. -/
def workOperation : Operation :=
  ⟨.plain, .literal "Worker", .literal "void work()"⟩

/--
Between the two calls that leave an operation of the controlflow aspect, the thread
enters one with a plain probe. To leave that one is hasty: the record of the first
operation cannot be sent any more.
-/
theorem plain_probe_before_record_sent :
    ∃ initialized : Library, ∃ mixture : Mixture Unit,
      controllerInitialize Kernel.accepting StartUp.smooth Library.initial = some initialized ∧
      Steps (Mixture.Careful Kernel.accepting fun _ => 7) (Mixture.start initialized)
        [⟨(), .controlflowBefore (.literal "int main()")⟩, ⟨(), .controlflowAfter⟩,
          ⟨(), .enter workOperation⟩] mixture ∧
      mixture.Allows ⟨(), .leave⟩ ∧
      (∀ call, mixture.Allows call →
        ∃ later, Mixture.Step Kernel.accepting (fun _ => 7) mixture call later) ∧
      ∃ later, Mixture.Step Kernel.accepting (fun _ => 7) mixture ⟨(), .leave⟩ later ∧
        ∃ returned ∈ later.returning, ∀ record, probeAspectControlflowAfter2 Kernel.accepting
          returned.trace record later.library = none := by
  rcases exists_idle Kernel.accepting with ⟨initialized, done, idle, noTraces⟩
  rcases probeAspectControlflowBefore_eq Kernel.accepting 7 idle with ⟨entered, enters, -⟩
  generalize (initialized.registry.current Kernel.accepting 7).address = address at enters
  generalize openExecutionOf _ _ _ _ = execution at enters
  have first : Mixture.Careful Kernel.accepting (fun _ : Unit => 7) (Mixture.start initialized)
      ⟨(), .controlflowBefore (.literal "int main()")⟩
      ⟨entered, [⟨(), .recorded (.literal "int main()") execution, address⟩], []⟩ :=
    ⟨.controlflowBefore enters, Mixture.not_hasty nofun⟩
  rcases Mixture.Kept.of_run idle noTraces (.single first) with ⟨firstKnown, firstKept⟩
  rcases firstKept.exists_trace rfl with ⟨trace, inMap, sameAddress, -⟩
  rcases probeAspectControlflowAfter_isSome Kernel.accepting firstKept.idle inMap with
    ⟨⟨tout, left⟩, leaves⟩
  rw [sameAddress] at leaves
  have second : Mixture.Careful Kernel.accepting (fun _ : Unit => 7)
      ⟨entered, [⟨(), .recorded (.literal "int main()") execution, address⟩], []⟩
      ⟨(), .controlflowAfter⟩
      ⟨left, [], [⟨(), ⟨.literal "int main()", execution, tout⟩, address⟩]⟩ :=
    ⟨@Mixture.Step.controlflowAfter Unit _ _ _ _ () _ _ _ _
      ⟨(), .recorded (.literal "int main()") execution, address⟩ [] rfl rfl leaves,
      Mixture.not_hasty nofun⟩
  have firstTwo := (Steps.single first).snoc second
  rcases Mixture.Kept.of_run idle noTraces firstTwo with ⟨secondKnown, secondKept⟩
  have entersWork : ∃ result, Library.enter Kernel.accepting 7 workOperation left = some result :=
    Library.enter_isSome Kernel.accepting 7 secondKept.idle (by decide) (by decide) (by decide)
  rcases entersWork with ⟨⟨again, reentered⟩, reenters⟩
  have third : Mixture.Careful Kernel.accepting (fun _ : Unit => 7)
      ⟨left, [], [⟨(), ⟨.literal "int main()", execution, tout⟩, address⟩]⟩
      ⟨(), .enter workOperation⟩
      ⟨reentered, [⟨(), .reported workOperation, again⟩],
        [⟨(), ⟨.literal "int main()", execution, tout⟩, address⟩]⟩ :=
    ⟨.enter reenters, Mixture.not_hasty nofun⟩
  have run := firstTwo.snoc third
  rcases probes_mix_without_haste idle (by decide) noTraces run with ⟨-, -, -, defined, hasty⟩
  have allowed : Mixture.Allows (⟨reentered, [⟨(), .reported workOperation, again⟩],
      [⟨(), ⟨.literal "int main()", execution, tout⟩, address⟩]⟩ : Mixture Unit) ⟨(), .leave⟩ :=
    ⟨⟨(), .reported workOperation, again⟩, [], workOperation, rfl, rfl, by decide, by decide⟩
  rcases defined _ allowed with ⟨later, stepped⟩
  refine ⟨initialized, _, done, run, allowed, defined, later, stepped,
    (hasty _ _ stepped).mp ⟨⟨(), .reported workOperation, again⟩, [], workOperation, rfl, rfl, rfl,
      rfl, ?_, _, List.mem_cons_self, rfl⟩⟩
  exact openWith_cons_self

end Kieker
