import Kieker.Channel.Emitting
import Kieker.Trace.Registry

/-!
# What the plain probes do

One specification for each probe: the trace map it leaves behind, and its
emission. Every later result about runs of probe calls rests on these alone.
-/

namespace Kieker

/-- What a probe call says about the library: the new trace map, and its emission. -/
structure Library.Calls (kernel : Kernel) (before after : Library) (known : List CString)
    (registry : TraceRegistry) (emission : Emission) : Prop where
  registry : after.registry = registry
  filter : after.filter = before.filter
  emits : Channel.Emits kernel before.channel after.channel known emission

/-- The library between two probe calls. -/
structure Library.Idle (library : Library) (known : List CString) (hostname : CString) : Prop where
  ready : library.channel.Ready known
  named : library.channel.controller.localHostname = some hostname
  wellFormed : library.registry.WellFormed

namespace TraceRegistry

theorem keepsIdentity_advance : KeepsIdentity KiekerTrace.advance :=
  ⟨fun _ => rfl, fun _ => rfl, fun _ => rfl⟩

theorem keepsIdentity_push : KeepsIdentity KiekerTrace.push :=
  ⟨fun _ => rfl, fun _ => rfl, fun _ => rfl⟩

theorem keepsIdentity_pop : KeepsIdentity KiekerTrace.pop :=
  ⟨fun _ => rfl, fun _ => rfl, fun _ => rfl⟩

theorem keepsIdentity_enter : KeepsIdentity KiekerTrace.enter :=
  ⟨fun _ => rfl, fun _ => rfl, fun _ => rfl⟩

theorem keepsIdentity_leave : KeepsIdentity KiekerTrace.leave :=
  ⟨fun _ => rfl, fun _ => rfl, fun _ => rfl⟩

variable {kernel : Kernel} {self : PthreadSelf} {registry : TraceRegistry}
  {change : KiekerTrace → KiekerTrace}

/-- After `kieker_trace_get` and an assignment the calling thread's trace is the changed one. -/
theorem WellFormed.deref_current (wellFormed : registry.WellFormed)
    (keeps : KeepsIdentity change) :
    ((registry.traceGet kernel self).2.assign (registry.current kernel self).address change).deref
      (registry.current kernel self).address = some (change (registry.current kernel self)) :=
  wellFormed.traceGet.deref_assign keeps (mem_traceGet.mpr (Or.inr rfl))

theorem WellFormed.deref_traceGet (wellFormed : registry.WellFormed) :
    (registry.traceGet kernel self).2.deref (registry.current kernel self).address =
      some (registry.current kernel self) :=
  wellFormed.traceGet.deref_of_mem (mem_traceGet.mpr (Or.inr rfl))

/-- The map after a plain probe or an aspect has entered an operation. -/
def entering (kernel : Kernel) (self : PthreadSelf) (change : KiekerTrace → KiekerTrace)
    (registry : TraceRegistry) : TraceRegistry :=
  (registry.traceGet kernel self).2.assign (registry.current kernel self).address change

/-- The map after an assignment to a trace, which leaves the map if its stack is at a bound. -/
def leaving (address : ℕ) (change : KiekerTrace → KiekerTrace) (bound : ℤ) (trace : KiekerTrace)
    (registry : TraceRegistry) : TraceRegistry :=
  if (change trace).stack = bound then (registry.assign address change).traceRemove address
  else registry.assign address change

variable {trace other : KiekerTrace} {bound : ℤ}

theorem WellFormed.entering (wellFormed : registry.WellFormed) (keeps : KeepsIdentity change) :
    (registry.entering kernel self change).WellFormed :=
  wellFormed.traceGet.assign _ keeps

theorem WellFormed.leaving (wellFormed : registry.WellFormed) (keeps : KeepsIdentity change) :
    (registry.leaving trace.address change bound trace).WellFormed := by
  unfold TraceRegistry.leaving
  split
  · exact (wellFormed.assign _ keeps).traceRemove
  · exact wellFormed.assign _ keeps

/-- Entering changes the current trace of the thread and leaves the others as they are. -/
theorem mem_entering (wellFormed : registry.WellFormed) :
    other ∈ (registry.entering kernel self change).traces ↔
      other = change (registry.current kernel self) ∨
        other ∈ registry.traces ∧ other.address ≠ (registry.current kernel self).address := by
  have currentMem : registry.current kernel self ∈ (registry.traceGet kernel self).2.traces :=
    mem_traceGet.mpr (Or.inr rfl)
  rw [TraceRegistry.entering, mem_assign]
  constructor
  · rintro ⟨old, oldMem, rfl⟩
    by_cases same : old.address = (registry.current kernel self).address
    · rw [if_pos same, wellFormed.traceGet.eq_of_address oldMem currentMem same]
      exact Or.inl rfl
    · rw [if_neg same]
      rcases mem_traceGet.mp oldMem with inMap | rfl
      · exact Or.inr ⟨inMap, same⟩
      · exact absurd rfl same
  · rintro (rfl | ⟨inMap, different⟩)
    · exact ⟨_, currentMem, (if_pos rfl).symm⟩
    · exact ⟨other, mem_traceGet.mpr (Or.inl inMap), (if_neg different).symm⟩

theorem mem_leaving (wellFormed : registry.WellFormed) (keeps : KeepsIdentity change)
    (inMap : trace ∈ registry.traces) :
    other ∈ (registry.leaving trace.address change bound trace).traces ↔
      other = change trace ∧ (change trace).stack ≠ bound ∨
        other ∈ registry.traces ∧ other.address ≠ trace.address := by
  have assigned : other ∈ (registry.assign trace.address change).traces ↔
      other = change trace ∨ other ∈ registry.traces ∧ other.address ≠ trace.address := by
    rw [mem_assign]
    constructor
    · rintro ⟨old, oldMem, rfl⟩
      by_cases same : old.address = trace.address
      · rw [if_pos same, wellFormed.eq_of_address oldMem inMap same]
        exact Or.inl rfl
      · rw [if_neg same]
        exact Or.inr ⟨oldMem, same⟩
    · rintro (rfl | ⟨otherMem, different⟩)
      · exact ⟨trace, inMap, (if_pos rfl).symm⟩
      · exact ⟨other, otherMem, (if_neg different).symm⟩
  unfold TraceRegistry.leaving
  by_cases removed : (change trace).stack = bound
  · rw [if_pos removed, mem_traceRemove, assigned]
    constructor
    · rintro ⟨rfl | kept, different⟩
      · exact absurd (keeps.address trace) different
      · exact Or.inr kept
    · rintro (⟨-, stays⟩ | kept)
      · exact absurd removed stays
      · exact ⟨Or.inr kept, kept.2⟩
  · rw [if_neg removed, assigned]
    simp only [removed, ne_eq, not_false_eq_true, and_true]

theorem currentId_entering_of_none (missing : registry.traceFind (threadIdOf self) = none) :
    (registry.entering kernel self change).currentId = registry.currentId + 1 := by
  rw [TraceRegistry.entering, currentId_assign, traceGet_of_none missing]

theorem currentId_entering_of_some (found : registry.traceFind (threadIdOf self) = some trace) :
    (registry.entering kernel self change).currentId = registry.currentId := by
  rw [TraceRegistry.entering, currentId_assign, (traceGet_of_some kernel found).1]

theorem currentId_leaving : (registry.leaving trace.address change bound trace).currentId =
    registry.currentId := by
  unfold leaving
  split <;> rfl

theorem leaving_of_ne (above : (change trace).stack ≠ bound) :
    registry.leaving trace.address change bound trace =
      registry.assign trace.address change := if_neg above

/-- Every trace is still there, whatever became of its counters. -/
def Retains (before after : TraceRegistry) : Prop :=
  ∀ trace ∈ before.traces, ∃ later ∈ after.traces, later.address = trace.address ∧
    later.threadId = trace.threadId ∧ later.traceId = trace.traceId

namespace Retains

variable {before middle after : TraceRegistry}

theorem refl (registry : TraceRegistry) : registry.Retains registry :=
  fun trace inMap => ⟨trace, inMap, rfl, rfl, rfl⟩

theorem trans (first : before.Retains middle) (second : middle.Retains after) :
    before.Retains after := by
  intro trace inMap
  rcases first trace inMap with ⟨between, betweenInMap, address, threadId, traceId⟩
  rcases second between betweenInMap with ⟨later, laterInMap, address', threadId', traceId'⟩
  exact ⟨later, laterInMap, address'.trans address, threadId'.trans threadId,
    traceId'.trans traceId⟩

theorem entering (wellFormed : registry.WellFormed) (keeps : KeepsIdentity change) :
    registry.Retains (registry.entering kernel self change) := by
  intro trace inMap
  by_cases same : trace.address = (registry.current kernel self).address
  · have isCurrent : trace = registry.current kernel self :=
      wellFormed.traceGet.eq_of_address (mem_traceGet.mpr (Or.inl inMap))
        (mem_traceGet.mpr (Or.inr rfl)) same
    subst isCurrent
    exact ⟨_, (mem_entering wellFormed).mpr (Or.inl rfl), keeps.address _, keeps.threadId _,
      keeps.traceId _⟩
  · exact ⟨trace, (mem_entering wellFormed).mpr (Or.inr ⟨inMap, same⟩), rfl, rfl, rfl⟩

theorem assign (keeps : KeepsIdentity change) (address : ℕ) :
    registry.Retains (registry.assign address change) := by
  intro trace inMap
  by_cases same : trace.address = address
  · subst same
    exact ⟨_, mem_assign_self change inMap, keeps.address _, keeps.threadId _, keeps.traceId _⟩
  · exact ⟨trace, mem_assign_other inMap same, rfl, rfl, rfl⟩

theorem leaving (keeps : KeepsIdentity change) (above : (change trace).stack ≠ bound) :
    registry.Retains (registry.leaving trace.address change bound trace) := by
  rw [leaving_of_ne above]
  exact assign keeps trace.address

end Retains

end TraceRegistry

variable {kernel : Kernel} {self : PthreadSelf} {library after : Library} {known : List CString}
  {hostname classSignature operationSignature : CString}

/-- After a probe call the library is ready for the next one. -/
theorem Library.Calls.idle {registry : TraceRegistry} {emission : Emission}
    (called : library.Calls kernel after known registry emission)
    (idle : library.Idle known hostname) (wellFormed : registry.WellFormed) :
    after.Idle (Interning.internAll known emission.strings) hostname where
  ready := called.emits.ready
  named := by rw [called.emits.localHostname, idle.named]
  wellFormed := by
    rw [called.registry]
    exact wellFormed

/-- What `kieker_probe_before_operation_event` emits. -/
def beforeEmission (kernel : Kernel) (hostname : CString) (self : PthreadSelf)
    (classSignature operationSignature : CString) (library : Library) : Emission :=
  let trace := library.registry.current kernel self
  let reading := library.channel.world.clockReads
  let opening := openingLogged kernel hostname reading trace
  { built := opening ++
      [beforeLogged kernel (reading + Logged.clockReadsAll opening) trace.enter classSignature
        operationSignature]
    isSent := true }

/-- What `kieker_probe_after_operation_event` emits. -/
def afterEmission (kernel : Kernel) (self : PthreadSelf)
    (classSignature operationSignature : CString) (library : Library) : Emission :=
  { built := [afterLogged kernel library.channel.world.clockReads
      (library.registry.current kernel self).leave classSignature operationSignature]
    isSent := true }

theorem probeBeforeOperationEvent_eq_some (idle : library.Idle known hostname)
    (done : probeBeforeOperationEvent kernel self classSignature operationSignature library =
      some after) :
    library.Calls kernel after known (library.registry.entering kernel self KiekerTrace.enter)
      (beforeEmission kernel hostname self classSignature operationSignature library) := by
  simp only [probeBeforeOperationEvent, TraceRegistry.traceGet_fst,
    idle.wellFormed.deref_traceGet, idle.wellFormed.deref_current TraceRegistry.keepsIdentity_enter,
    Option.bind_eq_bind, Option.bind_some, Option.bind_eq_some_iff, Option.some.injEq] at done
  rcases done with ⟨⟨first, middle⟩, opened, ⟨position, built⟩, created, sent, sends, rfl⟩
  have opening := probeOpenTrace_eq_some idle.ready idle.named opened
  have event := probeCreateBeforeOperationEvent_eq_some opening.2.2.serves created
  have joined := opening.trans event
  rw [opening.2.1] at joined
  exact ⟨rfl, rfl, joined.emits idle.ready sends⟩

theorem probeBeforeOperationEvent_isSome (kernel : Kernel) (self : PthreadSelf)
    (idle : library.Idle known hostname) (hostnameFits : hostname.Fits) (classFits : classSignature.Fits)
    (operationFits : operationSignature.Fits) :
    ∃ after, probeBeforeOperationEvent kernel self classSignature operationSignature library =
      some after := by
  obtain ⟨⟨first, middle⟩, opened⟩ := probeOpenTrace_isSome kernel
    (library.registry.current kernel self) idle.ready idle.named hostnameFits
  have opening := probeOpenTrace_eq_some idle.ready idle.named opened
  have narrow := widthAll_openingLogged_le kernel hostname library.channel.world.clockReads
    (library.registry.current kernel self)
  have firstEq := opening.1
  obtain ⟨⟨position, built⟩, created⟩ := probeCreateBeforeOperationEvent_isSome kernel first
    (library.registry.current kernel self).enter
    (opening.2.2.ready idle.ready) classFits operationFits (by omega)
  obtain ⟨sent, sends⟩ := (opening.trans
    (probeCreateBeforeOperationEvent_eq_some opening.2.2.serves created)).sends
  simp [probeBeforeOperationEvent, TraceRegistry.traceGet_fst, idle.wellFormed.deref_traceGet,
    idle.wellFormed.deref_current TraceRegistry.keepsIdentity_enter, opened, created, sends]

theorem probeAfterOperationEvent_eq_some (idle : library.Idle known hostname)
    (done : probeAfterOperationEvent kernel self classSignature operationSignature library =
      some after) :
    library.Calls kernel after known
      ((library.registry.traceGet kernel self).2.leaving
        (library.registry.current kernel self).address KiekerTrace.leave 0
        (library.registry.current kernel self))
      (afterEmission kernel self classSignature operationSignature library) := by
  simp only [probeAfterOperationEvent, TraceRegistry.traceGet_fst,
    idle.wellFormed.deref_current TraceRegistry.keepsIdentity_leave, Option.bind_eq_bind,
    Option.bind_some, Option.bind_eq_some_iff, Option.some.injEq] at done
  rcases done with ⟨⟨position, built⟩, created, sent, sends, rfl⟩
  have event := probeCreateAfterOperationEvent_eq_some idle.ready.toServes created
  exact ⟨rfl, rfl, event.emits idle.ready sends⟩

theorem probeAfterOperationEvent_isSome (kernel : Kernel) (self : PthreadSelf)
    (idle : library.Idle known hostname) (classFits : classSignature.Fits)
    (operationFits : operationSignature.Fits) :
    ∃ after, probeAfterOperationEvent kernel self classSignature operationSignature library =
      some after := by
  obtain ⟨⟨position, built⟩, created⟩ := probeCreateAfterOperationEvent_isSome kernel 0
    (library.registry.current kernel self).leave
    idle.ready classFits operationFits (by omega)
  obtain ⟨sent, sends⟩ :=
    (probeCreateAfterOperationEvent_eq_some idle.ready.toServes created).sends
  simp [probeAfterOperationEvent, TraceRegistry.traceGet_fst,
    idle.wellFormed.deref_current TraceRegistry.keepsIdentity_leave, created, sends]

end Kieker
