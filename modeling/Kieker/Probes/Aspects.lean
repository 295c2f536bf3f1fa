import Kieker.Probes.Calls

/-!
# What the aspect probes do

The event aspect asks the filter before it sends, but it counts every operation;
the controlflow aspect keeps its record in the application and sends it when the
operation is left. Both test the stack of a trace for `-1` at the end.
-/

namespace Kieker

variable {kernel : Kernel} {self : PthreadSelf} {library after : Library} {known : List CString}
  {hostname classSignature operationSignature : CString} {trace : KiekerTrace} {address : ℕ}

/-! ### The event aspect -/

/-- What `kieker_probe_aspect_event_before_operation` emits. -/
def aspectBeforeEmission (kernel : Kernel) (hostname : CString) (self : PthreadSelf)
    (classSignature operationSignature : CString) (library : Library) : Emission :=
  let trace := library.registry.current kernel self
  let reading := library.channel.world.clockReads
  let opening := openingLogged kernel hostname reading trace
  if library.filter.isClassExcluded classSignature then ⟨opening, false⟩
  else
    ⟨opening ++ [beforeLogged kernel (reading + Logged.clockReadsAll opening) trace.enter
      classSignature operationSignature], true⟩

/-- What `kieker_probe_aspect_event_after_operation` emits. -/
def aspectAfterEmission (kernel : Kernel) (trace : KiekerTrace)
    (classSignature operationSignature : CString) (library : Library) : Emission :=
  if library.filter.isClassExcluded classSignature then ⟨[], false⟩
  else
    ⟨[afterLogged kernel library.channel.world.clockReads trace classSignature
      operationSignature], true⟩

/-- The change of a trace when the aspect enters an operation. -/
def AdaptiveFilter.entry (filter : AdaptiveFilter) (classSignature : CString) :
    KiekerTrace → KiekerTrace :=
  if filter.isClassExcluded classSignature then KiekerTrace.push else KiekerTrace.enter

/-- The change of a trace when the aspect leaves an operation. -/
def AdaptiveFilter.exit (filter : AdaptiveFilter) (classSignature : CString) :
    KiekerTrace → KiekerTrace :=
  if filter.isClassExcluded classSignature then KiekerTrace.pop else KiekerTrace.leave

theorem AdaptiveFilter.keepsIdentity_entry (filter : AdaptiveFilter) (classSignature : CString) :
    TraceRegistry.KeepsIdentity (filter.entry classSignature) := by
  unfold AdaptiveFilter.entry
  split
  · exact TraceRegistry.keepsIdentity_push
  · exact TraceRegistry.keepsIdentity_enter

theorem AdaptiveFilter.keepsIdentity_exit (filter : AdaptiveFilter) (classSignature : CString) :
    TraceRegistry.KeepsIdentity (filter.exit classSignature) := by
  unfold AdaptiveFilter.exit
  split
  · exact TraceRegistry.keepsIdentity_pop
  · exact TraceRegistry.keepsIdentity_leave

@[simp]
theorem AdaptiveFilter.stack_entry (filter : AdaptiveFilter) (classSignature : CString)
    (trace : KiekerTrace) : (filter.entry classSignature trace).stack = trace.stack + 1 := by
  unfold AdaptiveFilter.entry
  split <;> rfl

@[simp]
theorem AdaptiveFilter.stack_exit (filter : AdaptiveFilter) (classSignature : CString)
    (trace : KiekerTrace) : (filter.exit classSignature trace).stack = trace.stack - 1 := by
  unfold AdaptiveFilter.exit
  split <;> rfl

theorem probeAspectEventBeforeOperation_eq_some (idle : library.Idle known hostname)
    (done : probeAspectEventBeforeOperation kernel self operationSignature classSignature library =
      some (address, after)) :
    address = (library.registry.current kernel self).address ∧
      library.Calls kernel after known
        (library.registry.entering kernel self (library.filter.entry classSignature))
        (aspectBeforeEmission kernel hostname self classSignature operationSignature library) := by
  unfold aspectBeforeEmission AdaptiveFilter.entry
  by_cases excluded : library.filter.isClassExcluded classSignature = true
  · simp only [probeAspectEventBeforeOperation, TraceRegistry.traceGet_fst,
      idle.wellFormed.deref_traceGet, excluded, reduceCtorEq, if_false, Option.bind_eq_bind,
      Option.bind_some, Option.bind_eq_some_iff, Option.some.injEq, Prod.mk.injEq] at done
    rcases done with ⟨⟨position, middle⟩, opened, rfl, rfl⟩
    rcases probeOpenTrace_eq_some idle.ready idle.named opened with ⟨-, reads, builds⟩
    rw [if_pos excluded, if_pos excluded]
    exact ⟨rfl, rfl, rfl, builds.emits_unsent idle.ready reads⟩
  · have entered : KiekerTrace.advance ∘ KiekerTrace.push = KiekerTrace.enter := rfl
    simp only [probeAspectEventBeforeOperation, TraceRegistry.traceGet_fst,
      idle.wellFormed.deref_traceGet, excluded, if_true, Option.bind_eq_bind,
      TraceRegistry.assign_assign TraceRegistry.keepsIdentity_push, entered,
      idle.wellFormed.deref_current TraceRegistry.keepsIdentity_enter, Option.bind_some,
      Option.bind_eq_some_iff, Option.some.injEq, Prod.mk.injEq] at done
    rcases done with ⟨⟨first, middle⟩, opened, ⟨position, built⟩, created, sent, sends, rfl, rfl⟩
    have opening := probeOpenTrace_eq_some idle.ready idle.named opened
    have event := probeCreateBeforeOperationEvent_eq_some opening.2.2.serves created
    have joined := opening.trans event
    rw [opening.2.1] at joined
    rw [if_neg excluded, if_neg excluded]
    exact ⟨rfl, rfl, rfl, joined.emits idle.ready sends⟩

theorem probeAspectEventBeforeOperation_isSome (kernel : Kernel) (self : PthreadSelf)
    (idle : library.Idle known hostname) (hostnameFits : hostname.Fits) (classFits : classSignature.Fits)
    (operationFits : operationSignature.Fits) :
    ∃ result, probeAspectEventBeforeOperation kernel self operationSignature classSignature
      library = some result := by
  obtain ⟨⟨first, middle⟩, opened⟩ := probeOpenTrace_isSome kernel
    (library.registry.current kernel self) idle.ready idle.named hostnameFits
  have opening := probeOpenTrace_eq_some idle.ready idle.named opened
  by_cases excluded : library.filter.isClassExcluded classSignature = true
  · simp [probeAspectEventBeforeOperation, TraceRegistry.traceGet_fst,
      idle.wellFormed.deref_traceGet, excluded, opened]
  · have entered : KiekerTrace.advance ∘ KiekerTrace.push = KiekerTrace.enter := rfl
    have narrow := widthAll_openingLogged_le kernel hostname library.channel.world.clockReads
      (library.registry.current kernel self)
    have firstEq := opening.1
    obtain ⟨⟨position, built⟩, created⟩ := probeCreateBeforeOperationEvent_isSome
      kernel first (library.registry.current kernel self).enter (opening.2.2.ready idle.ready)
      classFits operationFits (by omega)
    obtain ⟨sent, sends⟩ := (opening.trans
      (probeCreateBeforeOperationEvent_eq_some opening.2.2.serves created)).sends
    simp [probeAspectEventBeforeOperation, TraceRegistry.traceGet_fst,
      idle.wellFormed.deref_traceGet, excluded, opened,
      TraceRegistry.assign_assign TraceRegistry.keepsIdentity_push, entered,
      idle.wellFormed.deref_current TraceRegistry.keepsIdentity_enter, created, sends]

theorem probeAspectEventAfterOperation_eq_some (idle : library.Idle known hostname)
    (inMap : trace ∈ library.registry.traces)
    (done : probeAspectEventAfterOperation kernel trace.address operationSignature classSignature
      library = some after) :
    library.Calls kernel after known
      (library.registry.leaving trace.address (library.filter.exit classSignature) (-1) trace)
      (aspectAfterEmission kernel trace classSignature operationSignature library) := by
  unfold aspectAfterEmission AdaptiveFilter.exit
  by_cases excluded : library.filter.isClassExcluded classSignature = true
  · simp only [probeAspectEventAfterOperation, excluded, reduceCtorEq, if_false,
      idle.wellFormed.deref_assign TraceRegistry.keepsIdentity_pop inMap, Option.bind_eq_bind,
      Option.bind_some, Option.some.injEq] at done
    rw [if_pos excluded, if_pos excluded, ← done]
    exact ⟨rfl, rfl, .refl idle.ready⟩
  · have left : KiekerTrace.pop ∘ KiekerTrace.advance = KiekerTrace.leave := rfl
    simp only [probeAspectEventAfterOperation, excluded, if_true,
      idle.wellFormed.deref_of_mem inMap,
      TraceRegistry.assign_assign TraceRegistry.keepsIdentity_advance, left,
      idle.wellFormed.deref_assign TraceRegistry.keepsIdentity_leave inMap, Option.bind_eq_bind,
      Option.bind_some, Option.bind_eq_some_iff, Option.some.injEq] at done
    rcases done with ⟨⟨position, built⟩, created, sent, sends, rfl⟩
    have event := probeCreateAfterOperationEvent_eq_some idle.ready.toServes created
    rw [if_neg excluded, if_neg excluded]
    exact ⟨rfl, rfl, event.emits idle.ready sends⟩

theorem probeAspectEventAfterOperation_isSome (kernel : Kernel)
    (idle : library.Idle known hostname) (inMap : trace ∈ library.registry.traces)
    (classFits : classSignature.Fits)
    (operationFits : operationSignature.Fits) :
    ∃ result, probeAspectEventAfterOperation kernel trace.address operationSignature
      classSignature library = some result := by
  by_cases excluded : library.filter.isClassExcluded classSignature = true
  · simp [probeAspectEventAfterOperation, excluded,
      idle.wellFormed.deref_assign TraceRegistry.keepsIdentity_pop inMap]
  · have left : KiekerTrace.pop ∘ KiekerTrace.advance = KiekerTrace.leave := rfl
    obtain ⟨⟨position, built⟩, created⟩ := probeCreateAfterOperationEvent_isSome
      kernel 0 trace idle.ready classFits operationFits
      (by omega)
    obtain ⟨sent, sends⟩ :=
      (probeCreateAfterOperationEvent_eq_some idle.ready.toServes created).sends
    simp [probeAspectEventAfterOperation, excluded, idle.wellFormed.deref_of_mem inMap,
      TraceRegistry.assign_assign TraceRegistry.keepsIdentity_advance, left,
      idle.wellFormed.deref_assign TraceRegistry.keepsIdentity_leave inMap, created, sends]

end Kieker
