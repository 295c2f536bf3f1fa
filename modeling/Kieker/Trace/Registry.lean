import Kieker.Model.Trace
import Mathlib.Data.List.Nodup
import Mathlib.Tactic.Linarith

/-!
# The trace map

The map holds at most one trace for each thread id, and a pointer leads to at
most one trace. Under this invariant a trace is found by its thread id exactly if
it is in the map, and the assignments of the probes act on one trace only.
-/

namespace Kieker

namespace TraceRegistry

/--
Traces in the map have different addresses, which were all allocated, and different
thread ids.
-/
structure WellFormed (registry : TraceRegistry) : Prop where
  addresses : (registry.traces.map KiekerTrace.address).Nodup
  threads : (registry.traces.map KiekerTrace.threadId).Nodup
  allocated : ∀ trace ∈ registry.traces, trace.address < registry.allocated

/-- A change of a trace that keeps what identifies it. -/
structure KeepsIdentity (change : KiekerTrace → KiekerTrace) : Prop where
  address : ∀ trace, (change trace).address = trace.address
  threadId : ∀ trace, (change trace).threadId = trace.threadId
  traceId : ∀ trace, (change trace).traceId = trace.traceId

/-- The trace that `kieker_trace_get` finds or creates for a thread. -/
def current (kernel : Kernel) (self : PthreadSelf) (registry : TraceRegistry) : KiekerTrace :=
  match registry.traceFind (threadIdOf self) with
  | some data => data
  | none => traceCreate kernel registry.allocated (threadIdOf self) registry.currentId

variable {kernel : Kernel} {self : PthreadSelf} {registry : TraceRegistry}
  {trace other : KiekerTrace} {change : KiekerTrace → KiekerTrace} {address : ℕ}

/-! ### Lookups -/

theorem wellFormed_initial : TraceRegistry.initial.WellFormed where
  addresses := List.nodup_nil
  threads := List.nodup_nil
  allocated := by simp [TraceRegistry.initial]

theorem mem_of_traceFind {threadId : ℤ} (found : registry.traceFind threadId = some trace) :
    trace ∈ registry.traces ∧ trace.threadId = threadId :=
  ⟨List.mem_of_find?_eq_some found, by simpa using List.find?_some found⟩

theorem threadId_ne_of_traceFind {threadId : ℤ} (missing : registry.traceFind threadId = none)
    (inMap : trace ∈ registry.traces) : trace.threadId ≠ threadId := by
  simpa using List.find?_eq_none.mp missing trace inMap

theorem mem_of_deref (found : registry.deref address = some trace) :
    trace ∈ registry.traces ∧ trace.address = address :=
  ⟨List.mem_of_find?_eq_some found, by simpa using List.find?_some found⟩

namespace WellFormed

theorem eq_of_address (wellFormed : registry.WellFormed) (inMap : trace ∈ registry.traces)
    (otherInMap : other ∈ registry.traces) (same : trace.address = other.address) :
    trace = other :=
  List.inj_on_of_nodup_map wellFormed.addresses inMap otherInMap same

theorem eq_of_threadId (wellFormed : registry.WellFormed) (inMap : trace ∈ registry.traces)
    (otherInMap : other ∈ registry.traces) (same : trace.threadId = other.threadId) :
    trace = other :=
  List.inj_on_of_nodup_map wellFormed.threads inMap otherInMap same

theorem traceFind_of_mem (wellFormed : registry.WellFormed) (inMap : trace ∈ registry.traces) :
    registry.traceFind trace.threadId = some trace := by
  cases found : registry.traceFind trace.threadId with
  | none => exact absurd rfl (threadId_ne_of_traceFind found inMap)
  | some other =>
      rcases mem_of_traceFind found with ⟨otherInMap, same⟩
      rw [wellFormed.eq_of_threadId inMap otherInMap same.symm]

theorem deref_of_mem (wellFormed : registry.WellFormed) (inMap : trace ∈ registry.traces) :
    registry.deref trace.address = some trace := by
  cases found : registry.deref trace.address with
  | none => simpa using List.find?_eq_none.mp found trace inMap
  | some other =>
      rcases mem_of_deref found with ⟨otherInMap, same⟩
      rw [wellFormed.eq_of_address inMap otherInMap same.symm]

end WellFormed

/-! ### Assignments -/

theorem mem_assign : trace ∈ (registry.assign address change).traces ↔
    ∃ old ∈ registry.traces, trace = if old.address = address then change old else old := by
  simp only [assign, List.mem_map, eq_comm]

@[simp]
theorem currentId_assign : (registry.assign address change).currentId = registry.currentId := rfl

@[simp]
theorem allocated_assign : (registry.assign address change).allocated = registry.allocated := rfl

theorem mem_assign_self (change : KiekerTrace → KiekerTrace) (inMap : trace ∈ registry.traces) :
    change trace ∈ (registry.assign trace.address change).traces :=
  mem_assign.mpr ⟨trace, inMap, (if_pos rfl).symm⟩

theorem mem_assign_other (inMap : other ∈ registry.traces) (different : other.address ≠ address) :
    other ∈ (registry.assign address change).traces :=
  mem_assign.mpr ⟨other, inMap, (if_neg different).symm⟩

theorem map_assign {Key : Type} (key : KiekerTrace → Key)
    (kept : ∀ trace, key (change trace) = key trace) :
    (registry.assign address change).traces.map key = registry.traces.map key := by
  rw [assign, List.map_map]
  apply List.map_congr_left
  intro trace _
  by_cases same : trace.address = address <;> simp [same, kept]

theorem WellFormed.assign (wellFormed : registry.WellFormed) (address : ℕ)
    (keeps : KeepsIdentity change) : (registry.assign address change).WellFormed where
  addresses := by
    rw [map_assign KiekerTrace.address keeps.address]
    exact wellFormed.addresses
  threads := by
    rw [map_assign KiekerTrace.threadId keeps.threadId]
    exact wellFormed.threads
  allocated := by
    intro trace inMap
    rcases mem_assign.mp inMap with ⟨old, oldInMap, rfl⟩
    by_cases same : old.address = address
    · rw [if_pos same, keeps.address]
      exact wellFormed.allocated old oldInMap
    · rw [if_neg same]
      exact wellFormed.allocated old oldInMap

theorem WellFormed.deref_assign (wellFormed : registry.WellFormed) (keeps : KeepsIdentity change)
    (inMap : trace ∈ registry.traces) :
    (registry.assign trace.address change).deref trace.address = some (change trace) := by
  have found := (wellFormed.assign trace.address keeps).deref_of_mem
    (mem_assign_self change inMap)
  rwa [keeps.address] at found

theorem assign_assign {later : KiekerTrace → KiekerTrace} (keeps : KeepsIdentity change) :
    (registry.assign address change).assign address later =
      registry.assign address (later ∘ change) := by
  simp only [assign, List.map_map]
  congr 1
  apply List.map_congr_left
  intro trace _
  by_cases same : trace.address = address <;> simp [same, keeps.address]

/-! ### Removals -/

theorem mem_traceRemove : trace ∈ (registry.traceRemove address).traces ↔
    trace ∈ registry.traces ∧ trace.address ≠ address := by
  simp [traceRemove, traceDelete]

@[simp]
theorem currentId_traceRemove : (registry.traceRemove address).currentId = registry.currentId := rfl

theorem WellFormed.traceRemove (wellFormed : registry.WellFormed) :
    (registry.traceRemove address).WellFormed where
  addresses := wellFormed.addresses.sublist (List.filter_sublist.map _)
  threads := wellFormed.threads.sublist (List.filter_sublist.map _)
  allocated := fun trace inMap => wellFormed.allocated trace (mem_traceRemove.mp inMap).1

/-! ### `kieker_trace_get` -/

theorem traceGet_eq : registry.traceGet kernel self =
    ((registry.current kernel self).address,
      if (registry.traceFind (threadIdOf self)).isSome then registry
      else
        { traces := registry.current kernel self :: registry.traces
          currentId := registry.currentId + 1
          allocated := registry.allocated + 1 }) := by
  cases found : registry.traceFind (threadIdOf self) <;>
    simp [traceGet, current, found, traceGetNextId, traceCreate]

theorem traceGet_fst :
    (registry.traceGet kernel self).1 = (registry.current kernel self).address := by
  rw [traceGet_eq]

theorem traceGet_of_none (missing : registry.traceFind (threadIdOf self) = none) :
    (registry.traceGet kernel self).2 =
      { traces := registry.current kernel self :: registry.traces
        currentId := registry.currentId + 1
        allocated := registry.allocated + 1 } := by
  simp [traceGet_eq, missing]

theorem traceGet_of_some (kernel : Kernel)
    (found : registry.traceFind (threadIdOf self) = some trace) : (registry.traceGet kernel self).2 = registry ∧ registry.current kernel self = trace := by
  simp [traceGet_eq, current, found]

theorem threadId_current : (registry.current kernel self).threadId = threadIdOf self := by
  cases found : registry.traceFind (threadIdOf self) with
  | none => simp only [current, found, traceCreate]
  | some data =>
      simp only [current, found]
      exact (mem_of_traceFind found).2

/-- `kieker_trace_get` puts the current trace of the calling thread into the map, if it is not there. -/
theorem mem_traceGet : trace ∈ (registry.traceGet kernel self).2.traces ↔
    trace ∈ registry.traces ∨ trace = registry.current kernel self := by
  cases found : registry.traceFind (threadIdOf self) with
  | none =>
      simp only [traceGet_of_none found, List.mem_cons]
      exact or_comm
  | some data =>
      rcases traceGet_of_some kernel found with ⟨same, currentEq⟩
      rw [same, currentEq]
      constructor
      · exact Or.inl
      · rintro (inMap | rfl)
        · exact inMap
        · exact (mem_of_traceFind found).1

theorem WellFormed.traceGet (wellFormed : registry.WellFormed) :
    (registry.traceGet kernel self).2.WellFormed := by
  cases missing : registry.traceFind (threadIdOf self) with
  | some data =>
      rw [(traceGet_of_some kernel missing).1]
      exact wellFormed
  | none =>
      have created : registry.current kernel self =
          traceCreate kernel registry.allocated (threadIdOf self) registry.currentId := by
        simp only [current, missing]
      rw [traceGet_of_none missing, created]
      refine ⟨List.nodup_cons.mpr ⟨?_, wellFormed.addresses⟩,
        List.nodup_cons.mpr ⟨?_, wellFormed.threads⟩, ?_⟩
      · intro used
        rcases List.mem_map.mp used with ⟨trace, inMap, same⟩
        have below := wellFormed.allocated trace inMap
        rw [same] at below
        exact absurd below (lt_irrefl _)
      · intro used
        rcases List.mem_map.mp used with ⟨trace, inMap, same⟩
        exact threadId_ne_of_traceFind missing inMap same
      · intro trace inMap
        rcases List.mem_cons.mp inMap with rfl | old
        · exact Nat.lt_succ_self _
        · exact (wellFormed.allocated trace old).trans (Nat.lt_succ_self _)

theorem current_of_mem (wellFormed : registry.WellFormed) (inMap : trace ∈ registry.traces)
    (same : trace.threadId = threadIdOf self) : registry.current kernel self = trace := by
  have found := wellFormed.traceFind_of_mem inMap
  rw [same] at found
  simp only [current, found]

/-- A thread without a trace gets a new one, with the next trace id. -/
theorem current_of_notMem (missing : ∀ trace ∈ registry.traces, trace.threadId ≠ threadIdOf self) :
    registry.current kernel self =
      traceCreate kernel registry.allocated (threadIdOf self) registry.currentId := by
  have notFound : registry.traceFind (threadIdOf self) = none := by
    rw [traceFind, List.find?_eq_none]
    simpa using missing
  simp only [current, notFound]

end TraceRegistry

end Kieker
