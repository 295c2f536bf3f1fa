import Kieker.Connection.Failures
import Kieker.Library.NumberRange
import Kieker.Library.Steps
import Kieker.Trace.Registry

/-!
# Trace ids

Every `kieker_trace_init` puts `kieker_trace_current_id` back to a number that
depends on the second it runs in, and every created trace takes the next number
from there. So the trace ids of a run are ranges of consecutive numbers, one for
each time the counter is put back, and they are unique exactly if the ranges are
pairwise apart.
-/

namespace Kieker

/-- A call that concerns trace ids. -/
inductive TraceCall where
  | initialization (startUp : StartUp)
  | finalization
  /-- `kieker_trace_get` by the thread `self`. -/
  | get (self : PthreadSelf)
  /-- `kieker_trace_remove` of the trace at an address. -/
  | remove (address : ℕ)

/-- What a call does. Only a trace in the map can be removed. -/
def TraceCall.run (kernel : Kernel) (library : Library) : TraceCall → Option Library
  | .initialization startUp => controllerInitialize kernel startUp library
  | .finalization => some { library with channel := controllerFinalize library.channel }
  | .get self => some { library with registry := (library.registry.traceGet kernel self).2 }
  | .remove address => do
      let _ ← library.registry.deref address
      some { library with registry := library.registry.traceRemove address }

/-- What `kieker_trace_init` puts into `kieker_trace_current_id`. -/
def StartUp.firstId (kernel : Kernel) (startUp : StartUp) : ℤ :=
  kernel.rand startUp.time % 1000000000 * 2 ^ 8

/-- An initialisation gets as far as `kieker_trace_init`, which succeeds. -/
def StartUp.Reseeds (startUp : StartUp) (library : Library) : Prop :=
  library.channel.controller.initState = .unconfigured ∧ startUp.gethostname.isSome ∧
    startUp.rwlockInit = 0

instance (startUp : StartUp) (library : Library) : Decidable (startUp.Reseeds library) :=
  inferInstanceAs (Decidable (_ ∧ _ ∧ _))

/-- A state of the library, with the trace ids that were given out on the way to it. -/
structure TraceHistory where
  library : Library
  /-- The trace ids of all traces created so far, in order. -/
  issued : List ℤ
  /-- The numbers used between two times that the counter was put back. -/
  earlier : List NumberRange
  /-- The numbers used since the counter was put back last. -/
  current : NumberRange

namespace TraceHistory

variable {kernel : Kernel} {library : Library} {history after : TraceHistory}
  {call : TraceCall} {calls : List TraceCall}

/-- When the library is loaded. -/
def loaded (filter : AdaptiveFilter) : TraceHistory where
  library := .loaded filter
  issued := []
  earlier := []
  current := ⟨0, 0⟩

/-- All ranges of numbers used so far. -/
def ranges (history : TraceHistory) : List NumberRange :=
  history.earlier ++ [history.current]

/-- The history after a call that led to `library`. -/
def record (kernel : Kernel) (history : TraceHistory) (call : TraceCall) (library : Library) :
    TraceHistory :=
  match call with
  | .initialization startUp =>
      if startUp.Reseeds history.library then
        { history with
          library := library
          earlier := history.ranges
          current := ⟨startUp.firstId kernel, 0⟩ }
      else { history with library := library }
  | .get self =>
      if history.library.registry.traceFind (threadIdOf self) = none then
        { history with
          library := library
          issued := history.issued ++ [(history.library.registry.current kernel self).traceId]
          current := history.current.grow }
      else { history with library := library }
  | .finalization | .remove _ => { history with library := library }

/-- A call and its history. -/
def step (kernel : Kernel) (history : TraceHistory) (call : TraceCall) : Option TraceHistory :=
  (call.run kernel history.library).map (history.record kernel call)

/-- Calls one after another, and their history. -/
def run (kernel : Kernel) (history : TraceHistory) (calls : List TraceCall) :
    Option TraceHistory :=
  calls.foldlM (step kernel) history

/-- The counter stands behind the current range, and the ranges are what was given out. -/
structure Consistent (history : TraceHistory) : Prop where
  currentId : history.library.registry.currentId = history.current.first + history.current.count
  issued : history.issued = history.ranges.flatMap NumberRange.numbers

/-! ### One call -/

theorem consistent_loaded (filter : AdaptiveFilter) : (loaded filter).Consistent where
  currentId := rfl
  issued := rfl

/-- An initialisation touches the trace map only in `kieker_trace_init`. -/
theorem registry_of_initialize {startUp : StartUp} {result : Library}
    (done : controllerInitialize kernel startUp library = some result) :
    result.registry =
      if startUp.Reseeds library then
        { library.registry with currentId := startUp.firstId kernel }
      else library.registry := by
  unfold controllerInitialize at done
  by_cases unconfigured : library.channel.controller.initState = .unconfigured
  · rw [if_pos unconfigured] at done
    cases named : startUp.gethostname with
    | none =>
        simp only [controllerObtainLocalHostname, named, Bool.false_eq_true, if_false,
          Option.some.injEq] at done
        simp [← done, StartUp.Reseeds, named]
    | some hostname =>
        by_cases rwlockInit : startUp.rwlockInit = 0
        · simp only [controllerObtainLocalHostname, named, TraceRegistry.traceInit, rwlockInit,
            ne_eq, not_true_eq_false, if_false, if_true, Option.bind_eq_bind,
            Option.bind_eq_some_iff, Option.some.injEq] at done
          rcases done with ⟨channel, -, rfl⟩
          simp [StartUp.Reseeds, StartUp.firstId, unconfigured, named, rwlockInit]
        · simp only [controllerObtainLocalHostname, named, TraceRegistry.traceInit, rwlockInit,
            ne_eq, not_false_eq_true, if_false, if_true, Bool.false_eq_true,
            Option.some.injEq] at done
          simp [← done, StartUp.Reseeds, rwlockInit]
  · rw [if_neg unconfigured, Option.some.injEq] at done
    simp [← done, StartUp.Reseeds, unconfigured]

theorem Consistent.initialization {startUp : StartUp} {result : Library}
    (consistent : history.Consistent)
    (done : controllerInitialize kernel startUp history.library = some result) :
    (history.record kernel (.initialization startUp) result).Consistent := by
  have registry := registry_of_initialize done
  by_cases reseeds : startUp.Reseeds history.library
  · rw [if_pos reseeds] at registry
    simp only [record, if_pos reseeds]
    constructor
    · simp [registry]
    · simp [consistent.issued, ranges, NumberRange.numbers]
  · rw [if_neg reseeds] at registry
    simp only [record, if_neg reseeds]
    constructor
    · simpa [registry] using consistent.currentId
    · exact consistent.issued

theorem Consistent.get {self : PthreadSelf} (consistent : history.Consistent) :
    (history.record kernel (.get self) { history.library with
      registry := (history.library.registry.traceGet kernel self).2 }).Consistent := by
  cases found : history.library.registry.traceFind (threadIdOf self) with
  | none =>
      simp only [record, found, if_true]
      constructor
      · simp only [TraceRegistry.traceGet_of_none found, consistent.currentId, NumberRange.grow]
        push_cast
        ring
      · simp only [TraceRegistry.current, found, TraceRegistry.traceCreate, consistent.issued,
          consistent.currentId, ranges, List.flatMap_append, List.flatMap_singleton,
          NumberRange.numbers_grow, List.append_assoc]
  | some trace =>
      simp only [record, found, reduceCtorEq, if_false,
        (TraceRegistry.traceGet_of_some kernel found).1]
      exact consistent

theorem Consistent.step (consistent : history.Consistent)
    (done : history.step kernel call = some after) : after.Consistent := by
  rcases Option.map_eq_some_iff.mp done with ⟨result, ran, rfl⟩
  cases call with
  | initialization startUp => exact consistent.initialization ran
  | finalization =>
      cases ran
      exact ⟨consistent.currentId, consistent.issued⟩
  | get self =>
      cases ran
      exact consistent.get
  | remove address =>
      simp only [TraceCall.run, Option.bind_eq_bind, Option.bind_eq_some_iff,
        Option.some.injEq] at ran
      rcases ran with ⟨trace, -, rfl⟩
      exact ⟨consistent.currentId, consistent.issued⟩

/-! ### Runs -/

theorem consistent_of_run {filter : AdaptiveFilter}
    (done : (loaded filter).run kernel calls = some history) : history.Consistent := by
  refine (Steps.of_foldlM done).invariant ?_ (consistent_loaded filter)
  intro before call after consistent done
  exact consistent.step done

/-- A thread without a trace gets the number that the counter stands at. -/
theorem step_get_of_missing (kernel : Kernel) (history : TraceHistory) {self : PthreadSelf}
    (missing : ∀ trace ∈ history.library.registry.traces, trace.threadId ≠ threadIdOf self) :
    ∃ after, history.step kernel (.get self) = some after ∧
      after.issued = history.issued ++ [history.library.registry.currentId] ∧
      after.library.channel = history.library.channel ∧
      ∀ trace ∈ after.library.registry.traces,
        trace ∈ history.library.registry.traces ∨ trace.threadId = threadIdOf self := by
  have notFound : history.library.registry.traceFind (threadIdOf self) = none := by
    rw [TraceRegistry.traceFind, List.find?_eq_none]
    simpa using missing
  refine ⟨_, rfl, ?_, ?_, ?_⟩
  · simp [record, notFound, TraceRegistry.current_of_notMem missing, TraceRegistry.traceCreate]
  · simp [record, notFound]
  · simp only [record, notFound, if_true]
    intro trace inMap
    rcases TraceRegistry.mem_traceGet.mp inMap with old | rfl
    · exact Or.inl old
    · exact Or.inr TraceRegistry.threadId_current

/-- On a system on which everything succeeds the counter is put back. -/
theorem step_initialization_smooth (history : TraceHistory) {known : List CString}
    (holds : history.library.channel.lookup.Holds known)
    (unconfigured : history.library.channel.controller.initState = .unconfigured) :
    ∃ after, history.step Kernel.accepting (.initialization .smooth) = some after ∧
      after.issued = history.issued ∧
      after.library.registry = { history.library.registry with
        currentId := StartUp.smooth.firstId Kernel.accepting } ∧
      (∃ known, after.library.channel.lookup.Holds known) ∧
      after.library.channel.controller.initState = .unconfigured := by
  rcases controllerInitialize_of_unconfigured Kernel.accepting StartUp.smooth history.library
    holds unconfigured rfl rfl with ⟨library, done, initializes⟩
  have reseeds : StartUp.smooth.Reseeds history.library := ⟨unconfigured, rfl, rfl⟩
  refine ⟨history.record Kernel.accepting (.initialization .smooth) library, ?_, ?_⟩
  · rw [step, TraceCall.run, done]
    rfl
  · simp only [record, if_pos reseeds]
    refine ⟨trivial, initializes.registry, ⟨_, initializes.ready.holds⟩, ?_⟩
    exact initializes.initState_of_accepting.trans unconfigured

end TraceHistory

/--
In every run, no two traces get the same trace id exactly if the ranges of
numbers between the successive calls of `kieker_trace_init` are pairwise apart.
-/
theorem trace_ids_unique_iff {kernel : Kernel} {filter : AdaptiveFilter} {calls : List TraceCall}
    {history : TraceHistory} (done : (TraceHistory.loaded filter).run kernel calls = some history) :
    history.issued.Nodup ↔ history.ranges.Pairwise NumberRange.Apart := by
  rw [(TraceHistory.consistent_of_run done).issued]
  exact NumberRange.nodup_flatMap_numbers_iff

/-- A system on which `rand` returns different numbers for different seeds. -/
def Kernel.seeded : Kernel :=
  { Kernel.accepting with
    rand := fun seed => seed.natAbs
    rand_nonneg := fun _ => Int.natCast_nonneg _ }

/-- The library is initialised in two different seconds, and threads get traces after each. -/
def differentSeconds : List TraceCall :=
  [.initialization { StartUp.smooth with time := 1 }, .get 1, .get 2, .remove 0, .get 1,
    .initialization { StartUp.smooth with time := 2 }, .get 3, .get 4]

theorem trace_ids_unique_in_different_seconds :
    ∃ history, (TraceHistory.loaded .initial).run Kernel.seeded differentSeconds = some history ∧
      history.issued = [256, 257, 258, 512, 513] ∧ history.issued.Nodup := by
  have reached : ((TraceHistory.loaded .initial).run Kernel.seeded differentSeconds).map
      (fun history => (history.issued, history.ranges)) =
      some ([256, 257, 258, 512, 513], [⟨0, 0⟩, ⟨256, 3⟩, ⟨512, 2⟩]) := by
    decide +kernel
  rcases Option.map_eq_some_iff.mp reached with ⟨history, done, parts⟩
  have ranges : history.ranges = [⟨0, 0⟩, ⟨256, 3⟩, ⟨512, 2⟩] := congrArg Prod.snd parts
  refine ⟨history, done, congrArg Prod.fst parts, (trace_ids_unique_iff done).mpr ?_⟩
  rw [ranges]
  decide

/-- The library is initialised again in the second in which it was initialised before. -/
def sameSecond : List TraceCall :=
  [.initialization .smooth, .get 1, .initialization .smooth, .get 2]

/-- Then two threads have traces with the same trace id. -/
theorem same_second_same_trace_id :
    ∃ history, (TraceHistory.loaded .initial).run Kernel.accepting sameSecond = some history ∧
      ¬history.issued.Nodup := by
  rcases (TraceHistory.loaded .initial).step_initialization_smooth LookupTable.holds_initial rfl
    with ⟨first, initialized, issued, registry, ⟨known, holds⟩, unconfigured⟩
  have noTrace : ∀ trace ∈ first.library.registry.traces, trace.threadId ≠ threadIdOf 1 := by
    simp [registry, TraceHistory.loaded, Library.loaded, Library.initial, TraceRegistry.initial]
  rcases first.step_get_of_missing Kernel.accepting noTrace with
    ⟨second, got, secondIssued, channel, traces⟩
  rw [← channel] at holds unconfigured
  rcases second.step_initialization_smooth holds unconfigured with
    ⟨third, again, thirdIssued, thirdRegistry, -, -⟩
  have noOtherTrace : ∀ trace ∈ third.library.registry.traces, trace.threadId ≠ threadIdOf 2 := by
    intro trace inMap
    rw [thirdRegistry] at inMap
    rcases traces trace inMap with old | mine
    · simp [registry, TraceHistory.loaded, Library.loaded, Library.initial,
        TraceRegistry.initial] at old
    · simp [mine, threadIdOf, toInt32]
  rcases third.step_get_of_missing Kernel.accepting noOtherTrace with
    ⟨fourth, gotOther, fourthIssued, -, -⟩
  refine ⟨fourth, ?_, ?_⟩
  · simp only [TraceHistory.run, sameSecond, List.foldlM_cons, List.foldlM_nil, initialized, got,
      again, gotOther, Option.bind_eq_bind, Option.bind_some, Option.pure_def]
  · simp [fourthIssued, issued, thirdIssued, secondIssued, registry, thirdRegistry,
      TraceHistory.loaded]

end Kieker
