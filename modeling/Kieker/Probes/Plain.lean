import Kieker.Model.Threads
import Kieker.Probes.Calls

/-!
# Plain probe calls in any order

The two plain probes as calls with their arguments, which any thread may make at
any time: an operation may be left that was never entered.
-/

namespace Kieker

namespace PlainCall

/-- The signatures that the call passes on. -/
def signatures : PlainCall → List CString
  | .before _ classSignature operationSignature => [classSignature, operationSignature]
  | .after _ classSignature operationSignature => [classSignature, operationSignature]

/-- What the call does. -/
def run (kernel : Kernel) (library : Library) : PlainCall → Option Library
  | .before self classSignature operationSignature =>
      probeBeforeOperationEvent kernel self classSignature operationSignature library
  | .after self classSignature operationSignature =>
      probeAfterOperationEvent kernel self classSignature operationSignature library

/-- Calls one after another. -/
def runAll (kernel : Kernel) (calls : List PlainCall) (library : Library) : Option Library :=
  calls.foldlM (run kernel) library

/-- The records that the call sends. -/
def emission (kernel : Kernel) (hostname : CString) (library : Library) : PlainCall → Emission
  | .before self classSignature operationSignature =>
      beforeEmission kernel hostname self classSignature operationSignature library
  | .after self classSignature operationSignature =>
      afterEmission kernel self classSignature operationSignature library

/-- The trace map that the call leaves behind. -/
def registry (kernel : Kernel) (registry : TraceRegistry) : PlainCall → TraceRegistry
  | .before self _ _ => registry.entering kernel self KiekerTrace.enter
  | .after self _ _ =>
      (registry.traceGet kernel self).2.leaving (registry.current kernel self).address
        KiekerTrace.leave 0 (registry.current kernel self)

variable {kernel : Kernel} {library after : Library} {known : List CString} {hostname : CString}
  {call : PlainCall}

theorem calls (idle : library.Idle known hostname) (done : call.run kernel library = some after) :
    library.Calls kernel after known (call.registry kernel library.registry)
      (call.emission kernel hostname library) := by
  cases call with
  | before self classSignature operationSignature =>
      exact probeBeforeOperationEvent_eq_some idle done
  | after self classSignature operationSignature =>
      exact probeAfterOperationEvent_eq_some idle done

theorem wellFormed_registry {registry : TraceRegistry} (wellFormed : registry.WellFormed) :
    (call.registry kernel registry).WellFormed := by
  cases call with
  | before self classSignature operationSignature =>
      exact wellFormed.entering TraceRegistry.keepsIdentity_enter
  | after self classSignature operationSignature =>
      exact wellFormed.traceGet.leaving TraceRegistry.keepsIdentity_leave

theorem idle (idle : library.Idle known hostname) (done : call.run kernel library = some after) :
    after.Idle (Interning.internAll known (call.emission kernel hostname library).strings)
      hostname :=
  (call.calls idle done).idle idle (wellFormed_registry idle.wellFormed)

theorem run_isSome (kernel : Kernel) (idle : library.Idle known hostname)
    (hostnameFits : hostname.Fits) (fits : ∀ signature ∈ call.signatures, signature.Fits) :
    ∃ after, call.run kernel library = some after := by
  cases call with
  | before self classSignature operationSignature =>
      exact probeBeforeOperationEvent_isSome kernel self idle hostnameFits
        (fits classSignature (by simp [signatures])) (fits operationSignature (by simp [signatures]))
  | after self classSignature operationSignature =>
      exact probeAfterOperationEvent_isSome kernel self idle
        (fits classSignature (by simp [signatures])) (fits operationSignature (by simp [signatures]))

theorem runAll_concat (kernel : Kernel) (calls : List PlainCall) (last : PlainCall)
    (library : Library) :
    runAll kernel (calls ++ [last]) library =
      (runAll kernel calls library).bind fun middle => last.run kernel middle := by
  rw [runAll, List.foldlM_append]
  congr 1
  funext middle
  simp

theorem runAll_isSome {calls : List PlainCall} (kernel : Kernel) (idle : library.Idle known hostname)
    (hostnameFits : hostname.Fits)
    (fits : ∀ call ∈ calls, ∀ signature ∈ call.signatures, signature.Fits) :
    ∃ final, runAll kernel calls library = some final := by
  induction calls generalizing library known with
  | nil => exact ⟨library, rfl⟩
  | cons call calls ih =>
      rcases call.run_isSome kernel idle hostnameFits (fits call List.mem_cons_self) with
        ⟨middle, done⟩
      rcases ih (call.idle idle done) fun other other_mem =>
        fits other (List.mem_cons_of_mem call other_mem) with ⟨final, ran⟩
      refine ⟨final, ?_⟩
      rw [runAll, List.foldlM_cons, done]
      exact ran

end PlainCall

end Kieker
