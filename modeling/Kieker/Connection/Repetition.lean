import Kieker.Connection.Announcing
import Kieker.Connection.Ownership

/-!
# A further initialisation

The guard of `kieker_controller_initialize` asks whether the controller is
`UNCONFIGURED`. An initialisation that succeeds leaves it so: `CONFIGURED` is
declared and never assigned. Only a controller that was given up, because the
exit function could not be set or a registry entry could not be written, stays as
it is when it is initialised again.
-/

namespace Kieker

variable {kernel : Kernel} {startUp again : StartUp} {start connected library : Library}
  {calls : List (PthreadSelf × ProbeCall)}

/-- A further initialisation does nothing at all. -/
def InitializesAgain (kernel : Kernel) (again : StartUp) (library : Library) : Prop :=
  controllerInitialize kernel again library = some library

/-- An initialisation that gets as far as connecting opens a socket or gives up. -/
theorem StartUp.opens_or_fails (startUp : StartUp) : startUp.openCalls ≠ [] ∨ startUp.Fails := by
  by_cases negative : startUp.socket < 0
  · right
    left
    rw [StartUp.socketResult, if_pos negative]
  · left
    rw [StartUp.openCalls, if_neg negative]
    split
    · simp
    · split <;> simp

/-- In any state, an initialisation does nothing exactly if the guard refuses it. -/
theorem initializesAgain_iff :
    InitializesAgain kernel again library ↔ library.channel.controller.initState ≠ .unconfigured := by
  constructor
  · intro same unconfigured
    by_cases early : again.gethostname = none ∨ again.rwlockInit ≠ 0
    · rcases controllerInitialize_of_early_failure kernel unconfigured early with
        ⟨after, done, failed, -⟩
      rw [same, Option.some.injEq] at done
      rw [← done, unconfigured] at failed
      cases failed
    · rw [not_or, not_not] at early
      rcases Option.ne_none_iff_exists'.mp early.1 with ⟨hostname, named⟩
      rcases controllerInitialize_writes unconfigured named early.2 same with
        ⟨-, initState, pieces, logEq, -⟩
      rw [Kernel.offerAll_eq_append, List.append_assoc, List.self_eq_append_right,
        List.append_eq_nil_iff] at logEq
      rw [unconfigured] at initState
      rcases again.opens_or_fails with opens | fails
      · exact opens (List.append_eq_nil_iff.mp logEq.1).1
      · rw [if_pos fails] at initState
        simp at initState
  · intro configured
    rw [InitializesAgain, controllerInitialize, if_neg configured]

/-- Probe calls never configure the controller, and give it up only if a write fails. -/
theorem onlyWrites_of_probes
    (run : Steps (fun before call after => ProbeCall.run kernel call.1 before call.2 = some after)
      connected calls library) :
    connected.channel.OnlyWrites kernel library.channel := by
  induction run with
  | nil => exact .refl _
  | snoc run last ih => exact ih.trans (ProbeCall.onlyWrites _ last)

/-- A run of probe calls, step by step, is one of the list of its calls. -/
theorem ProbeCall.runAll_of_steps
    (run : Steps (fun before call after => ProbeCall.run kernel call.1 before call.2 = some after)
      connected calls library) : ProbeCall.runAll kernel calls connected = some library := by
  induction run with
  | nil => rfl
  | snoc _ last ih => exact ProbeCall.runAll_concat ih last

/-- A write of a registry entry fails, in an initialisation from `start` or in calls after it. -/
def RegistryWriteFails (kernel : Kernel) (startUp : StartUp) (start connected : Library)
    (known : List CString) (calls : List (PthreadSelf × ProbeCall)) : Prop :=
  kernel.refuses startUp.socketResult
      (start.channel.world.log ++ (startUp.openCalls ++ startUp.closeCalls)).length
      (registryPieces known eventTypes) = true ∨
    ∃ announcement ∈ ProbeCall.announcementsAll kernel calls connected, announcement.result = -1

/-- The causes for which the controller is given up. -/
theorem failed_iff {known : List CString} (holds : start.channel.lookup.Holds known)
    (unconfigured : start.channel.controller.initState = .unconfigured)
    (named : startUp.gethostname ≠ none) (rwlockInit : startUp.rwlockInit = 0)
    (done : controllerInitialize kernel startUp start = some connected)
    (run : Steps (fun before call after => ProbeCall.run kernel call.1 before call.2 = some after)
      connected calls library) :
    library.channel.controller.initState = .failed ↔
      startUp.Fails ∨ RegistryWriteFails kernel startUp start connected known calls := by
  rcases Option.ne_none_iff_exists'.mp named with ⟨hostname, namedSome⟩
  rcases controllerInitialize_of_unconfigured kernel startUp start holds unconfigured namedSome
    rwlockInit with ⟨after, doneHere, initializes⟩
  have same := Option.some.inj (done.symm.trans doneHere)
  subst same
  rw [ProbeCall.runAll_failed_iff initializes.ready.toServes (ProbeCall.runAll_of_steps run),
    initializes.initState, unconfigured, RegistryWriteFails, ← or_assoc]
  by_cases fails : startUp.Fails <;> simp [fails]

/--
After an initialisation that connected, and after any probe calls, a further
initialisation does nothing exactly if the controller was given up meanwhile. If
the exit function was set and the socket accepts everything, it never was. It was
given up exactly if connecting or setting the exit function failed, or the write of
a registry entry.
-/
theorem initialize_again_does_nothing_iff
    (unconfigured : start.channel.controller.initState = .unconfigured)
    (named : startUp.gethostname ≠ none) (rwlockInit : startUp.rwlockInit = 0)
    (done : controllerInitialize kernel startUp start = some connected)
    (run : Steps (fun before call after => ProbeCall.run kernel call.1 before call.2 = some after)
      connected calls library) :
    (InitializesAgain kernel again library ↔
      library.channel.controller.initState = .failed) ∧
      (¬startUp.Fails → kernel.CompleteOn startUp.socketResult →
        ¬InitializesAgain kernel again library) ∧
      ∀ known, start.channel.lookup.Holds known →
        (library.channel.controller.initState = .failed ↔
          startUp.Fails ∨ RegistryWriteFails kernel startUp start connected known calls) := by
  rcases Option.ne_none_iff_exists'.mp named with ⟨hostname, namedSome⟩
  rcases controllerInitialize_writes unconfigured namedSome rwlockInit done with
    ⟨socket, connectedState, -⟩
  have writes := onlyWrites_of_probes run
  refine ⟨?_, ?_, fun known holds => failed_iff holds unconfigured named rwlockInit done run⟩
  · rw [initializesAgain_iff]
    constructor
    · intro guarded
      rcases writes.initState with same | ⟨failed, -⟩
      · rw [same] at guarded ⊢
        rcases connectedState with state | ⟨failed, -⟩
        · by_cases fails : startUp.Fails
          · rw [state, if_pos fails]
          · rw [if_neg fails] at state
            exact absurd state guarded
        · exact failed
      · exact failed
    · intro failed stillUnconfigured
      rw [failed] at stillUnconfigured
      cases stillUnconfigured
  · intro succeeds complete
    rw [initializesAgain_iff, not_not]
    rcases writes.initState with same | ⟨-, refused⟩
    · rw [same]
      rcases connectedState with state | ⟨-, refused⟩
      · rwa [if_neg succeeds] at state
      · exact absurd complete refused
    · rw [socket] at refused
      exact absurd complete refused

/-- Everything succeeds, but the exit function cannot be set. -/
def StartUp.noExit : StartUp :=
  { StartUp.smooth with atexit := 1 }

/-- Given up at once, the controller is not initialised again. -/
theorem initialize_again_noExit :
    ∃ connected, controllerInitialize Kernel.accepting StartUp.noExit Library.initial =
        some connected ∧
      InitializesAgain Kernel.accepting StartUp.smooth connected := by
  rcases controllerInitialize_of_unconfigured Kernel.accepting StartUp.noExit Library.initial
    LookupTable.holds_initial rfl rfl rfl with ⟨connected, done, initializes⟩
  refine ⟨connected, done, (initialize_again_does_nothing_iff rfl (by simp [StartUp.noExit,
    StartUp.smooth]) rfl done (.nil connected)).1.mpr ?_⟩
  rw [initializes.initState]
  exact if_pos (Or.inl (Or.inr (by decide)))

/-- Everything succeeds, and the second initialisation opens a second connection. -/
theorem second_initialization_connects :
    ∃ connected after,
      controllerInitialize Kernel.accepting StartUp.smooth Library.initial = some connected ∧
      controllerInitialize Kernel.accepting StartUp.smooth connected = some after ∧
      after.channel.world.log = connected.channel.world.log ++ [.socket 3, .connect 3] ∧
      ¬InitializesAgain Kernel.accepting StartUp.smooth connected := by
  rcases exists_initialized Kernel.accepting with ⟨connected, done, initializes⟩
  have unconfigured : connected.channel.controller.initState = .unconfigured :=
    initializes.initState_of_accepting
  rcases controllerInitialize_of_unconfigured Kernel.accepting StartUp.smooth connected
    initializes.ready.holds unconfigured rfl rfl with ⟨after, again, initializesAgain⟩
  refine ⟨connected, after, done, again, ?_, ?_⟩
  · rw [initializesAgain.log]
    rfl
  · rw [initializesAgain_iff, not_not]
    exact unconfigured

end Kieker
