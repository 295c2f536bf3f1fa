import Kieker.Connection.Failures
import Kieker.Library.Replay
import Kieker.Library.Steps
import Kieker.Probes.Writing

/-!
# Whose descriptors are used

Descriptors are numbers that the system gives out again after they were closed. The
library keeps one in its socket field, which nothing resets: finalising twice, or
sending after a finalisation, uses a number that may belong to the application by
then, and initialising twice loses the first one. The close goes through an
`unsigned short`.
-/

namespace Kieker

/-! ### Open descriptors -/

/-- The open descriptors of a process, by who opened them. -/
structure Descriptors where
  library : List ℤ
  application : List ℤ

namespace Descriptors

/-- What a call does to the open descriptors; closing a number closes it for everyone. -/
def next (held : Descriptors) : Syscall → Descriptors
  | .socket descriptor => { held with library := descriptor :: held.library }
  | .connect _ => held
  | .write _ _ _ => held
  | .close descriptor =>
      { library := held.library.erase descriptor
        application := held.application.erase descriptor }
  | .applicationOpen descriptor => { held with application := descriptor :: held.application }
  | .applicationClose descriptor =>
      { held with application := held.application.erase descriptor }

/-- The library writes and closes only what it has opened and not closed yet. -/
def Allows (held : Descriptors) : Syscall → Prop
  | .write descriptor _ _ => descriptor ∈ held.library
  | .close descriptor => descriptor ∈ held.library
  | _ => True

/-- The descriptors that are open after some calls. -/
def after (calls : List Syscall) : Descriptors :=
  calls.foldl next ⟨[], []⟩

theorem after_append (front back : List Syscall) :
    after (front ++ back) = back.foldl next (after front) :=
  List.foldl_append

end Descriptors

/-- Every write and every close on record was on an open descriptor of the library. -/
def UsesOwned (calls : List Syscall) : Prop :=
  Replay.Guarded Descriptors.next Descriptors.Allows ⟨[], []⟩ calls

/-! ### Runs -/

/-- What may happen in a process that the library is loaded into. -/
inductive LifeEvent where
  | initialization (startUp : StartUp)
  | finalization
  | probe (self : PthreadSelf) (call : ProbeCall)
  | applicationOpen (descriptor : ℤ)
  | applicationClose (descriptor : ℤ)

/-- Connecting succeeds, on a descriptor that is not in use. -/
structure StartUp.Opens (startUp : StartUp) (held : Descriptors) : Prop where
  socket : 0 ≤ startUp.socket
  notLibrary : startUp.socket ∉ held.library
  notApplication : startUp.socket ∉ held.application
  hostError : startUp.hostError = none
  connect : 0 ≤ startUp.connect

namespace Library

/-- The descriptors that are open. -/
def held (library : Library) : Descriptors :=
  Descriptors.after library.channel.world.log

/-- One event in the life of a process. -/
inductive LifeStep (kernel : Kernel) : Library → LifeEvent → Library → Prop
  | initialization {before after : Library} {startUp : StartUp} (opens : startUp.Opens before.held)
      (done : controllerInitialize kernel startUp before = some after) :
      LifeStep kernel before (.initialization startUp) after
  | finalization {before : Library} :
      LifeStep kernel before .finalization
        { before with channel := controllerFinalize before.channel }
  | probe {before after : Library} {self : PthreadSelf} {call : ProbeCall}
      (done : call.run kernel self before = some after) :
      LifeStep kernel before (.probe self call) after
  | applicationOpen {before : Library} {descriptor : ℤ} (nonneg : 0 ≤ descriptor)
      (notLibrary : descriptor ∉ before.held.library)
      (notApplication : descriptor ∉ before.held.application) :
      LifeStep kernel before (.applicationOpen descriptor)
        { before with channel := before.channel.record (.applicationOpen descriptor) }
  | applicationClose {before : Library} {descriptor : ℤ}
      (mine : descriptor ∈ before.held.application) :
      LifeStep kernel before (.applicationClose descriptor)
        { before with channel := before.channel.record (.applicationClose descriptor) }

/--
Where the library keeps to its own descriptors: an initialisation that connects
finds no other connection open, and does not have to close the new one again
unless its number survives that and nothing is written afterwards; a finalisation
finds a connection open whose number fits into an `unsigned short`; a probe that
has anything to send finds a connection open.
-/
def Careful (kernel : Kernel) (library : Library) : LifeEvent → Prop
  | .initialization startUp =>
      library.channel.controller.initState ≠ .unconfigured ∨
        startUp.gethostname = none ∨ startUp.rwlockInit ≠ 0 ∨
        library.held.library = [] ∧
          (startUp.atexit = 0 ∨ startUp.socket < 2 ^ 16 ∧ library.channel.Finds eventTypes)
  | .finalization => ∃ descriptor ∈ library.held.library, descriptor < 2 ^ 16
  | .probe self call => library.held.library ≠ [] ∨ call.Silent kernel self library
  | .applicationOpen _ => True
  | .applicationClose _ => True

/--
The writes and closes so far were on open descriptors of the library, those of the
last step closed the whole number in the socket field, and no descriptor of the
library is open that is not in the socket field.
-/
structure UsesOwnDescriptors (before after : Library) : Prop where
  uses : UsesOwned after.channel.world.log
  closesSocket : ∀ calls, after.channel.world.log = before.channel.world.log ++ calls →
    ∀ descriptor, .close descriptor ∈ calls → descriptor = after.channel.controller.socket
  keeps : ∀ descriptor ∈ after.held.library, descriptor = after.channel.controller.socket

/-- The invariant: at most the descriptor in the socket field is open. -/
structure HoldsSocket (library : Library) : Prop where
  uses : UsesOwned library.channel.world.log
  socket : library.held.library = [] ∨
    library.held.library = [library.channel.controller.socket] ∧
      0 ≤ library.channel.controller.socket

end Library

variable {kernel : Kernel} {startUp : StartUp} {library after : Library} {hostname : CString}
  {held : Descriptors} {descriptor : ℤ}

/-! ### One step -/

theorem toUShort_of_bounds {value : ℤ} (nonneg : 0 ≤ value) (small : value < 2 ^ 16) :
    toUShort value = value :=
  Int.emod_eq_of_lt nonneg small

theorem Descriptors.foldl_offers (held : Descriptors) (index : ℕ) (pieces : List (List UInt8)) :
    (kernel.offers descriptor index pieces).foldl Descriptors.next held = held := by
  apply Replay.foldl_of_still
  intro call offered
  rcases Kernel.mem_offers.mp offered with ⟨piece, -, rfl⟩
  rfl

theorem Descriptors.guarded_offers (mine : descriptor ∈ held.library) (index : ℕ)
    (pieces : List (List UInt8)) :
    Replay.Guarded Descriptors.next Descriptors.Allows held (kernel.offers descriptor index pieces) := by
  apply Replay.guarded_of_still
  · intro call offered
    rcases Kernel.mem_offers.mp offered with ⟨piece, -, rfl⟩
    rfl
  · intro call offered
    rcases Kernel.mem_offers.mp offered with ⟨piece, -, rfl⟩
    exact mine

/-- What an initialisation that gets as far as connecting does in any state of the string table. -/
theorem controllerInitialize_writes
    (unconfigured : library.channel.controller.initState = .unconfigured)
    (named : startUp.gethostname = some hostname) (rwlockInit : startUp.rwlockInit = 0)
    (done : controllerInitialize kernel startUp library = some after) :
    after.channel.controller.socket = startUp.socketResult ∧
      (after.channel.controller.initState = (if startUp.Fails then .failed else .unconfigured) ∨
        after.channel.controller.initState = .failed ∧ ¬kernel.CompleteOn startUp.socketResult) ∧
      ∃ pieces, after.channel.world.log = kernel.offerAll startUp.socketResult
          (library.channel.world.log ++ (startUp.openCalls ++ startUp.closeCalls)) pieces ∧
        (library.channel.Finds eventTypes → pieces = []) := by
  have connected := controllerConnect_eq startUp (startUp.prepare hostname library.channel)
  simp only [StartUp.prepare] at connected
  simp only [controllerInitialize, unconfigured, controllerObtainLocalHostname, named,
    TraceRegistry.traceInit, rwlockInit, ne_eq, not_true_eq_false, if_true, if_false,
    controllerRegisterEventTypes, Option.bind_eq_bind, Option.bind_eq_some_iff,
    Option.some.injEq] at done
  rcases done with ⟨registered, ⟨block, -, ⟨_, stored, sent⟩, wrote, rfl⟩, rfl⟩
  rw [connected] at wrote
  have initState : (controllerSetupBuffer startUp
      (controllerConfigureVariables startUp library.channel.controller)).initState =
      .unconfigured := unconfigured
  rw [initState] at wrote
  by_cases finds : library.channel.Finds eventTypes
  · rw [serializeFields_of_finds ?_ wrote]
    · exact ⟨rfl, Or.inl rfl, [], rfl, fun _ => rfl⟩
    · exact finds
  · rcases serializeFields_onlyWrites wrote with ⟨socket, state, pieces, log⟩
    exact ⟨socket, state, pieces, log, fun found => absurd found finds⟩

namespace Library.HoldsSocket

/-- Calls added to the record, with the descriptors open afterwards. -/
theorem extend (holds : library.HoldsSocket) {calls : List Syscall}
    (logEq : after.channel.world.log = library.channel.world.log ++ calls)
    (guarded : Replay.Guarded Descriptors.next Descriptors.Allows library.held calls)
    (socket : (calls.foldl Descriptors.next library.held).library = [] ∨
      (calls.foldl Descriptors.next library.held).library = [after.channel.controller.socket] ∧
        0 ≤ after.channel.controller.socket) : after.HoldsSocket where
  uses := by
    rw [UsesOwned, logEq]
    exact holds.uses.append guarded
  socket := by
    rw [Library.held, logEq, Descriptors.after_append]
    exact socket

theorem keeps (holds : library.HoldsSocket) :
    ∀ descriptor ∈ library.held.library, descriptor = library.channel.controller.socket := by
  intro descriptor isOpen
  rcases holds.socket with none | ⟨one, -⟩
  · rw [none] at isOpen
    cases isOpen
  · rw [one, List.mem_singleton] at isOpen
    exact isOpen

/-- The full specification of a step follows from the invariant afterwards. -/
theorem usesOwnDescriptors (holds : after.HoldsSocket) {calls : List Syscall}
    (logEq : after.channel.world.log = library.channel.world.log ++ calls)
    (closes : ∀ descriptor, .close descriptor ∈ calls →
      descriptor = after.channel.controller.socket) : library.UsesOwnDescriptors after where
  uses := holds.uses
  closesSocket := by
    intro others othersEq descriptor closed
    rw [logEq, List.append_cancel_left_eq] at othersEq
    exact closes descriptor (othersEq ▸ closed)
  keeps := holds.keeps

/-- The new descriptor is the only one open, or it was closed and nothing was written. -/
theorem connection (holds : library.HoldsSocket) (opens : startUp.Opens library.held)
    (none : library.held.library = [])
    (exit : startUp.atexit = 0 ∨ startUp.socket < 2 ^ 16 ∧ library.channel.Finds eventTypes)
    (writes : after.channel.controller.socket = startUp.socketResult ∧
      ∃ pieces, after.channel.world.log = kernel.offerAll startUp.socketResult
          (library.channel.world.log ++ (startUp.openCalls ++ startUp.closeCalls)) pieces ∧
        (library.channel.Finds eventTypes → pieces = [])) :
    after.HoldsSocket ∧ library.UsesOwnDescriptors after := by
  rcases StartUp.connected_eq opens.socket opens.hostError opens.connect with ⟨result, opened⟩
  rcases writes with ⟨socket, pieces, logEq, silent⟩
  rw [result] at socket logEq
  rw [Kernel.offerAll_eq_append, opened, List.append_assoc] at logEq
  by_cases exits : startUp.atexit = 0
  · have stays : startUp.closeCalls = [] := by simp [StartUp.closeCalls, exits]
    rw [stays, List.append_nil] at logEq
    have kept : after.HoldsSocket := by
      refine holds.extend logEq ?_ (Or.inr ?_)
      · refine Replay.Guarded.append ⟨trivial, trivial, trivial⟩ (Descriptors.guarded_offers ?_ _ _)
        simp [Descriptors.next]
      · rw [List.foldl_append, Descriptors.foldl_offers, socket]
        exact ⟨by simp [Descriptors.next, none], opens.socket⟩
    refine ⟨kept, kept.usesOwnDescriptors logEq ?_⟩
    intro descriptor closed
    rcases List.mem_append.mp closed with opening | offered
    · simp at opening
    · rcases Kernel.mem_offers.mp offered with ⟨piece, -, shape⟩
      cases shape
  · rcases exit.resolve_left exits with ⟨small, finds⟩
    have positive : startUp.socket ≠ -1 := by
      have := opens.socket
      omega
    have closes : startUp.closeCalls = [.close startUp.socket] := by
      simp [StartUp.closeCalls, exits, result, positive, toUShort_of_bounds opens.socket small]
    rw [silent finds, closes] at logEq
    have kept : after.HoldsSocket := by
      refine holds.extend logEq ?_ (Or.inl ?_)
      · simp [Replay.Guarded, Descriptors.next, Descriptors.Allows, Kernel.offers]
      · simp [Descriptors.next, Kernel.offers, none]
    refine ⟨kept, kept.usesOwnDescriptors logEq ?_⟩
    intro descriptor closed
    rw [socket]
    simpa [Kernel.offers] using closed

theorem initialization (holds : library.HoldsSocket) (opens : startUp.Opens library.held)
    (careful : library.Careful kernel (.initialization startUp))
    (done : controllerInitialize kernel startUp library = some after) :
    after.HoldsSocket ∧ library.UsesOwnDescriptors after := by
  by_cases unconfigured : library.channel.controller.initState = .unconfigured
  · by_cases early : startUp.gethostname = none ∨ startUp.rwlockInit ≠ 0
    · -- Nothing passes to the outside, and the socket field is not touched.
      rcases controllerInitialize_of_early_failure kernel unconfigured early with
        ⟨failed, failedEq, -, socket, world⟩
      rw [done, Option.some.injEq] at failedEq
      subst failedEq
      have logEq : after.channel.world.log = library.channel.world.log ++ [] := by
        rw [world, List.append_nil]
      have kept : after.HoldsSocket := by
        refine holds.extend logEq trivial ?_
        rw [socket]
        exact holds.socket
      exact ⟨kept, kept.usesOwnDescriptors logEq (by simp)⟩
    · rw [not_or, not_not] at early
      rcases Option.ne_none_iff_exists'.mp early.1 with ⟨hostname, named⟩
      rcases careful.resolve_left (by simp [unconfigured]) with noName | noLock | ⟨none, exit⟩
      · exact absurd noName early.1
      · exact absurd early.2 noLock
      rcases controllerInitialize_writes unconfigured named early.2 done with ⟨socket, -, written⟩
      exact holds.connection opens none exit ⟨socket, written⟩
  · have same : after = library := by
      simp only [controllerInitialize, unconfigured, if_false, Option.some.injEq] at done
      exact done.symm
    subst same
    exact ⟨holds, holds.usesOwnDescriptors (List.append_nil _).symm (by simp)⟩

theorem finalization (holds : library.HoldsSocket) (careful : library.Careful kernel .finalization) :
    HoldsSocket { library with channel := controllerFinalize library.channel } ∧
      library.UsesOwnDescriptors
        { library with channel := controllerFinalize library.channel } := by
  rcases careful with ⟨descriptor, isOpen, small⟩
  rcases holds.socket with none | ⟨one, nonneg⟩
  · rw [none] at isOpen
    cases isOpen
  · rw [one, List.mem_singleton] at isOpen
    subst isOpen
    have whole := toUShort_of_bounds nonneg small
    have logEq : (controllerFinalize library.channel).world.log =
        library.channel.world.log ++ [.close library.channel.controller.socket] := by
      rw [← whole]
      rfl
    have kept : HoldsSocket { library with channel := controllerFinalize library.channel } := by
      refine holds.extend logEq ?_ (Or.inl ?_)
      · simp [Replay.Guarded, Descriptors.Allows, one]
      · simp [Descriptors.next, one]
    refine ⟨kept, kept.usesOwnDescriptors logEq ?_⟩
    intro descriptor closed
    rw [List.mem_singleton, Syscall.close.injEq] at closed
    exact closed

theorem probe {self : PthreadSelf} {call : ProbeCall} (holds : library.HoldsSocket)
    (careful : library.Careful kernel (.probe self call))
    (done : call.run kernel self library = some after) :
    after.HoldsSocket ∧ library.UsesOwnDescriptors after := by
  have writes := call.onlyWrites done
  rcases writes.log with ⟨pieces, logEq⟩
  rw [Kernel.offerAll_eq_append] at logEq
  have kept : after.HoldsSocket := by
    rcases holds.socket with none | ⟨one, nonneg⟩
    · -- Nothing is open, so the call is one that has nothing to send.
      have silent := careful.resolve_left (by simp [none])
      have sameLog : after.channel.world.log = library.channel.world.log ++ [] := by
        rw [ProbeCall.log_of_silent silent done, List.append_nil]
      exact holds.extend sameLog trivial (Or.inl none)
    · refine holds.extend logEq (Descriptors.guarded_offers (by simp [one]) _ _) (Or.inr ?_)
      rw [Descriptors.foldl_offers, writes.socket]
      exact ⟨one, nonneg⟩
  refine ⟨kept, kept.usesOwnDescriptors logEq ?_⟩
  intro descriptor closed
  rcases Kernel.mem_offers.mp closed with ⟨piece, -, shape⟩
  cases shape

theorem application (holds : library.HoldsSocket) {call : Syscall}
    (others : (library.held.next call).library = library.held.library)
    (allowed : library.held.Allows call) (closes : ∀ descriptor, call ≠ .close descriptor) :
    HoldsSocket { library with channel := library.channel.record call } ∧
      library.UsesOwnDescriptors { library with channel := library.channel.record call } := by
  have logEq : (library.channel.record call).world.log = library.channel.world.log ++ [call] := rfl
  have kept : HoldsSocket { library with channel := library.channel.record call } := by
    refine holds.extend logEq ⟨allowed, trivial⟩ ?_
    rw [List.foldl_cons, List.foldl_nil, others]
    exact holds.socket
  refine ⟨kept, kept.usesOwnDescriptors logEq ?_⟩
  intro descriptor closed
  rw [List.mem_singleton] at closed
  exact absurd closed.symm (closes descriptor)

end Library.HoldsSocket

theorem Library.HoldsSocket.step {event : LifeEvent} (holds : library.HoldsSocket)
    (careful : library.Careful kernel event) (stepped : Library.LifeStep kernel library event after) :
    after.HoldsSocket ∧ library.UsesOwnDescriptors after := by
  cases stepped with
  | initialization opens done => exact holds.initialization opens careful done
  | finalization => exact holds.finalization careful
  | probe done => exact holds.probe careful done
  | applicationOpen nonneg notLibrary notApplication =>
      exact holds.application rfl trivial (by simp)
  | applicationClose mine => exact holds.application rfl trivial (by simp)

theorem Library.holdsSocket_loaded (filter : AdaptiveFilter) : (Library.loaded filter).HoldsSocket :=
  ⟨trivial, Or.inl rfl⟩

/--
In a run of careful steps the library writes and closes open descriptors of its
own only, closes the whole number in the socket field, and loses none.
-/
theorem careful_steps_use_own_descriptors {filter : AdaptiveFilter} {events : List LifeEvent}
    {finish : Library}
    (run : Steps (fun before event after => before.Careful kernel event ∧
      Library.LifeStep kernel before event after) (Library.loaded filter) events finish) :
    Steps (fun before event after => Library.LifeStep kernel before event after ∧
      before.UsesOwnDescriptors after) (Library.loaded filter) events finish ∧
      UsesOwned finish.channel.world.log := by
  have held : finish.HoldsSocket ∧
      Steps (fun before event after => Library.LifeStep kernel before event after ∧
        before.UsesOwnDescriptors after) (Library.loaded filter) events finish := by
    induction run with
    | nil => exact ⟨Library.holdsSocket_loaded filter, .nil _⟩
    | snoc run last ih =>
        rcases ih with ⟨holds, uses⟩
        rcases holds.step last.1 last.2 with ⟨kept, own⟩
        exact ⟨kept, uses.snoc ⟨last.2, own⟩⟩
  exact ⟨held.2, held.1.uses⟩

/-! ### The life of a process -/

theorem opens_smooth : StartUp.smooth.Opens (Library.loaded AdaptiveFilter.initial).held where
  socket := by decide
  notLibrary := by simp [Library.held, Library.loaded, Library.initial, Channel.initial,
    Descriptors.after]
  notApplication := by simp [Library.held, Library.loaded, Library.initial, Channel.initial,
    Descriptors.after]
  hostError := rfl
  connect := by decide

theorem initialization_smooth :
    ∃ library, controllerInitialize Kernel.accepting StartUp.smooth
        (Library.loaded AdaptiveFilter.initial) = some library ∧
      library.channel.controller.socket = 3 ∧ library.held = ⟨[3], []⟩ := by
  rcases exists_initialized Kernel.accepting with ⟨library, done, initializes⟩
  refine ⟨library, done, initializes.socket, ?_⟩
  rw [Library.held, initializes.log_eq, Descriptors.after_append, List.foldl_append,
    Descriptors.foldl_offers]
  rfl

/-- The constructor, and one of the functions that finalise at exit. -/
theorem constructor_and_exit_careful :
    ∃ finish, Steps (fun before event after => Library.LifeStep Kernel.accepting before event after ∧
        before.UsesOwnDescriptors after) (Library.loaded AdaptiveFilter.initial)
        [.initialization StartUp.smooth, .finalization] finish ∧
      UsesOwned finish.channel.world.log := by
  rcases initialization_smooth with ⟨library, done, -, held⟩
  refine ⟨_, careful_steps_use_own_descriptors (.cons ⟨?_, .initialization opens_smooth done⟩
    (.single ⟨?_, .finalization⟩))⟩
  · exact Or.inr (Or.inr (Or.inr ⟨rfl, Or.inl rfl⟩))
  · exact ⟨3, by simp [held], by norm_num⟩

/--
The constructor, the exit function and the destructor: the second finalisation
closes descriptor 3 although the library no longer has it.
-/
theorem exit_function_and_destructor_close_twice :
    ∃ finish, Steps (Library.LifeStep Kernel.accepting) (Library.loaded AdaptiveFilter.initial)
        [.initialization StartUp.smooth, .finalization, .finalization] finish ∧
      ¬UsesOwned finish.channel.world.log := by
  rcases initialization_smooth with ⟨library, done, socket, held⟩
  refine ⟨_, .cons (.initialization opens_smooth done) (.cons .finalization
    (.single .finalization)), ?_⟩
  intro owned
  have closesTwice : (controllerFinalize (controllerFinalize library.channel)).world.log =
      library.channel.world.log ++ [.close 3] ++ Syscall.close 3 :: [] := by
    simp [controllerFinalize, ioSocketClose, Channel.record, Channel.setInitState, socket, toUShort]
  simp only [UsesOwned, closesTwice] at owned
  have allowed := owned.allowed
  have closed : (library.channel.world.log ++ [Syscall.close 3]).foldl Descriptors.next ⟨[], []⟩ =
      ⟨[], []⟩ := by
    rw [List.foldl_append, show library.channel.world.log.foldl Descriptors.next ⟨[], []⟩ = _
      from held]
    rfl
  rw [closed] at allowed
  cases allowed

end Kieker
