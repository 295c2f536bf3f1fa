import Kieker.Connection.Initialization

/-!
# Failing initialisations

An initialisation should end with a connected socket, or with a failure that
wrote nothing. `kieker_io_client_socket_open` is documented to return a negative
number when it fails, but it returns `h_errno` as it is when the host is not
found, and the codes for that are positive. The code then passes for a descriptor.
-/

namespace Kieker

/--
The initialisation connected the descriptor in the socket field, or it failed and
none of its calls passed a byte on.
-/
def ConnectsOrFails (before after : Library) : Prop :=
  ∃ calls, after.channel.world.log = before.channel.world.log ++ calls ∧
    (Syscall.connect after.channel.controller.socket ∈ calls ∨
      after.channel.controller.initState = .failed ∧ ∀ call ∈ calls, call.accepted = [])

/-- The host is not found, and the error code is not the one that is tested for. -/
def StartUp.Mistakes (startUp : StartUp) (hErrno : ℤ) : Prop :=
  startUp.gethostname.isSome ∧ startUp.rwlockInit = 0 ∧ 0 ≤ startUp.socket ∧
    startUp.hostError = some hErrno ∧ hErrno ≠ -1

/--
The registration on the descriptor number `hErrno` passes no byte on, and leaves
the failure noted because the exit function or a write failed.
-/
def StartUp.StaysQuiet (kernel : Kernel) (startUp : StartUp) (library : Library)
    (known : List CString) (hErrno : ℤ) : Prop :=
  let index := (library.channel.world.log ++ (startUp.openCalls ++ startUp.closeCalls)).length
  (∀ piece ∈ (registryPieces known eventTypes).zipIdx,
    kernel.write (index + piece.2) hErrno piece.1.length ≤ 0) ∧
    (startUp.atexit ≠ 0 ∨ kernel.refuses hErrno index (registryPieces known eventTypes) = true)

variable {kernel : Kernel} {startUp : StartUp} {library after : Library} {known : List CString}
  {hostname : CString} {hErrno : ℤ}

theorem Library.Initializes.log_eq
    (initializes : library.Initializes kernel startUp hostname after known) :
    after.channel.world.log = library.channel.world.log ++
      (startUp.openCalls ++ startUp.closeCalls ++ kernel.offers startUp.socketResult
        (library.channel.world.log ++ (startUp.openCalls ++ startUp.closeCalls)).length
        (registryPieces known eventTypes)) := by
  rw [initializes.log, Kernel.offerAll_eq_append, List.append_assoc]

/-- A piece passes no byte on exactly if the count returned for it is not positive. -/
theorem accepted_write_eq_nil (descriptor : ℤ) {result : ℤ} {bytes : List UInt8}
    (some_byte : bytes ≠ []) :
    (Syscall.write descriptor bytes result).accepted = [] ↔ result ≤ 0 := by
  simp [Syscall.accepted, some_byte]

theorem registryPieces_ne_nil {used : List CString} {piece : List UInt8}
    (isPiece : piece ∈ registryPieces known used) : piece ≠ [] := by
  intro empty
  rcases List.mem_map.mp isPiece with ⟨announced, -, shape⟩
  have length := congrArg List.length shape
  rw [length_registryBytes, empty] at length
  simp only [List.length_nil] at length
  omega

theorem mem_openCalls {call : Syscall} (opening : call ∈ startUp.openCalls) :
    call = .socket startUp.socket ∨ call = .connect startUp.socket := by
  unfold StartUp.openCalls at opening
  by_cases noSocket : startUp.socket < 0
  · simp [noSocket] at opening
  · cases hostError : startUp.hostError with
    | some hErrno =>
        simp only [noSocket, hostError, if_false, List.mem_singleton] at opening
        exact Or.inl opening
    | none =>
        by_cases refused : startUp.connect < 0
        · simp only [noSocket, hostError, refused, if_false, if_true, List.mem_singleton] at opening
          exact Or.inl opening
        · simpa [noSocket, hostError, refused] using opening

theorem mem_closeCalls {call : Syscall} (closing : call ∈ startUp.closeCalls) :
    call = .close (toUShort startUp.socketResult) := by
  unfold StartUp.closeCalls at closing
  split at closing
  · exact List.mem_singleton.mp closing
  · cases closing

theorem accepted_open_or_close {call : Syscall}
    (opening : call ∈ startUp.openCalls ++ startUp.closeCalls) : call.accepted = [] := by
  rcases List.mem_append.mp opening with opened | closed
  · rcases mem_openCalls opened with rfl | rfl <;> rfl
  · rw [mem_closeCalls closed]
    rfl

/-- The registration passes no byte on exactly if none of its writes takes one. -/
theorem accepted_offers_eq_nil {descriptor : ℤ} {index : ℕ} {used : List CString} :
    (∀ call ∈ kernel.offers descriptor index (registryPieces known used), call.accepted = []) ↔
      ∀ piece ∈ (registryPieces known used).zipIdx,
        kernel.write (index + piece.2) descriptor piece.1.length ≤ 0 := by
  have nonempty : ∀ piece ∈ (registryPieces known used).zipIdx, piece.1 ≠ [] :=
    fun piece isPiece => registryPieces_ne_nil (List.fst_mem_of_mem_zipIdx isPiece)
  constructor
  · intro quiet piece isPiece
    rw [← accepted_write_eq_nil descriptor (nonempty piece isPiece)]
    exact quiet _ (Kernel.mem_offers.mpr ⟨piece, isPiece, rfl⟩)
  · intro small call offered
    rcases Kernel.mem_offers.mp offered with ⟨piece, isPiece, rfl⟩
    exact (accepted_write_eq_nil descriptor (nonempty piece isPiece)).mpr (small piece isPiece)

/-- If the error code passes for a descriptor, everything rests on the registration. -/
theorem connectsOrFails_iff_of_mistakes (mistakes : startUp.Mistakes hErrno)
    (unconfigured : library.channel.controller.initState = .unconfigured)
    (initializes : library.Initializes kernel startUp hostname after known) :
    ConnectsOrFails library after ↔ startUp.StaysQuiet kernel library known hErrno := by
  rcases mistakes with ⟨-, -, socketOpened, hostError, notTested⟩
  have socketNonneg : ¬startUp.socket < 0 := not_lt.mpr socketOpened
  have result : startUp.socketResult = hErrno := by
    simp only [StartUp.socketResult, socketNonneg, hostError, if_false]
  have opened : startUp.openCalls = [.socket startUp.socket] := by
    simp only [StartUp.openCalls, socketNonneg, hostError, if_false]
  have failedIff : after.channel.controller.initState = .failed ↔
      startUp.atexit ≠ 0 ∨ kernel.refuses hErrno
        (library.channel.world.log ++ (startUp.openCalls ++ startUp.closeCalls)).length
        (registryPieces known eventTypes) = true := by
    have fails : startUp.Fails ↔ startUp.atexit ≠ 0 := by
      simp [StartUp.Fails, result, notTested]
    rw [initializes.initState, result, unconfigured]
    simp only [fails, ite_eq_left_iff, reduceCtorEq, imp_false, not_not]
  have notConnected : ∀ descriptor, Syscall.connect descriptor ∉
      startUp.openCalls ++ startUp.closeCalls ++ kernel.offers startUp.socketResult
        (library.channel.world.log ++ (startUp.openCalls ++ startUp.closeCalls)).length
        (registryPieces known eventTypes) := by
    intro descriptor connected
    rw [List.mem_append, List.mem_append, opened] at connected
    rcases connected with (opening | closing) | offered
    · simp at opening
    · cases mem_closeCalls closing
    · rcases Kernel.mem_offers.mp offered with ⟨piece, -, shape⟩
      cases shape
  constructor
  · rintro ⟨calls, logEq, outcome⟩
    rw [initializes.log_eq, List.append_cancel_left_eq] at logEq
    subst logEq
    rcases outcome with connected | ⟨failed, quiet⟩
    · exact absurd connected (notConnected _)
    · refine ⟨accepted_offers_eq_nil.mp ?_, failedIff.mp failed⟩
      intro call offered
      apply quiet
      rw [result]
      exact List.mem_append_right _ offered
  · rintro ⟨small, failed⟩
    refine ⟨_, initializes.log_eq, Or.inr ⟨failedIff.mpr failed, ?_⟩⟩
    intro call isCall
    rcases List.mem_append.mp isCall with opening | offered
    · exact accepted_open_or_close opening
    · rw [result] at offered
      exact accepted_offers_eq_nil.mpr small call offered

/-- Without a descriptor every offer of the registration is refused. -/
theorem connectsOrFails_of_no_socket (noSocket : startUp.socketResult = -1)
    (initializes : library.Initializes kernel startUp hostname after known) :
    ConnectsOrFails library after := by
  refine ⟨_, initializes.log_eq, Or.inr ⟨?_, ?_⟩⟩
  · have fails : startUp.Fails := Or.inl noSocket
    rw [initializes.initState, if_pos (Or.inl fails)]
  · intro call isCall
    rcases List.mem_append.mp isCall with opening | offered
    · exact accepted_open_or_close opening
    · rw [noSocket] at offered
      refine accepted_offers_eq_nil.mpr ?_ call offered
      intro piece _
      rw [kernel.write_of_neg _ _ _ (by norm_num)]
      norm_num

/--
An initialisation is always defined. It connects or fails cleanly unless the host
is not found and the error code is taken for a descriptor; and then only if the
event types, which are registered on the descriptor of that number, pass no byte
on and the failure is noted for another reason.
-/
theorem controllerInitialize_connects_or_fails_iff (kernel : Kernel) (startUp : StartUp)
    (library : Library) (holds : library.channel.lookup.Holds known)
    (unassigned : library.channel.controller.initState ≠ .configured) :
    ∃ after, controllerInitialize kernel startUp library = some after ∧
      (ConnectsOrFails library after ↔
        library.channel.controller.initState = .failed ∨
          ∀ hErrno, startUp.Mistakes hErrno → startUp.StaysQuiet kernel library known hErrno) := by
  cases state : library.channel.controller.initState with
  | configured => exact absurd state unassigned
  | failed =>
      refine ⟨library, by simp [controllerInitialize, state], iff_of_true ?_ (Or.inl rfl)⟩
      exact ⟨[], by simp, Or.inr ⟨state, by simp⟩⟩
  | unconfigured =>
      by_cases early : startUp.gethostname = none ∨ startUp.rwlockInit ≠ 0
      · rcases controllerInitialize_of_early_failure kernel state early with
          ⟨after, done, failed, -, world⟩
        refine ⟨after, done, iff_of_true ⟨[], by simp [world], Or.inr ⟨failed, by simp⟩⟩ ?_⟩
        refine Or.inr fun hErrno mistakes => ?_
        rcases early with noName | noLock
        · simp [StartUp.Mistakes, noName] at mistakes
        · exact absurd mistakes.2.1 noLock
      · rw [not_or, not_not] at early
        rcases Option.ne_none_iff_exists'.mp early.1 with ⟨hostname, named⟩
        rcases controllerInitialize_of_unconfigured kernel startUp library holds state named early.2 with
          ⟨after, done, initializes⟩
        refine ⟨after, done, ?_⟩
        by_cases mistaken : ∃ hErrno, startUp.Mistakes hErrno
        · rcases mistaken with ⟨hErrno, mistakes⟩
          rw [connectsOrFails_iff_of_mistakes mistakes state initializes]
          constructor
          · intro quiet
            refine Or.inr fun other otherMistakes => ?_
            have same := mistakes.2.2.2.1.symm.trans otherMistakes.2.2.2.1
            rw [Option.some.injEq] at same
            exact same ▸ quiet
          · rintro (impossible | quiet)
            · cases impossible
            · exact quiet hErrno mistakes
        · refine iff_of_true ?_ (Or.inr fun hErrno mistakes => absurd ⟨hErrno, mistakes⟩ mistaken)
          by_cases noSocket : startUp.socketResult = -1
          · exact connectsOrFails_of_no_socket noSocket initializes
          · refine ⟨_, initializes.log_eq, Or.inl ?_⟩
            rw [initializes.socket]
            have nonneg : ¬startUp.socket < 0 := fun negative =>
              noSocket (by simp [StartUp.socketResult, negative])
            cases hostError : startUp.hostError with
            | some hErrno =>
                have taken : startUp.socketResult = hErrno := by
                  simp only [StartUp.socketResult, nonneg, hostError, if_false]
                rw [taken] at noSocket
                exact absurd ⟨hErrno, by simp [named], early.2, not_lt.mp nonneg, hostError, noSocket⟩
                  mistaken
            | none =>
                have connected : ¬startUp.connect < 0 := fun refused =>
                  noSocket (by simp [StartUp.socketResult, nonneg, hostError, refused])
                simp [StartUp.openCalls, StartUp.socketResult, nonneg, hostError, connected]

/-- The answers of a system on which everything succeeds. -/
def StartUp.smooth : StartUp where
  getenv _ := none
  mallocBuffer _ := 0
  mallocStringBuffer _ := 0
  gethostname := some (.literal "host")
  length_gethostname_le := by
    intro name named
    cases named
    decide
  rwlockInit := 0
  time := 0
  socket := 3
  hostError := none
  connect := 0
  atexit := 0

/-- The answers of a system that does not know the collector's host. -/
def StartUp.hostUnknown : StartUp :=
  { StartUp.smooth with hostError := some 1 }

/-- The library as it is loaded. -/
def Library.initial : Library where
  channel := Channel.initial { log := [], clockReads := 0 }
  registry := TraceRegistry.initial
  filter := AdaptiveFilter.initial

/-- The library as it is loaded, with what the filter may hold. -/
def Library.loaded (filter : AdaptiveFilter) : Library :=
  { Library.initial with filter := filter }

theorem exists_initialized (kernel : Kernel) :
    ∃ initialized, controllerInitialize kernel StartUp.smooth Library.initial = some initialized ∧
      Library.initial.Initializes kernel StartUp.smooth (.literal "host") initialized [] :=
  controllerInitialize_of_unconfigured kernel StartUp.smooth Library.initial
    LookupTable.holds_initial rfl rfl rfl

/-- After that the library is ready for probe calls, and no trace is registered. -/
theorem exists_idle_loaded (kernel : Kernel) (filter : AdaptiveFilter) :
    ∃ initialized,
      controllerInitialize kernel StartUp.smooth (Library.loaded filter) = some initialized ∧
      initialized.Idle (Interning.internAll [] eventTypes) (.literal "host") ∧
      initialized.registry.traces = [] ∧ initialized.filter = filter := by
  rcases controllerInitialize_of_unconfigured kernel StartUp.smooth (Library.loaded filter)
    LookupTable.holds_initial rfl rfl rfl with ⟨initialized, done, initializes⟩
  exact ⟨initialized, done, initializes.idle TraceRegistry.wellFormed_initial,
    by rw [initializes.registry]; rfl, initializes.filter⟩

theorem exists_idle (kernel : Kernel) :
    ∃ initialized, controllerInitialize kernel StartUp.smooth Library.initial = some initialized ∧
      initialized.Idle (Interning.internAll [] eventTypes) (.literal "host") ∧
      initialized.registry.traces = [] := by
  rcases exists_idle_loaded kernel AdaptiveFilter.initial with
    ⟨initialized, done, idle, noTraces, -⟩
  exact ⟨initialized, done, idle, noTraces⟩

/-- Where everything succeeds, an initialisation leaves the state of the controller as it was. -/
theorem Library.Initializes.initState_of_accepting {before after : Library} {hostname : CString}
    {known : List CString}
    (initializes : before.Initializes Kernel.accepting StartUp.smooth hostname after known) :
    after.channel.controller.initState = before.channel.controller.initState := by
  rw [initializes.initState]
  apply if_neg
  rw [Kernel.refuses_of_complete (Kernel.completeOn_accepting (by decide))]
  decide

theorem StartUp.connects_smooth : StartUp.smooth.Connects (.literal "host") :=
  ⟨rfl, rfl, by decide, rfl, by decide, rfl⟩

theorem connects_or_fails_smooth :
    ∃ after, controllerInitialize Kernel.accepting StartUp.smooth Library.initial = some after ∧
      ConnectsOrFails Library.initial after := by
  rcases controllerInitialize_connects_or_fails_iff Kernel.accepting StartUp.smooth
    Library.initial LookupTable.holds_initial (by decide) with ⟨after, done, iff⟩
  refine ⟨after, done, iff.mpr (Or.inr fun hErrno mistakes => ?_)⟩
  cases mistakes.2.2.2.1

/--
The host is unknown and its code is 1: the event types are registered on
descriptor 1, where the process has its standard output, and no failure is noted.
-/
theorem host_unknown_not_clean :
    ∃ after, controllerInitialize Kernel.accepting StartUp.hostUnknown Library.initial =
        some after ∧
      after.channel.controller.socket = 1 ∧ ¬ConnectsOrFails Library.initial after := by
  rcases controllerInitialize_of_unconfigured Kernel.accepting StartUp.hostUnknown
    Library.initial LookupTable.holds_initial rfl rfl rfl with ⟨after, done, initializes⟩
  have mistakes : StartUp.hostUnknown.Mistakes 1 := by
    refine ⟨rfl, rfl, ?_, rfl, ?_⟩ <;> decide
  refine ⟨after, done, initializes.socket, ?_⟩
  rw [connectsOrFails_iff_of_mistakes mistakes rfl initializes]
  rintro ⟨-, exitFails | refused⟩
  · exact exitFails rfl
  · rw [Kernel.refuses_of_complete (Kernel.completeOn_accepting (by decide))] at refused
    cases refused

end Kieker
