import Kieker.Probes.Calls

/-!
# What an initialisation does

The answers of the operating system decide which value ends up in the socket
field and which calls are made on the way. After that the event types are
registered on whatever the socket field holds, whether connecting worked or not.
-/

namespace Kieker

namespace StartUp

/-- The value that `kieker_io_client_socket_open` returns. -/
def socketResult (startUp : StartUp) : ℤ :=
  if startUp.socket < 0 then -1
  else
    match startUp.hostError with
    | some hErrno => hErrno
    | none => if startUp.connect < 0 then -1 else startUp.socket

/-- The calls that open the socket. -/
def openCalls (startUp : StartUp) : List Syscall :=
  if startUp.socket < 0 then []
  else
    match startUp.hostError with
    | some _ => [.socket startUp.socket]
    | none =>
        if startUp.connect < 0 then [.socket startUp.socket]
        else [.socket startUp.socket, .connect startUp.socket]

/-- The call that closes the socket again if the exit function cannot be set. -/
def closeCalls (startUp : StartUp) : List Syscall :=
  if startUp.socketResult ≠ -1 ∧ startUp.atexit ≠ 0 then
    [.close (toUShort startUp.socketResult)]
  else []

/-- Connecting, or setting the exit function, fails. -/
def Fails (startUp : StartUp) : Prop :=
  startUp.socketResult = -1 ∨ startUp.atexit ≠ 0

instance (startUp : StartUp) : Decidable startUp.Fails :=
  inferInstanceAs (Decidable (_ ∨ _))

/-- All calls of the initialisation succeed. -/
structure Connects (startUp : StartUp) (hostname : CString) : Prop where
  named : startUp.gethostname = some hostname
  rwlockInit : startUp.rwlockInit = 0
  socket : 0 ≤ startUp.socket
  hostError : startUp.hostError = none
  connect : 0 ≤ startUp.connect
  atexit : startUp.atexit = 0

theorem connected_eq {startUp : StartUp} (socket : 0 ≤ startUp.socket)
    (hostError : startUp.hostError = none) (connect : 0 ≤ startUp.connect) :
    startUp.socketResult = startUp.socket ∧
      startUp.openCalls = [.socket startUp.socket, .connect startUp.socket] := by
  have opened : ¬startUp.socket < 0 := not_lt.mpr socket
  have reached : ¬startUp.connect < 0 := not_lt.mpr connect
  simp only [socketResult, openCalls, opened, hostError, reached, if_false, and_self]

namespace Connects

variable {startUp : StartUp} {hostname : CString}

theorem socketResult_eq (connects : startUp.Connects hostname) :
    startUp.socketResult = startUp.socket :=
  (connected_eq connects.socket connects.hostError connects.connect).1

theorem openCalls_eq (connects : startUp.Connects hostname) :
    startUp.openCalls = [.socket startUp.socket, .connect startUp.socket] :=
  (connected_eq connects.socket connects.hostError connects.connect).2

theorem closeCalls_eq (connects : startUp.Connects hostname) : startUp.closeCalls = [] := by
  simp [closeCalls, connects.atexit]

theorem not_fails (connects : startUp.Connects hostname) : ¬startUp.Fails := by
  have socket := connects.socket
  rintro (noSocket | exitFails)
  · rw [connects.socketResult_eq] at noSocket
    omega
  · exact exitFails connects.atexit

end Connects

theorem fits_gethostname {startUp : StartUp} {hostname : CString}
    (named : startUp.gethostname = some hostname) : hostname.Fits := by
  have short := startUp.length_gethostname_le hostname named
  unfold CString.Fits bufferSize
  omega

end StartUp

variable {kernel : Kernel} {startUp : StartUp} {library : Library} {channel : Channel}
  {known : List CString} {hostname : CString}

/-- `kieker_controller_connect` stores the returned value whether it is a descriptor or not. -/
theorem controllerConnect_eq (startUp : StartUp) (channel : Channel) :
    controllerConnect startUp channel =
      { channel with
        controller := { channel.controller with
          socket := startUp.socketResult
          initState := if startUp.Fails then .failed else channel.controller.initState }
        world := { channel.world with
          log := channel.world.log ++ (startUp.openCalls ++ startUp.closeCalls) } } := by
  have opened : ioClientSocketOpen startUp channel =
      (startUp.socketResult,
        { channel with
          world := { channel.world with log := channel.world.log ++ startUp.openCalls } }) := by
    unfold ioClientSocketOpen StartUp.socketResult StartUp.openCalls
    by_cases noSocket : startUp.socket < 0
    · simp [noSocket]
    · cases hostError : startUp.hostError with
      | some hErrno => simp [noSocket, Channel.record]
      | none =>
          by_cases refused : startUp.connect < 0 <;> simp [noSocket, refused, Channel.record]
  unfold controllerConnect
  rw [opened]
  by_cases noSocket : startUp.socketResult = -1
  · simp [noSocket, StartUp.Fails, StartUp.closeCalls, Channel.setInitState]
  · by_cases exitFails : startUp.atexit = 0
    · simp [noSocket, exitFails, StartUp.Fails, StartUp.closeCalls]
    · simp [noSocket, exitFails, StartUp.Fails, StartUp.closeCalls, Channel.setInitState,
        controllerFinalize, ioSocketClose, Channel.record]

/-- What registering the event types does to a channel. -/
structure Channel.Registers (kernel : Kernel) (before after : Channel) (known : List CString) :
    Prop where
  ready : after.Ready (Interning.internAll known eventTypes)
  log : after.world.log = kernel.offerAll before.controller.socket before.world.log
    (registryPieces known eventTypes)
  clockReads : after.world.clockReads = before.world.clockReads
  socket : after.controller.socket = before.controller.socket
  localHostname : after.controller.localHostname = before.controller.localHostname
  initState : after.controller.initState =
    if kernel.refuses before.controller.socket before.world.log.length
        (registryPieces known eventTypes)
    then .failed else before.controller.initState

theorem stringsAll_eventTypes : Field.stringsAll (eventTypes.map .string) = eventTypes := rfl

theorem usable_eventTypes (known : List CString) : Usable known eventTypes := by
  have short : ∀ name ∈ eventTypes, name.Fits := by decide
  exact fun name name_mem => Or.inr (short name name_mem)

theorem internAll_eventTypes : Interning.internAll [] eventTypes = eventTypes := by
  decide

theorem controllerRegisterEventTypes_of_ready (kernel : Kernel) (ready : channel.Ready known)
    (front : channel.controller.offset = 0) :
    ∃ after, controllerRegisterEventTypes kernel channel = some after ∧
      Channel.Registers kernel channel after known := by
  rcases ready.buffer with ⟨block, allocated, size⟩
  have room : 0 + Field.widthAll (eventTypes.map Field.string) ≤ block.size := by
    rw [size]
    decide
  rcases serializeFields_isSome kernel (eventTypes.map .string) block 0 ready.toServes
    (usable_eventTypes known) room with ⟨⟨position, stored, after⟩, wrote⟩
  rcases serializeFields_eq_some ready.toServes (Nat.zero_le _) wrote with
    ⟨-, -, interns, grown⟩
  rw [stringsAll_eventTypes] at interns
  refine ⟨{ after.setBuffer stored with
    controller := { (after.setBuffer stored).controller with offset := 0 } }, ?_, ?_⟩
  · simp only [controllerRegisterEventTypes, allocated, front, Int.toNat_zero, wrote,
      Option.bind_eq_bind, Option.bind_some]
  · refine ⟨⟨⟨interns.serves.holds, interns.serves.ready⟩, ?_⟩, interns.log, interns.clockReads,
      interns.socket, interns.localHostname, interns.initState⟩
    exact ⟨stored, rfl, grown.size.trans size⟩

/-! ### `kieker_controller_initialize` -/

/-- What an initialisation does that gets as far as connecting. -/
structure Library.Initializes (kernel : Kernel) (startUp : StartUp) (hostname : CString)
    (before after : Library) (known : List CString) : Prop where
  ready : after.channel.Ready (Interning.internAll known eventTypes)
  registry : after.registry =
    { before.registry with currentId := kernel.rand startUp.time % 1000000000 * 2 ^ 8 }
  filter : after.filter = before.filter
  socket : after.channel.controller.socket = startUp.socketResult
  localHostname : after.channel.controller.localHostname = some hostname
  log : after.channel.world.log = kernel.offerAll startUp.socketResult
    (before.channel.world.log ++ (startUp.openCalls ++ startUp.closeCalls))
    (registryPieces known eventTypes)
  clockReads : after.channel.world.clockReads = before.channel.world.clockReads
  initState : after.channel.controller.initState =
    if startUp.Fails ∨ kernel.refuses startUp.socketResult
        (before.channel.world.log ++ (startUp.openCalls ++ startUp.closeCalls)).length
        (registryPieces known eventTypes) = true
    then .failed else before.channel.controller.initState

theorem Library.Initializes.idle {after : Library}
    (initializes : library.Initializes kernel startUp hostname after known)
    (wellFormed : library.registry.WellFormed) :
    after.Idle (Interning.internAll known eventTypes) hostname where
  ready := initializes.ready
  named := initializes.localHostname
  wellFormed := by
    rw [initializes.registry]
    exact ⟨wellFormed.addresses, wellFormed.threads, wellFormed.allocated⟩

/-- The channel when the host name is known and the buffers are allocated. -/
def StartUp.prepare (startUp : StartUp) (hostname : CString) (channel : Channel) : Channel :=
  { channel with
    controller := { controllerSetupBuffer startUp
      (controllerConfigureVariables startUp channel.controller) with
      localHostname := some hostname } }

theorem controllerInitialize_of_unconfigured (kernel : Kernel) (startUp : StartUp)
    (library : Library) (holds : library.channel.lookup.Holds known)
    (unconfigured : library.channel.controller.initState = .unconfigured)
    (named : startUp.gethostname = some hostname) (rwlockInit : startUp.rwlockInit = 0) :
    ∃ after, controllerInitialize kernel startUp library = some after ∧
      library.Initializes kernel startUp hostname after known := by
  have connected := controllerConnect_eq startUp (startUp.prepare hostname library.channel)
  have ready : (controllerConnect startUp
      (startUp.prepare hostname library.channel)).Ready known := by
    rw [connected]
    exact ⟨⟨holds, _, rfl, rfl⟩, _, rfl, rfl⟩
  rcases controllerRegisterEventTypes_of_ready kernel ready (by rw [connected]; rfl) with
    ⟨after, registered, registers⟩
  refine ⟨{ library with
    channel := after
    registry := { library.registry with
      currentId := kernel.rand startUp.time % 1000000000 * 2 ^ 8 } }, ?_, ?_⟩
  · simp only [StartUp.prepare] at registered
    simp [controllerInitialize, unconfigured, controllerObtainLocalHostname, named,
      TraceRegistry.traceInit, rwlockInit, registered]
  · refine ⟨registers.ready, rfl, rfl, ?_, ?_, ?_, ?_, ?_⟩
    · rw [registers.socket, connected]
    · rw [registers.localHostname, connected]
      rfl
    · rw [registers.log, connected]
      rfl
    · rw [registers.clockReads, connected]
      rfl
    · rw [registers.initState, connected]
      by_cases fails : startUp.Fails
      · simp [fails]
      · simp [fails, StartUp.prepare, controllerSetupBuffer, controllerConfigureVariables]

/-- Without a host name or without a lock the initialisation fails before it connects. -/
theorem controllerInitialize_of_early_failure (kernel : Kernel)
    (unconfigured : library.channel.controller.initState = .unconfigured)
    (failure : startUp.gethostname = none ∨ startUp.rwlockInit ≠ 0) :
    ∃ after, controllerInitialize kernel startUp library = some after ∧
      after.channel.controller.initState = .failed ∧
      after.channel.controller.socket = library.channel.controller.socket ∧
      after.channel.world = library.channel.world := by
  unfold controllerInitialize
  rw [if_pos unconfigured]
  cases named : startUp.gethostname with
  | none =>
      simp [controllerObtainLocalHostname, named, Channel.setInitState, controllerSetupBuffer,
        controllerConfigureVariables]
  | some hostname =>
      have noLock := failure.resolve_left (by simp [named])
      simp [controllerObtainLocalHostname, named, TraceRegistry.traceInit, noLock,
        Channel.setInitState, controllerSetupBuffer, controllerConfigureVariables]

end Kieker
