import Kieker.Model.Adaptive
import Kieker.Model.Records
import Kieker.Model.Trace

/-!
# The controller

The life cycle of `kieker_controller.c` and the client socket of `kieker_io.c`.
The calls that an initialisation makes to the operating system get their answers
from a `StartUp`, one field for each.
-/

namespace Kieker

/-- All global variables of the library. -/
structure Library where
  channel : Channel
  registry : TraceRegistry
  filter : AdaptiveFilter

/-- The answers of the operating system to the calls of one initialisation. -/
structure StartUp where
  /-- The values of the environment variables. -/
  getenv : CString → Option CString
  /-- What `malloc` leaves in the two buffers. -/
  mallocBuffer : ℕ → UInt8
  mallocStringBuffer : ℕ → UInt8
  /-- The name that `gethostname` stores, or nothing if it fails. -/
  gethostname : Option CString
  /-- No more than 199 bytes are stored. -/
  length_gethostname_le : ∀ name, gethostname = some name → name.length ≤ 199
  /-- The result of `pthread_rwlock_init`. -/
  rwlockInit : ℤ
  /-- The result of `time`. -/
  time : ℤ
  /-- The result of `socket`. -/
  socket : ℤ
  /-- The value of `h_errno` if `gethostbyname` finds no host. -/
  hostError : Option ℤ
  /-- The result of `connect`. -/
  connect : ℤ
  /-- The result of `atexit`. -/
  atexit : ℤ

/-! ### Configuration -/

/-- The digits at the front of some bytes, read as a decimal number, and how many there are. -/
def readDigits (bytes : List UInt8) : ℕ × ℕ :=
  let digits := bytes.takeWhile fun byte => 48 ≤ byte && byte ≤ 57
  (digits.foldl (fun number byte => 10 * number + (byte.toNat - 48)) 0, digits.length)

/-- `strtol(value, &end, 10)`: the number, or nothing if `end` is left at the start. -/
def strtol (value : CString) : Option ℤ :=
  let bytes := value.bytes.dropWhile isspace
  let (negative, bytes) :=
    match bytes with
    | 45 :: rest => (true, rest)
    | 43 :: rest => (false, rest)
    | _ => (false, bytes)
  let (number, count) := readDigits bytes
  if count = 0 then none
  else if negative then some (max (-number) (-2 ^ 63))
  else some (min number (2 ^ 63 - 1))

/-- `kieker_controller_getenv_string`. -/
def controllerGetenvString (getenv : CString → Option CString) (name defaultValue : CString) :
    CString :=
  match getenv name with
  | none => defaultValue
  | some value => value

/-- `kieker_controller_getenv_ushort`. -/
def controllerGetenvUshort (getenv : CString → Option CString) (name : CString)
    (defaultValue : ℤ) : ℤ :=
  match getenv name with
  | none => defaultValue
  | some value =>
      match strtol value with
      | none => defaultValue
      | some result => if 0 < result ∧ result ≤ 65535 then result else defaultValue

/-- `kieker_controller_configure_variables`. -/
def controllerConfigureVariables (startUp : StartUp) (controller : Controller) : Controller :=
  { controller with
    remoteHostname :=
      some (controllerGetenvString startUp.getenv (.literal "KIEKER_HOSTNAME") (.literal "localhost"))
    remotePort := controllerGetenvUshort startUp.getenv (.literal "KIEKER_PORT") 5678
    eventTypesFilename :=
      some (controllerGetenvString startUp.getenv (.literal "KIEKER_EVENT_TYPE_FILENAME")
        (.literal "~/kieker-event-type-file")) }

/-- `kieker_controller_setup_buffer`. -/
def controllerSetupBuffer (startUp : StartUp) (controller : Controller) : Controller :=
  { controller with
    offset := 0
    buffer := some { size := 8192, byte := startUp.mallocBuffer }
    stringBuffer := some { size := 8192, byte := startUp.mallocStringBuffer } }

/-- `kieker_controller_obtain_local_hostname`. -/
def controllerObtainLocalHostname (kernel : Kernel) (startUp : StartUp) (channel : Channel) :
    Bool × Channel :=
  match startUp.gethostname with
  | none =>
      (false, { channel with
        controller := { channel.controller with
          error := channel.errno kernel
          localHostname := some (.literal "<failed>") } })
  | some name =>
      (true, { channel with
        controller := { channel.controller with localHostname := some name } })

/-! ### The socket -/

namespace Channel

/-- Puts a call on record. -/
def record (channel : Channel) (call : Syscall) : Channel :=
  { channel with world := { channel.world with log := channel.world.log ++ [call] } }

end Channel

/-- `kieker_io_client_socket_open`: the returned value and what was done. -/
def ioClientSocketOpen (startUp : StartUp) (channel : Channel) : ℤ × Channel :=
  if startUp.socket < 0 then (-1, channel)
  else
    let channel := channel.record (.socket startUp.socket)
    match startUp.hostError with
    | some hErrno => (hErrno, channel)
    | none =>
        if startUp.connect < 0 then (-1, channel)
        else (startUp.socket, channel.record (.connect startUp.socket))

/-- `kieker_io_socket_close`, whose parameter is an `unsigned short`. -/
def ioSocketClose (socket : ℤ) (channel : Channel) : Channel :=
  channel.record (.close (toUShort socket))

/-! ### The life cycle -/

namespace Channel

/-- Assigns to `kieker_controller.init_state`. -/
def setInitState (channel : Channel) (initState : InitState) : Channel :=
  { channel with controller := { channel.controller with initState := initState } }

end Channel

/-- `kieker_controller_finalize`. -/
def controllerFinalize (channel : Channel) : Channel :=
  (ioSocketClose channel.controller.socket channel).setInitState .unconfigured

/-- `kieker_controller_connect`. -/
def controllerConnect (startUp : StartUp) (channel : Channel) : Channel :=
  let (socket, channel) := ioClientSocketOpen startUp channel
  let channel := { channel with controller := { channel.controller with socket := socket } }
  if socket ≠ -1 then
    if startUp.atexit ≠ 0 then (controllerFinalize channel).setInitState .failed
    else channel
  else channel.setInitState .failed

/-- The names that `kieker_controller_register_event_types` registers, in order. -/
def eventTypes : List CString :=
  [.literal "kieker.common.record.flow.trace.TraceMetadata",
    .literal "kieker.common.record.flow.trace.operation.BeforeOperationEvent",
    .literal "kieker.common.record.flow.trace.operation.AfterOperationEvent"]

/--
`kieker_controller_register_event_types`: three calls of `kieker_serialize_string`
into the buffer, whose position is then put back to its start.
-/
def controllerRegisterEventTypes (kernel : Kernel) (channel : Channel) : Option Channel := do
  let block ← channel.controller.buffer
  let (_, block, channel) ← serializeFields kernel (eventTypes.map .string) block
    channel.controller.offset.toNat channel
  let channel := channel.setBuffer block
  some { channel with controller := { channel.controller with offset := 0 } }

/-- `kieker_controller_initialize`. -/
def controllerInitialize (kernel : Kernel) (startUp : StartUp) (library : Library) :
    Option Library :=
  if library.channel.controller.initState = .unconfigured then
    let controller := controllerSetupBuffer startUp
      (controllerConfigureVariables startUp library.channel.controller)
    let (obtained, channel) := controllerObtainLocalHostname kernel startUp
      { library.channel with controller := controller }
    if obtained then
      let (created, registry) := library.registry.traceInit kernel startUp.rwlockInit startUp.time
      if created then do
        let channel ← controllerRegisterEventTypes kernel (controllerConnect startUp channel)
        some { library with channel := channel, registry := registry }
      else some { library with channel := channel.setInitState .failed, registry := registry }
    else some { library with channel := channel.setInitState .failed }
  else some library

/-! ### Time and record prefixes -/

/-- `kieker_controller_get_time_ms`, at a given reading of the clock. -/
def timeAt (kernel : Kernel) (reading : ℕ) : ℤ :=
  (kernel.gettimeofday reading).1 * 1000000 + (kernel.gettimeofday reading).2

/-- `kieker_controller_get_time_ms`. -/
def controllerGetTimeMs (kernel : Kernel) (channel : Channel) : ℤ × Channel :=
  (timeAt kernel channel.world.clockReads,
    { channel with world := { channel.world with clockReads := channel.world.clockReads + 1 } })

/-- `kieker_controller_prefix_serialize`: the position behind the prefix. -/
def controllerPrefixSerialize (kernel : Kernel) (id : ℤ) (offset : ℕ) (channel : Channel) :
    Option (ℕ × Channel) := do
  let block ← channel.controller.buffer
  let (size, block) ← serializeInt32 block offset id
  let position := offset + size
  let (time, channel) := controllerGetTimeMs kernel channel
  let (size, block) ← serializeInt64 block position time
  some (position + size, channel.setBuffer block)

end Kieker
