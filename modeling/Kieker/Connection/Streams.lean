import Kieker.Connection.Failures
import Kieker.Library.Steps
import Kieker.Probes.Explaining

/-!
# Streams of several connections

Every initialisation opens a connection and registers the event types on it, but
the string table outlives the connection: what it holds is not announced again,
so a second connection lacks the event types and every string in the table. The
trace map outlives connections as well.
-/

namespace Kieker

/-- A connection that the library opened, and the bytes that arrived on it. -/
structure Connection where
  descriptor : ℤ
  isOpen : Bool
  received : List UInt8

namespace Connection

/-- Bytes accepted on a descriptor arrive on the open connection of that number. -/
def receive (descriptor : ℤ) (bytes : List UInt8) (connection : Connection) : Connection :=
  if connection.isOpen = true ∧ connection.descriptor = descriptor then
    { connection with received := connection.received ++ bytes }
  else connection

/-- Closing a descriptor closes the connection of that number. -/
def close (descriptor : ℤ) (connection : Connection) : Connection :=
  if connection.descriptor = descriptor then { connection with isOpen := false } else connection

/-- What a call does to the connections there are, in the order in which they were opened. -/
def next (connections : List Connection) : Syscall → List Connection
  | .connect descriptor => connections ++ [⟨descriptor, true, []⟩]
  | .write descriptor bytes result =>
      connections.map (receive descriptor (bytes.take result.toNat))
  | .close descriptor => connections.map (close descriptor)
  | .socket _ => connections
  | .applicationOpen _ => connections
  | .applicationClose _ => connections

@[simp]
theorem descriptor_close (descriptor : ℤ) (connection : Connection) :
    (connection.close descriptor).descriptor = connection.descriptor := by
  unfold close
  split <;> rfl

@[simp]
theorem received_close (descriptor : ℤ) (connection : Connection) :
    (connection.close descriptor).received = connection.received := by
  unfold close
  split <;> rfl

theorem isOpen_of_close {descriptor : ℤ} {connection : Connection}
    (stillOpen : (connection.close descriptor).isOpen = true) : connection.isOpen = true := by
  unfold close at stillOpen
  split at stillOpen
  · cases stillOpen
  · exact stillOpen

theorem receive_receive (descriptor : ℤ) (front back : List UInt8) (connection : Connection) :
    (connection.receive descriptor front).receive descriptor back =
      connection.receive descriptor (front ++ back) := by
  by_cases mine : connection.isOpen = true ∧ connection.descriptor = descriptor
  · simp [receive, mine]
  · simp [receive, mine]

theorem receive_nil (descriptor : ℤ) (connection : Connection) :
    connection.receive descriptor [] = connection := by
  simp [receive]

/-- Connections that are closed, or have another number, get nothing. -/
theorem map_receive_of_apart {descriptor : ℤ} {connections : List Connection}
    (apart : ∀ connection ∈ connections, connection.isOpen = true →
      connection.descriptor ≠ descriptor) (bytes : List UInt8) :
    connections.map (receive descriptor bytes) = connections := by
  have same : ∀ connection ∈ connections, connection.receive descriptor bytes = connection := by
    intro connection connection_mem
    apply if_neg
    rintro ⟨isOpen, mine⟩
    exact apart connection connection_mem isOpen mine
  rw [List.map_congr_left same, List.map_id']

theorem foldl_writes (descriptor : ℤ) (pieces : List (List UInt8))
    (connections : List Connection) :
    (pieces.map fun bytes => Syscall.write descriptor bytes bytes.length).foldl next connections =
      connections.map (receive descriptor pieces.flatten) := by
  induction pieces generalizing connections with
  | nil =>
      have same : receive descriptor [] = id := funext (receive_nil descriptor)
      simp [same]
  | cons bytes pieces ih =>
      rw [List.map_cons, List.foldl_cons, ih, next, List.map_map, List.flatten_cons]
      apply List.map_congr_left
      intro connection _
      rw [Function.comp_apply, receive_receive, Int.toNat_natCast, List.take_length]

end Connection

/-! ### Runs -/

/-- What happens to the library in a run of life-cycle calls and plain probes. -/
inductive ConnectionEvent where
  | initialization (startUp : StartUp)
  | finalization
  | call (call : PlainCall)

namespace Library

/-- The connections that were opened so far. -/
def connections (library : Library) : List Connection :=
  library.channel.world.log.foldl Connection.next []

/-- The connection that the socket field stands for. -/
def IsCurrent (library : Library) (connection : Connection) : Prop :=
  connection.isOpen = true ∧ connection.descriptor = library.channel.controller.socket

/-- One event, in which all system calls succeed. -/
inductive ConnectionStep (kernel : Kernel) : Library → ConnectionEvent → Library → Prop
  | initialization {before after : Library} {startUp : StartUp} {hostname : CString}
      (connects : startUp.Connects hostname)
      (fresh : ∀ connection ∈ before.connections, connection.isOpen = true →
        connection.descriptor ≠ startUp.socket)
      (done : controllerInitialize kernel startUp before = some after) :
      ConnectionStep kernel before (.initialization startUp) after
  | finalization {before : Library} :
      ConnectionStep kernel before .finalization
        { before with channel := controllerFinalize before.channel }
  | call {before after : Library} {call : PlainCall} (done : call.run kernel before = some after) :
      ConnectionStep kernel before (.call call) after

/--
Where the streams can be read: a probe call that reaches a connection reaches the
first one that was opened, and a thread that leaves an operation there has a trace.
-/
def FirstOnly (library : Library) : ConnectionEvent → Prop
  | .initialization _ => True
  | .finalization => True
  | .call call => ∀ front connection back, library.connections = front ++ connection :: back →
      library.IsCurrent connection → front = [] ∧ call.HasTrace library.registry

/-- No connection was opened yet, and nothing was allocated. -/
structure Unconnected (library : Library) : Prop where
  noConnection : library.connections = []
  unallocated : library.channel.controller.buffer = none
  holds : library.channel.lookup.Holds []
  wellFormed : library.registry.WellFormed
  traceless : library.registry.traces = []

/-- Connections were opened, of which only the first has received anything. -/
structure Connected (library : Library) (first : Connection) (others : List Connection)
    (known : List CString) (hostname : CString) : Prop where
  connections : library.connections = first :: others
  idle : library.Idle known hostname
  typed : eventTypes <+: known
  nonneg : 0 ≤ library.channel.controller.socket
  silent : ∀ connection ∈ others, connection.received = []
  apart : first.isOpen = true → ∀ connection ∈ others, connection.isOpen = true →
    connection.descriptor ≠ first.descriptor
  selfContained : SelfContained first.received
  explained : library.IsCurrent first → ∃ entries,
    Entry.codec.encodeAll entries = first.received ∧ Explains entries known library.registry

/-- The invariant of runs that keep to the first connection. -/
structure Streams (library : Library) : Prop where
  unconfigured : library.channel.controller.initState = .unconfigured
  state : library.Unconnected ∨
    ∃ first others known hostname, library.Connected first others known hostname

end Library

variable {kernel : Kernel} {library after : Library} {startUp : StartUp} {known : List CString}
  {hostname : CString} {call : PlainCall}

/-! ### Before the first connection -/

theorem buildRecord_of_unallocated {channel : Channel}
    (unallocated : channel.controller.buffer = none) (id : ℤ) (fields : List Field)
    (position : ℕ) : buildRecord kernel id fields position channel = none := by
  simp [buildRecord, controllerPrefixSerialize, unallocated]

/-- Without a buffer there is nowhere to build a record. -/
theorem PlainCall.run_of_unallocated (unallocated : library.channel.controller.buffer = none) :
    call.run kernel library ≠ some after := by
  intro done
  cases call with
  | before self classSignature operationSignature =>
      simp only [run, probeBeforeOperationEvent, Option.bind_eq_bind, Option.bind_eq_some_iff,
        Option.some.injEq] at done
      rcases done with ⟨trace, -, ⟨first, middle⟩, opened, _, -, _, created, -⟩
      unfold probeOpenTrace at opened
      split at opened
      · cases named : library.channel.controller.localHostname with
        | none => simp [probeCreateTraceMetadata, named] at opened
        | some hostname =>
            rw [probeCreateTraceMetadata_eq named, buildRecord_of_unallocated unallocated] at opened
            cases opened
      · rw [Option.some.injEq, Prod.mk.injEq] at opened
        rcases opened with ⟨-, rfl⟩
        have nothing := @buildRecord_of_unallocated kernel
          (controllerGetTimeMs kernel library.channel).2 unallocated flowBeforeOperation
        exact absurd created (by
          intro built
          have impossible := (nothing _ _).symm.trans built
          cases impossible)
  | after self classSignature operationSignature =>
      simp only [run, probeAfterOperationEvent, Option.bind_eq_bind, Option.bind_eq_some_iff,
        Option.some.injEq] at done
      rcases done with ⟨trace, -, _, created, -⟩
      have nothing := @buildRecord_of_unallocated kernel
        (controllerGetTimeMs kernel library.channel).2 unallocated flowAfterOperation
      have impossible := (nothing _ _).symm.trans created
      cases impossible

/-! ### One step -/

theorem Library.connections_of_log {calls : List Syscall}
    (log : after.channel.world.log = library.channel.world.log ++ calls) :
    after.connections = calls.foldl Connection.next library.connections := by
  rw [connections, log, List.foldl_append]
  rfl

theorem Library.connections_finalize (library : Library) :
    Library.connections { library with channel := controllerFinalize library.channel } =
      library.connections.map (Connection.close (toUShort library.channel.controller.socket)) := by
  have log : (controllerFinalize library.channel).world.log = library.channel.world.log ++
      [.close (toUShort library.channel.controller.socket)] := rfl
  rw [@Library.connections_of_log library { library with
    channel := controllerFinalize library.channel } _ log]
  rfl

theorem Library.Unconnected.finalization (unconnected : library.Unconnected) :
    Library.Unconnected { library with channel := controllerFinalize library.channel } where
  noConnection := by
    rw [Library.connections_finalize, unconnected.noConnection]
    rfl
  unallocated := unconnected.unallocated
  holds := unconnected.holds
  wellFormed := unconnected.wellFormed
  traceless := unconnected.traceless

/-- With complete writes nothing changes the state of the initialisation. -/
theorem Library.Initializes.unconfigured
    (initializes : library.Initializes kernel startUp hostname after known)
    (connects : startUp.Connects hostname) (complete : kernel.CompleteOn startUp.socket)
    (before : library.channel.controller.initState = .unconfigured) :
    after.channel.controller.initState = .unconfigured := by
  rw [initializes.initState, connects.socketResult_eq, Kernel.refuses_of_complete complete, before]
  simp [connects.not_fails]

/-- An initialisation opens a connection and registers what the table does not hold yet. -/
theorem Library.Initializes.connections
    (initializes : library.Initializes kernel startUp hostname after known)
    (connects : startUp.Connects hostname) (complete : kernel.CompleteOn startUp.socket)
    (fresh : ∀ connection ∈ library.connections, connection.isOpen = true →
      connection.descriptor ≠ startUp.socket) :
    after.connections = library.connections ++
      [⟨startUp.socket, true, (registryPieces known eventTypes).flatten⟩] := by
  have log := initializes.log
  rw [connects.socketResult_eq, connects.openCalls_eq, connects.closeCalls_eq,
    Kernel.offerAll_of_complete complete, List.append_nil, List.append_assoc] at log
  rw [Library.connections_of_log log, List.foldl_append, Connection.foldl_writes]
  have opened : [Syscall.socket startUp.socket, .connect startUp.socket].foldl Connection.next
      library.connections = library.connections ++ [⟨startUp.socket, true, []⟩] := rfl
  rw [opened, List.map_append, Connection.map_receive_of_apart fresh]
  simp [Connection.receive]

/-- What a call offers arrives on the connection that the socket field stands for. -/
theorem PlainCall.connections (idle : library.Idle known hostname)
    (complete : kernel.CompleteOn library.channel.controller.socket)
    (done : call.run kernel library = some after) :
    after.connections = library.connections.map (Connection.receive
      library.channel.controller.socket
      (Entry.codec.encodeAll ((call.emission kernel hostname library).entries known))) := by
  have emits := (call.calls idle done).emits
  have log := emits.log
  rw [Kernel.offerAll_of_complete complete] at log
  rw [Library.connections_of_log log, Connection.foldl_writes,
    Emission.encodeAll_entries emits.usable]

theorem Library.Unconnected.initialization (unconnected : library.Unconnected)
    (initializes : library.Initializes kernel startUp hostname after [])
    (connects : startUp.Connects hostname) (complete : kernel.CompleteOn startUp.socket) :
    ∃ first, after.Connected first [] eventTypes hostname := by
  have connections := initializes.connections connects complete
    (by simp [unconnected.noConnection])
  have idle := initializes.idle unconnected.wellFormed
  have traces : after.registry.traces = [] := by
    rw [initializes.registry]
    exact unconnected.traceless
  have explains : Explains (registryEntries [] eventTypes) eventTypes after.registry := by
    have nothing : Explains [] [] after.registry :=
      ⟨.nil, .nil _, by simp [traces]⟩
    have registered := nothing.register eventTypes
    rwa [internAll_eventTypes, List.nil_append] at registered
  have encoded := encodeAll_registryEntries (usable_eventTypes [])
  rw [internAll_eventTypes] at idle
  rw [unconnected.noConnection, List.nil_append] at connections
  refine ⟨_, connections, idle, List.prefix_rfl, ?_, by simp, by simp, ?_, ?_⟩
  · rw [initializes.socket, connects.socketResult_eq]
    exact connects.socket
  · rw [← encoded, selfContained_encodeAll]
    exact explains.inOrder
  · intro _
    exact ⟨_, encoded, explains⟩

namespace Library.Connected

variable {first : Connection} {others : List Connection}

theorem finalization (connected : library.Connected first others known hostname) :
    ∃ first others, Library.Connected
      { library with channel := controllerFinalize library.channel } first others known
        hostname := by
  have connections := library.connections_finalize
  rw [connected.connections, List.map_cons] at connections
  refine ⟨_, _, connections, ⟨⟨⟨connected.idle.ready.holds, connected.idle.ready.ready⟩,
    connected.idle.ready.buffer⟩, connected.idle.named, connected.idle.wellFormed⟩,
    connected.typed, connected.nonneg, ?_, ?_, ?_, ?_⟩
  · intro connection connection_mem
    rcases List.mem_map.mp connection_mem with ⟨other, other_mem, rfl⟩
    rw [Connection.received_close]
    exact connected.silent other other_mem
  · intro firstOpen connection connection_mem isOpen
    rcases List.mem_map.mp connection_mem with ⟨other, other_mem, rfl⟩
    rw [Connection.descriptor_close, Connection.descriptor_close]
    exact connected.apart (Connection.isOpen_of_close firstOpen) other other_mem
      (Connection.isOpen_of_close isOpen)
  · rw [Connection.received_close]
    exact connected.selfContained
  · rintro ⟨isOpen, mine⟩
    rw [Connection.descriptor_close] at mine
    rw [Connection.received_close]
    exact connected.explained ⟨Connection.isOpen_of_close isOpen, mine⟩

/-- A further initialisation opens a connection on which nothing is registered. -/
theorem initialization (connected : library.Connected first others known hostname)
    {laterHostname : CString}
    (initializes : library.Initializes kernel startUp laterHostname after known)
    (connects : startUp.Connects laterHostname) (complete : kernel.CompleteOn startUp.socket)
    (fresh : ∀ connection ∈ library.connections, connection.isOpen = true →
      connection.descriptor ≠ startUp.socket) :
    ∃ others, after.Connected first others known laterHostname := by
  have connections := initializes.connections connects complete fresh
  rcases Interning.of_subset connected.typed.subset with ⟨sameTable, nothing⟩
  have silent : registryPieces known eventTypes = [] := by
    rw [registryPieces, nothing, List.map_nil]
  have idle := initializes.idle connected.idle.wellFormed
  rw [sameTable] at idle
  rw [connected.connections, silent, List.cons_append] at connections
  rw [connected.connections] at fresh
  refine ⟨_, connections, idle, connected.typed, ?_, ?_, ?_, connected.selfContained, ?_⟩
  · rw [initializes.socket, connects.socketResult_eq]
    exact connects.socket
  · intro connection connection_mem
    rcases List.mem_append.mp connection_mem with old | new
    · exact connected.silent connection old
    · rw [List.mem_singleton.mp new]
      rfl
  · intro firstOpen connection connection_mem isOpen
    rcases List.mem_append.mp connection_mem with old | new
    · exact connected.apart firstOpen connection old isOpen
    · rw [List.mem_singleton.mp new]
      exact (fresh first List.mem_cons_self firstOpen).symm
  · rintro ⟨isOpen, mine⟩
    rw [initializes.socket, connects.socketResult_eq] at mine
    exact absurd mine (fresh first List.mem_cons_self isOpen)

theorem call_of_not_current (connected : library.Connected first others known hostname)
    (complete : kernel.CompleteOn library.channel.controller.socket)
    (done : call.run kernel library = some after)
    (notCurrent : ∀ connection ∈ library.connections, ¬library.IsCurrent connection) :
    ∃ known, after.Connected first others known hostname := by
  have called := call.calls connected.idle done
  have connections := call.connections connected.idle complete done
  rw [connected.connections] at connections
  have apart : ∀ connection ∈ first :: others, connection.isOpen = true →
      connection.descriptor ≠ library.channel.controller.socket := by
    intro connection connection_mem isOpen mine
    rw [connected.connections] at notCurrent
    exact notCurrent connection connection_mem ⟨isOpen, mine⟩
  rw [Connection.map_receive_of_apart apart] at connections
  refine ⟨_, connections, call.idle connected.idle done,
    connected.typed.trans (Interning.prefix_internAll _ _), ?_, connected.silent, connected.apart,
    connected.selfContained, ?_⟩
  · rw [called.emits.socket]
    exact connected.nonneg
  · rintro ⟨isOpen, mine⟩
    rw [called.emits.socket] at mine
    exact absurd mine (apart first List.mem_cons_self isOpen)

/-- What arrives on the first connection keeps up the explanation. -/
theorem call_of_current (connected : library.Connected first others known hostname)
    (complete : kernel.CompleteOn library.channel.controller.socket)
    (done : call.run kernel library = some after) (current : library.IsCurrent first)
    (hasTrace : call.HasTrace library.registry) :
    ∃ first known, after.Connected first others known hostname := by
  have called := call.calls connected.idle done
  have connections := call.connections connected.idle complete done
  rw [connected.connections] at connections
  have apart : ∀ connection ∈ others, connection.isOpen = true →
      connection.descriptor ≠ library.channel.controller.socket := by
    rw [← current.2]
    exact connected.apart current.1
  have arrived : ∀ bytes, first.receive library.channel.controller.socket bytes =
      { first with received := first.received ++ bytes } := fun _ => if_pos current
  rw [List.map_cons, Connection.map_receive_of_apart apart, arrived] at connections
  rcases connected.explained current with ⟨entries, encoded, explains⟩
  have explainsMore := @Explains.call kernel library entries known hostname call explains
    connected.idle.wellFormed connected.typed hasTrace
  have received := Codec.encodeAll_append Entry.codec entries
    ((call.emission kernel hostname library).entries known)
  rw [encoded] at received
  refine ⟨_, _, connections, call.idle connected.idle done,
    connected.typed.trans (Interning.prefix_internAll _ _), ?_, connected.silent, ?_, ?_, ?_⟩
  · rw [called.emits.socket]
    exact connected.nonneg
  · intro _
    exact connected.apart current.1
  · rw [← received, selfContained_encodeAll]
    exact explainsMore.inOrder
  · intro _
    rw [called.registry]
    exact ⟨_, received, explainsMore⟩

end Library.Connected

theorem Library.Streams.step {event : ConnectionEvent} (streams : library.Streams)
    (complete : ∀ descriptor, 0 ≤ descriptor → kernel.CompleteOn descriptor)
    (firstOnly : library.FirstOnly event)
    (stepped : Library.ConnectionStep kernel library event after) :
    after.Streams := by
  cases stepped with
  | finalization =>
      refine ⟨rfl, ?_⟩
      rcases streams.state with unconnected | ⟨first, others, known, hostname, connected⟩
      · exact Or.inl unconnected.finalization
      · rcases connected.finalization with ⟨first, others, later⟩
        exact Or.inr ⟨first, others, known, hostname, later⟩
  | @initialization _ startUp hostname connects fresh done =>
      have completeHere := complete startUp.socket connects.socket
      rcases streams.state with unconnected | ⟨first, others, known, older, connected⟩
      · rcases controllerInitialize_of_unconfigured kernel startUp library unconnected.holds
          streams.unconfigured connects.named connects.rwlockInit with ⟨_, initialized, initializes⟩
        rw [done, Option.some.injEq] at initialized
        subst initialized
        rcases unconnected.initialization initializes connects completeHere with ⟨first, connected⟩
        exact ⟨initializes.unconfigured connects completeHere streams.unconfigured,
          Or.inr ⟨first, [], eventTypes, hostname, connected⟩⟩
      · rcases controllerInitialize_of_unconfigured kernel startUp library
          connected.idle.ready.holds streams.unconfigured connects.named connects.rwlockInit with
          ⟨_, initialized, initializes⟩
        rw [done, Option.some.injEq] at initialized
        subst initialized
        rcases connected.initialization initializes connects completeHere fresh with ⟨others, later⟩
        exact ⟨initializes.unconfigured connects completeHere streams.unconfigured,
          Or.inr ⟨first, others, known, hostname, later⟩⟩
  | @call _ call done =>
      rcases streams.state with unconnected | ⟨first, others, known, hostname, connected⟩
      · exact absurd done (PlainCall.run_of_unallocated unconnected.unallocated)
      · have completeHere := complete _ connected.nonneg
        have emits := (call.calls connected.idle done).emits
        refine ⟨?_, Or.inr ?_⟩
        · rw [emits.initState, Kernel.refuses_of_complete completeHere]
          exact streams.unconfigured
        · by_cases current : library.IsCurrent first
          · have hasTrace := (firstOnly [] first others connected.connections current).2
            rcases connected.call_of_current completeHere done current hasTrace with
              ⟨first, known, later⟩
            exact ⟨first, others, known, hostname, later⟩
          · have notCurrent : ∀ connection ∈ library.connections,
                ¬library.IsCurrent connection := by
              intro connection connection_mem isCurrent
              rcases List.append_of_mem connection_mem with ⟨front, back, split⟩
              have isFirst := (firstOnly front connection back split isCurrent).1
              rw [isFirst, connected.connections, List.nil_append, List.cons.injEq] at split
              rw [split.1] at current
              exact current isCurrent
            rcases connected.call_of_not_current completeHere done notCurrent with ⟨known, later⟩
            exact ⟨first, others, known, hostname, later⟩

theorem Library.streams_loaded (filter : AdaptiveFilter) :
    (Library.loaded filter).Streams where
  unconfigured := rfl
  state := Or.inl ⟨rfl, rfl, LookupTable.holds_initial, TraceRegistry.wellFormed_initial, rfl⟩

theorem Library.Streams.selfContained (streams : library.Streams) :
    ∀ connection ∈ library.connections, SelfContained connection.received := by
  intro connection connection_mem
  rcases streams.state with unconnected | ⟨first, others, known, hostname, connected⟩
  · rw [unconnected.noConnection] at connection_mem
    cases connection_mem
  · rw [connected.connections] at connection_mem
    rcases List.mem_cons.mp connection_mem with rfl | other
    · exact connected.selfContained
    · rw [connected.silent connection other]
      exact selfContained_nil

/--
In a run of initialisations, finalisations and plain probe calls with complete
writes, in which probe calls reach no other connection than the first, and leave
operations there only in threads that have a trace, every connection can be read
on its own.
-/
theorem first_connection_steps_self_contained {filter : AdaptiveFilter}
    {events : List ConnectionEvent} {finish : Library}
    (complete : ∀ descriptor, 0 ≤ descriptor → kernel.CompleteOn descriptor)
    (run : Steps (fun before event after => before.FirstOnly event ∧
      Library.ConnectionStep kernel before event after)
      (Library.loaded filter) events finish) :
    ∀ connection ∈ finish.connections, SelfContained connection.received :=
  Library.Streams.selfContained (run.invariant
    (fun streams stepped => streams.step complete stepped.1 stepped.2)
    (Library.streams_loaded filter))

/-! ### The first connection and the second -/

/-- A call that enters the main function. -/
def entersMain : PlainCall := .before 0 (.literal "Main") (.literal "int main()")

theorem first_event_self_contained :
    ∃ finish, Steps (fun before event after => before.FirstOnly event ∧
        Library.ConnectionStep Kernel.accepting before event after)
        (Library.loaded AdaptiveFilter.initial)
        [.initialization StartUp.smooth, .call entersMain] finish ∧
      ∀ connection ∈ finish.connections, SelfContained connection.received := by
  rcases exists_initialized Kernel.accepting with ⟨library, done, initializes⟩
  have idle := initializes.idle TraceRegistry.wellFormed_initial
  rcases PlainCall.run_isSome Kernel.accepting idle (by decide)
    (show ∀ signature ∈ entersMain.signatures, signature.Fits by decide) with ⟨finish, entered⟩
  have fresh : ∀ connection ∈ (Library.loaded AdaptiveFilter.initial).connections,
      connection.isOpen = true → connection.descriptor ≠ StartUp.smooth.socket :=
    fun _ none => absurd none List.not_mem_nil
  have opened : library.connections = [_] := initializes.connections StartUp.connects_smooth
    (Kernel.completeOn_accepting (by decide)) fresh
  have firstOnly : library.FirstOnly (.call entersMain) := by
    intro front connection back split _
    refine ⟨?_, trivial⟩
    rw [opened] at split
    cases front with
    | nil => rfl
    | cons other front => simp at split
  have run : Steps (fun before event after => Library.FirstOnly before event ∧
      Library.ConnectionStep Kernel.accepting before event after)
      (Library.loaded AdaptiveFilter.initial)
      [.initialization StartUp.smooth, .call entersMain] finish :=
    .cons ⟨trivial, .initialization StartUp.connects_smooth fresh done⟩
      (.single ⟨firstOnly, .call entered⟩)
  refine ⟨finish, run, first_connection_steps_self_contained ?_ run⟩
  exact fun _ nonneg => Kernel.completeOn_accepting nonneg

/-- The strings of the first event of a trace, which a second connection gets to see first. -/
theorem strings_entersMain {library : Library}
    (new : (library.registry.current kernel 0).orderIndex = -1) :
    (beforeEmission kernel (.literal "host") 0 (.literal "Main") (.literal "int main()")
      library).strings = [.literal "<no-session>", .literal "host", .literal "int main()",
        .literal "Main"] := by
  rw [Emission.strings, beforeEmission, openingLogged, if_pos new]
  rfl

/-- Without the event types a record on a connection has no meaning. -/
theorem not_selfContained_entersMain {library : Library}
    (new : (library.registry.current kernel 0).orderIndex = -1) :
    ¬SelfContained (Entry.codec.encodeAll ((beforeEmission kernel (.literal "host") 0
      (.literal "Main") (.literal "int main()") library).entries eventTypes)) := by
  intro selfContained
  have built : (beforeEmission kernel (.literal "host") 0 (.literal "Main") (.literal "int main()")
      library).built = openingLogged kernel (.literal "host") library.channel.world.clockReads
        (library.registry.current kernel 0) ++ [_] := rfl
  rw [selfContained_encodeAll, Emission.entries_concat rfl built, strings_entersMain new,
    openingLogged, if_pos new, List.append_assoc] at selfContained
  have used : WireName.string 0 ∈ ((metadataLogged kernel (.literal "host")
      library.channel.world.clockReads (library.registry.current kernel 0)).entry
        (Interning.internAll eventTypes [.literal "<no-session>", .literal "host",
          .literal "int main()", .literal "Main"])).uses :=
    List.mem_append_left _ (List.mem_map.mpr ⟨_, List.mem_cons_self, rfl⟩)
  rcases selfContained _ _ _ rfl _ used with ⟨entry, isEntry, isDeclared⟩
  revert entry
  decide

/--
A process finalises the library, initialises it again and enters an operation.
The event types are in the table by then, so the second connection never gets them.
-/
theorem second_connection_lacks_event_types :
    ∃ finish, Steps (Library.ConnectionStep Kernel.accepting)
        (Library.loaded AdaptiveFilter.initial)
        [.initialization StartUp.smooth, .finalization, .initialization StartUp.smooth,
          .call entersMain] finish ∧
      ∃ connection ∈ finish.connections, ¬SelfContained connection.received := by
  have complete : Kernel.accepting.CompleteOn StartUp.smooth.socket :=
    Kernel.completeOn_accepting (by decide)
  rcases exists_initialized Kernel.accepting with ⟨first, done, initializes⟩
  have fresh : ∀ connection ∈ (Library.loaded AdaptiveFilter.initial).connections,
      connection.isOpen = true → connection.descriptor ≠ StartUp.smooth.socket :=
    fun _ none => absurd none List.not_mem_nil
  have opened : first.connections = [_] :=
    initializes.connections StartUp.connects_smooth complete fresh
  have idle := initializes.idle TraceRegistry.wellFormed_initial
  rw [internAll_eventTypes] at idle
  -- The finalisation closes the only connection.
  let closed : Library := { first with channel := controllerFinalize first.channel }
  have closedConnections := first.connections_finalize
  rw [opened, List.map_singleton, initializes.socket] at closedConnections
  have freshAgain : ∀ connection ∈ closed.connections, connection.isOpen = true →
      connection.descriptor ≠ StartUp.smooth.socket := by
    intro connection connection_mem isOpen
    rw [closedConnections, List.mem_singleton] at connection_mem
    rw [connection_mem] at isOpen
    cases isOpen
  rcases controllerInitialize_of_unconfigured Kernel.accepting StartUp.smooth closed
    idle.ready.holds rfl rfl rfl with ⟨second, doneAgain, reinitializes⟩
  have openedAgain := reinitializes.connections StartUp.connects_smooth complete freshAgain
  have secondIdle := reinitializes.idle idle.wellFormed
  rcases Interning.of_subset (List.Subset.refl eventTypes) with ⟨sameTypes, noneNew⟩
  rw [sameTypes] at secondIdle
  rcases PlainCall.run_isSome Kernel.accepting secondIdle (by decide)
    (show ∀ signature ∈ entersMain.signatures, signature.Fits by decide) with ⟨finish, entered⟩
  refine ⟨finish, .cons (.initialization StartUp.connects_smooth fresh done) (.cons .finalization
    (.cons (.initialization StartUp.connects_smooth freshAgain doneAgain)
      (.single (.call entered)))), ?_⟩
  have noTraces : first.registry.traces = [] := by
    rw [initializes.registry]
    rfl
  have stillNoTraces : second.registry.traces = [] := by
    rw [reinitializes.registry]
    exact noTraces
  have new : (second.registry.current Kernel.accepting 0).orderIndex = -1 := by
    rw [TraceRegistry.current_of_notMem (by simp [stillNoTraces])]
    rfl
  have onSocket : second.channel.controller.socket = StartUp.smooth.socket := reinitializes.socket
  have nothing : registryPieces eventTypes eventTypes = [] := by
    rw [registryPieces, noneNew, List.map_nil]
  have arrived := entersMain.connections secondIdle (by rw [onSocket]; exact complete) entered
  rw [openedAgain, nothing, onSocket, List.map_append] at arrived
  refine ⟨_, by rw [arrived]; exact List.mem_append_right _ (List.mem_singleton.mpr rfl), ?_⟩
  exact not_selfContained_entersMain new

end Kieker
