import Kieker.Application.Calls
import Kieker.Connection.Streams
import Kieker.Wire.Receiver
import Mathlib.Data.List.ModifyLast

/-!
# A receiver that keeps its strings

A later connection does not explain the strings that were announced on an earlier
one. But the string table and a receiver that keeps what was registered stay in
step: read one after another, the connections are one stream, and the records of
each connection are those that were sent while it was the latest.
-/

namespace Kieker

/-- Reads connections one after another, and keeps the strings that were registered. -/
def Registry.receiveAll : Registry → List (List Entry) →
    Option (Registry × List (List ReceivedRecord))
  | registry, [] => some (registry, [])
  | registry, entries :: others => do
      let (later, records) ← registry.receive entries
      let (last, rest) ← receiveAll later others
      some (last, records :: rest)

theorem Registry.receiveAll_concat (registry : Registry) (front : List (List Entry))
    (entries : List Entry) :
    registry.receiveAll (front ++ [entries]) = (registry.receiveAll front).bind fun middle =>
      (middle.1.receive entries).map fun last => (last.1, middle.2 ++ [last.2]) := by
  induction front generalizing registry with
  | nil =>
      cases received : registry.receive entries with
      | none => simp [receiveAll, received]
      | some last => simp [receiveAll, received]
  | cons stream front ih =>
      cases received : registry.receive stream with
      | none => simp [receiveAll, received]
      | some later =>
          simp only [List.cons_append, receiveAll, received, Option.bind_eq_bind,
            Option.bind_some, ih, Option.bind_assoc]
          congr 1
          funext middle
          cases middle.1.receive entries with
          | none => rfl
          | some last => rfl

/-- The library, with the records sent on each of its connections. -/
structure Sessions where
  library : Library
  sent : List (List Logged)

namespace Sessions

/-- No connection was opened yet. -/
def start (library : Library) : Sessions where
  library := library
  sent := []

/-- One event, in which all system calls succeed; probes are called while there is a connection. -/
inductive Step (kernel : Kernel) : Sessions → ConnectionEvent → Sessions → Prop
  | initialization {sessions : Sessions} {after : Library} {startUp : StartUp}
      (stepped : Library.ConnectionStep kernel sessions.library (.initialization startUp) after) :
      Step kernel sessions (.initialization startUp) ⟨after, sessions.sent ++ [[]]⟩
  | finalization {sessions : Sessions} {after : Library}
      (stepped : Library.ConnectionStep kernel sessions.library .finalization after) :
      Step kernel sessions .finalization ⟨after, sessions.sent⟩
  | call {sessions : Sessions} {after : Library} {call : PlainCall}
      (stepped : Library.ConnectionStep kernel sessions.library (.call call) after)
      (connected : ∃ connection ∈ sessions.library.connections,
        sessions.library.IsCurrent connection) :
      Step kernel sessions (.call call) ⟨after, sessions.sent.modifyLast fun records =>
        records ++ (call.emission kernel sessions.library.hostname sessions.library).records⟩

/-- Connections were opened; only the latest one can still receive anything. -/
structure Carries (sessions : Sessions) (earlier : List Connection) (latest : Connection)
    (told : List (List Logged)) (latestTold : List Logged) (known : List CString)
    (hostname : CString) : Prop where
  connections : sessions.library.connections = earlier ++ [latest]
  sent : sessions.sent = told ++ [latestTold]
  idle : sessions.library.Idle known hostname
  typed : eventTypes <+: known
  nonneg : 0 ≤ sessions.library.channel.controller.socket
  number : latest.descriptor = sessions.library.channel.controller.socket
  apart : ∀ connection ∈ earlier, connection.isOpen = true →
    connection.descriptor ≠ sessions.library.channel.controller.socket
  received : known.length ≤ 2 ^ 31 → ∃ streams stream middle last,
    earlier.map Connection.received = streams.map Entry.codec.encodeAll ∧
    latest.received = Entry.codec.encodeAll stream ∧
    Registry.empty.receiveAll streams = some (middle, told.map (List.map Logged.received)) ∧
    middle.receive stream = some (last, latestTold.map Logged.received) ∧
    Registry.Holds last known

/-- The invariant of runs in which probes are called while there is a connection. -/
structure Resumes (sessions : Sessions) : Prop where
  unconfigured : sessions.library.channel.controller.initState = .unconfigured
  state : (sessions.library.Unconnected ∧ sessions.sent = []) ∨
    ∃ earlier latest told latestTold known hostname,
      sessions.Carries earlier latest told latestTold known hostname

end Sessions

variable {kernel : Kernel} {library after : Library} {sessions later : Sessions}
  {earlier : List Connection} {latest : Connection} {told : List (List Logged)}
  {latestTold : List Logged} {known : List CString} {hostname laterHostname : CString}
  {startUp : StartUp} {call : PlainCall}

/-! ### One step -/

theorem Library.ConnectionStep.initializes
    (stepped : Library.ConnectionStep kernel library (.initialization startUp) after)
    (holds : library.channel.lookup.Holds known)
    (unconfigured : library.channel.controller.initState = .unconfigured) :
    ∃ hostname, startUp.Connects hostname ∧
      (∀ connection ∈ library.connections, connection.isOpen = true →
        connection.descriptor ≠ startUp.socket) ∧
      library.Initializes kernel startUp hostname after known := by
  cases stepped with
  | @initialization _ _ hostname connects fresh done =>
      rcases controllerInitialize_of_unconfigured kernel startUp library holds unconfigured
        connects.named connects.rwlockInit with ⟨_, initialized, initializes⟩
      rw [done, Option.some.injEq] at initialized
      subst initialized
      exact ⟨hostname, connects, fresh, initializes⟩

/-- A connection that starts from an empty table gets the event types. -/
theorem Library.Unconnected.carries (unconnected : library.Unconnected)
    (initializes : library.Initializes kernel startUp hostname after [])
    (connects : startUp.Connects hostname) (complete : kernel.CompleteOn startUp.socket) :
    ∃ latest, Sessions.Carries ⟨after, [[]]⟩ [] latest [] [] eventTypes hostname := by
  have connections := initializes.connections connects complete
    (by simp [unconnected.noConnection])
  have idle := initializes.idle unconnected.wellFormed
  rw [internAll_eventTypes] at idle
  rw [unconnected.noConnection] at connections
  have onSocket : after.channel.controller.socket = startUp.socket := by
    rw [initializes.socket, connects.socketResult_eq]
  have usable := usable_eventTypes []
  refine ⟨_, connections, rfl, idle, List.prefix_rfl, ?_, onSocket.symm, by simp, ?_⟩
  · rw [onSocket]
    exact connects.socket
  · intro few
    rw [← internAll_eventTypes] at few
    rcases Registry.receive_registryEntries Registry.holds_empty usable few with
      ⟨last, received, holds⟩
    rw [internAll_eventTypes] at holds
    exact ⟨[], registryEntries [] eventTypes, Registry.empty, last, rfl,
      (encodeAll_registryEntries usable).symm, rfl, received, holds⟩

namespace Sessions.Carries

theorem finalization (carries : sessions.Carries earlier latest told latestTold known hostname) :
    Carries ⟨{ sessions.library with channel := controllerFinalize sessions.library.channel },
        sessions.sent⟩
      (earlier.map (Connection.close (toUShort sessions.library.channel.controller.socket)))
      (latest.close (toUShort sessions.library.channel.controller.socket)) told latestTold known
      hostname := by
  have connections := sessions.library.connections_finalize
  rw [carries.connections, List.map_append, List.map_singleton] at connections
  refine ⟨connections, carries.sent, ⟨⟨⟨carries.idle.ready.holds, carries.idle.ready.ready⟩,
    carries.idle.ready.buffer⟩, carries.idle.named, carries.idle.wellFormed⟩, carries.typed,
    carries.nonneg, ?_, ?_, ?_⟩
  · rw [Connection.descriptor_close]
    exact carries.number
  · intro connection connection_mem isOpen
    rcases List.mem_map.mp connection_mem with ⟨other, other_mem, rfl⟩
    rw [Connection.descriptor_close]
    exact carries.apart other other_mem (Connection.isOpen_of_close isOpen)
  · intro few
    rcases carries.received few with ⟨streams, stream, middle, last, arrived, latestArrived, rest⟩
    refine ⟨streams, stream, middle, last, ?_, ?_, rest⟩
    · rw [List.map_map, ← arrived]
      apply List.map_congr_left
      intro connection _
      exact Connection.received_close _ connection
    · rw [Connection.received_close]
      exact latestArrived

/-- A further connection gets nothing before a probe is called: the table knows the event types. -/
theorem initialization (carries : sessions.Carries earlier latest told latestTold known hostname)
    (initializes : sessions.library.Initializes kernel startUp laterHostname after known)
    (connects : startUp.Connects laterHostname) (complete : kernel.CompleteOn startUp.socket)
    (fresh : ∀ connection ∈ sessions.library.connections, connection.isOpen = true →
      connection.descriptor ≠ startUp.socket) :
    Carries ⟨after, sessions.sent ++ [[]]⟩ (earlier ++ [latest]) ⟨startUp.socket, true, []⟩
      (told ++ [latestTold]) [] known laterHostname := by
  have connections := initializes.connections connects complete fresh
  rcases Interning.of_subset carries.typed.subset with ⟨sameTable, nothing⟩
  have silent : registryPieces known eventTypes = [] := by
    rw [registryPieces, nothing, List.map_nil]
  have idle := initializes.idle carries.idle.wellFormed
  rw [sameTable] at idle
  rw [carries.connections, silent] at connections
  rw [carries.connections] at fresh
  have onSocket : after.channel.controller.socket = startUp.socket := by
    rw [initializes.socket, connects.socketResult_eq]
  refine ⟨connections, ?_, idle, carries.typed, ?_, onSocket.symm, ?_, ?_⟩
  · rw [carries.sent]
  · rw [onSocket]
    exact connects.socket
  · rw [onSocket]
    exact fresh
  · intro few
    rcases carries.received few with
      ⟨streams, stream, middle, last, arrived, latestArrived, received, latestReceived, holds⟩
    refine ⟨streams ++ [stream], [], last, last, ?_, rfl, ?_, rfl, holds⟩
    · rw [List.map_append, List.map_append, arrived, List.map_singleton, List.map_singleton,
        latestArrived]
    · rw [Registry.receiveAll_concat, received, Option.bind_some, latestReceived, Option.map_some,
        List.map_append, List.map_singleton]

/-- What a probe sends arrives on the latest connection, with the strings that are new. -/
theorem probe (carries : sessions.Carries earlier latest told latestTold known hostname)
    (complete : kernel.CompleteOn sessions.library.channel.controller.socket)
    (done : call.run kernel sessions.library = some after) (isOpen : latest.isOpen = true) :
    ∃ latest, Carries ⟨after, sessions.sent.modifyLast fun records =>
        records ++ (call.emission kernel sessions.library.hostname sessions.library).records⟩
      earlier latest told
      (latestTold ++ (call.emission kernel hostname sessions.library).records)
      (Interning.internAll known (call.emission kernel hostname sessions.library).strings)
      hostname := by
  have called := call.calls carries.idle done
  have connections := call.connections carries.idle complete done
  have grows := Interning.prefix_internAll known
    (call.emission kernel hostname sessions.library).strings
  have arrives : ∀ bytes, latest.receive sessions.library.channel.controller.socket bytes =
      { latest with received := latest.received ++ bytes } :=
    fun bytes => if_pos ⟨isOpen, carries.number⟩
  rw [carries.connections, List.map_append, Connection.map_receive_of_apart carries.apart,
    List.map_singleton, arrives] at connections
  refine ⟨_, connections, ?_, call.idle carries.idle done, carries.typed.trans grows, ?_, ?_, ?_,
    ?_⟩
  · rw [carries.sent, List.modifyLast_concat, carries.idle.hostname_eq]
  · rw [called.emits.socket]
    exact carries.nonneg
  · rw [called.emits.socket]
    exact carries.number
  · rw [called.emits.socket]
    exact carries.apart
  · intro few
    rcases carries.received (grows.length_le.trans few) with
      ⟨streams, stream, middle, last, arrived, latestArrived, received, latestReceived, holds⟩
    rcases Registry.receive_entries holds carries.typed called.emits.usable few with
      ⟨next, nextReceived, nextHolds⟩
    refine ⟨streams, stream ++ (call.emission kernel hostname sessions.library).entries known,
      middle, next, arrived, ?_, received, ?_, nextHolds⟩
    · rw [Codec.encodeAll_append, ← latestArrived]
    · rw [Registry.receive_append, latestReceived, Option.bind_some, nextReceived, Option.map_some,
        List.map_append]

end Sessions.Carries

theorem Sessions.Resumes.step {event : ConnectionEvent} (resumes : sessions.Resumes)
    (complete : ∀ descriptor, 0 ≤ descriptor → kernel.CompleteOn descriptor)
    (stepped : Sessions.Step kernel sessions event later) : later.Resumes := by
  cases stepped with
  | finalization stepped =>
      cases stepped with
      | finalization =>
          refine ⟨rfl, ?_⟩
          rcases resumes.state with ⟨unconnected, nothing⟩ |
            ⟨earlier, latest, told, latestTold, known, hostname, carries⟩
          · exact Or.inl ⟨unconnected.finalization, nothing⟩
          · exact Or.inr ⟨_, _, told, latestTold, known, hostname, carries.finalization⟩
  | @initialization _ startUp stepped =>
      rcases resumes.state with ⟨unconnected, nothing⟩ |
        ⟨earlier, latest, told, latestTold, known, older, carries⟩
      · rcases stepped.initializes unconnected.holds resumes.unconfigured with
          ⟨hostname, connects, -, initializes⟩
        have completeHere := complete startUp.socket connects.socket
        rcases unconnected.carries initializes connects completeHere with ⟨latest, carries⟩
        rw [nothing]
        exact ⟨initializes.unconfigured connects completeHere resumes.unconfigured,
          Or.inr ⟨[], latest, [], [], eventTypes, hostname, carries⟩⟩
      · rcases stepped.initializes carries.idle.ready.holds resumes.unconfigured with
          ⟨hostname, connects, fresh, initializes⟩
        have completeHere := complete startUp.socket connects.socket
        exact ⟨initializes.unconfigured connects completeHere resumes.unconfigured,
          Or.inr ⟨_, _, _, _, known, hostname,
            carries.initialization initializes connects completeHere fresh⟩⟩
  | @call _ call stepped connected =>
      cases stepped with
      | call done =>
          rcases connected with ⟨connection, connection_mem, current⟩
          rcases resumes.state with ⟨unconnected, -⟩ |
            ⟨earlier, latest, told, latestTold, known, hostname, carries⟩
          · rw [unconnected.noConnection] at connection_mem
            cases connection_mem
          · have completeHere := complete _ carries.nonneg
            have emits := (call.calls carries.idle done).emits
            have isOpen : latest.isOpen = true := by
              rw [carries.connections] at connection_mem
              rcases List.mem_append.mp connection_mem with old | isLatest
              · exact absurd current.2 (carries.apart connection old current.1)
              · rw [← List.mem_singleton.mp isLatest]
                exact current.1
            rcases carries.probe completeHere done isOpen with ⟨latest, carriesMore⟩
            refine ⟨?_, Or.inr ⟨earlier, latest, told, _, _, hostname, carriesMore⟩⟩
            rw [emits.initState, Kernel.refuses_of_complete completeHere]
            exact resumes.unconfigured

theorem Sessions.resumes_start (filter : AdaptiveFilter) :
    (Sessions.start (Library.loaded filter)).Resumes where
  unconfigured := rfl
  state :=
    Or.inl ⟨⟨rfl, rfl, LookupTable.holds_initial, TraceRegistry.wellFormed_initial, rfl⟩, rfl⟩

/--
In a run of initialisations, finalisations and plain probe calls with complete
writes, in which probes are called while there is a connection, a receiver that
reads the connections in their order, and keeps the strings that were registered,
gets on each of them the records that were sent while it was the latest.
-/
theorem connections_form_one_stream {filter : AdaptiveFilter} {events : List ConnectionEvent}
    {finish : Sessions} (complete : ∀ descriptor, 0 ≤ descriptor → kernel.CompleteOn descriptor)
    (run : Steps (Sessions.Step kernel) (Sessions.start (Library.loaded filter)) events finish)
    (few : finish.library.channel.lookup.tableTop ≤ 2 ^ 31) :
    ∃ streams last,
      (∀ others : List (List Entry), others.map Entry.codec.encodeAll =
        finish.library.connections.map Connection.received ↔ others = streams) ∧
      Registry.empty.receiveAll streams =
        some (last, finish.sent.map (List.map Logged.received)) := by
  have resumes := run.invariant (fun resumes stepped => resumes.step complete stepped)
    (Sessions.resumes_start filter)
  have injective := Entry.encodeAll_injective.list_map
  rcases resumes.state with ⟨unconnected, nothing⟩ |
    ⟨earlier, latest, told, latestTold, known, hostname, carries⟩
  · refine ⟨[], Registry.empty, ?_, by rw [nothing]; rfl⟩
    simp [unconnected.noConnection]
  · rw [carries.idle.ready.holds.top] at few
    rcases carries.received few with
      ⟨streams, stream, middle, last, arrived, latestArrived, received, latestReceived, -⟩
    refine ⟨streams ++ [stream], last, ?_, ?_⟩
    · intro others
      have all : finish.library.connections.map Connection.received =
          (streams ++ [stream]).map Entry.codec.encodeAll := by
        rw [carries.connections, List.map_append, List.map_append, arrived, List.map_singleton,
          List.map_singleton, latestArrived]
      rw [all]
      exact injective.eq_iff
    · rw [Registry.receiveAll_concat, received, Option.bind_some, latestReceived, Option.map_some,
        carries.sent, List.map_append, List.map_singleton]

/-- The second connection alone cannot be read, as it lacks the event types; the two can. -/
theorem connections_form_one_stream_for_restart :
    ∃ finish, Steps (Sessions.Step Kernel.accepting)
        (Sessions.start (Library.loaded AdaptiveFilter.initial))
        [.initialization StartUp.smooth, .finalization, .initialization StartUp.smooth,
          .call entersMain] finish ∧
      finish.sent.length = 2 ∧ ∃ streams last,
        (∀ others : List (List Entry), others.map Entry.codec.encodeAll =
          finish.library.connections.map Connection.received ↔ others = streams) ∧
        Registry.empty.receiveAll streams =
          some (last, finish.sent.map (List.map Logged.received)) := by
  have complete : ∀ descriptor, 0 ≤ descriptor → Kernel.accepting.CompleteOn descriptor :=
    fun _ nonneg => Kernel.completeOn_accepting nonneg
  have smooth := StartUp.connects_smooth
  rcases exists_initialized Kernel.accepting with ⟨first, done, initializes⟩
  have fresh : ∀ connection ∈ (Library.loaded AdaptiveFilter.initial).connections,
      connection.isOpen = true → connection.descriptor ≠ StartUp.smooth.socket :=
    fun _ none => absurd none List.not_mem_nil
  have opened : first.connections = [_] :=
    initializes.connections smooth (complete _ smooth.socket) fresh
  have idle := initializes.idle TraceRegistry.wellFormed_initial
  rw [internAll_eventTypes] at idle
  -- The table outlives the connection that the finalisation closes.
  let closed : Library := { first with channel := controllerFinalize first.channel }
  have closedConnections := first.connections_finalize
  rw [opened, List.map_singleton, initializes.socket] at closedConnections
  have freshAgain : ∀ connection ∈ closed.connections, connection.isOpen = true →
      connection.descriptor ≠ StartUp.smooth.socket := by
    intro connection connection_mem isOpen
    rw [closedConnections, List.mem_singleton] at connection_mem
    rw [connection_mem] at isOpen
    cases isOpen
  rcases controllerInitialize_of_unconfigured Kernel.accepting StartUp.smooth closed
    idle.ready.holds rfl rfl rfl with ⟨second, doneAgain, reinitializes⟩
  have openedAgain := reinitializes.connections smooth (complete _ smooth.socket) freshAgain
  have secondIdle := reinitializes.idle idle.wellFormed
  rcases Interning.of_subset (List.Subset.refl eventTypes) with ⟨sameTypes, -⟩
  rw [sameTypes] at secondIdle
  rcases PlainCall.run_isSome Kernel.accepting secondIdle (by decide)
    (show ∀ signature ∈ entersMain.signatures, signature.Fits by decide) with ⟨finish, entered⟩
  have connected : ∃ connection ∈ second.connections, second.IsCurrent connection := by
    rw [openedAgain]
    exact ⟨_, List.mem_append_right _ (List.mem_singleton.mpr rfl), rfl,
      reinitializes.socket.symm⟩
  have run : Steps (Sessions.Step Kernel.accepting)
      (Sessions.start (Library.loaded AdaptiveFilter.initial))
      [.initialization StartUp.smooth, .finalization, .initialization StartUp.smooth,
        .call entersMain] ⟨finish, _⟩ :=
    .cons (.initialization (.initialization smooth fresh done)) (.cons (.finalization .finalization)
      (.cons (.initialization (.initialization smooth freshAgain doneAgain))
        (.single (.call (.call entered) connected))))
  have noTraces : second.registry.traces = [] := by
    rw [reinitializes.registry]
    change first.registry.traces = []
    rw [initializes.registry]
    rfl
  have new : (second.registry.current Kernel.accepting 0).orderIndex = -1 := by
    rw [TraceRegistry.current_of_notMem (by simp [noTraces])]
    rfl
  have few : finish.channel.lookup.tableTop ≤ 2 ^ 31 := by
    have emission : entersMain.emission Kernel.accepting (.literal "host") second =
      beforeEmission Kernel.accepting (.literal "host") 0 (.literal "Main")
        (.literal "int main()") second := rfl
    rw [(entersMain.idle secondIdle entered).ready.holds.top, emission, strings_entersMain new]
    decide
  exact ⟨_, run, rfl, connections_form_one_stream complete run few⟩

end Kieker
