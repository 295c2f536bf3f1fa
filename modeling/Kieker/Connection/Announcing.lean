import Kieker.Connection.Failures
import Kieker.Probes.Plain
import Kieker.Probes.Writing

/-!
# Announcements that fail

A string enters the table whether or not `write` accepted its registry entry, so a
string whose announcement failed counts as announced from then on. Each run of
probe calls has a list of its announcements, with what `write` returned for each.
-/

namespace Kieker

/-- The offer of a registry entry to `write`, and what it returned. -/
structure Announcement where
  string : CString
  id : ℕ
  result : ℤ

/-- What an announcement says. -/
def Announcement.entry (announcement : Announcement) : CString × ℕ :=
  (announcement.string, announcement.id)

/-- The system call of an announcement. -/
def Announcement.call (descriptor : ℤ) (announcement : Announcement) : Syscall :=
  .write descriptor (registryBytes announcement.id announcement.string.bytes) announcement.result

/-- The strings in the table, in the order of their numbers. -/
def LookupTable.strings (table : LookupTable) : List CString :=
  (List.range table.tableTop).filterMap table.stringList

/-- The announcements that some uses of strings make, one after another. -/
def Channel.announcements (kernel : Kernel) (channel : Channel) (used : List CString) :
    List Announcement :=
  (Interning.announcements channel.lookup.strings used).zipIdx.map fun entry =>
    { string := entry.1.1
      id := entry.1.2
      result := kernel.write (channel.world.log.length + entry.2) channel.controller.socket
        (registryBytes entry.1.2 entry.1.1.bytes).length }

/-! ### The strings that calls use -/

/-- The strings in the record that a probe builds first if the trace is new. -/
def openingStrings (hostname : Option CString) (trace : KiekerTrace) : List CString :=
  match hostname with
  | none => []
  | some hostname =>
      if trace.orderIndex = -1 then Field.stringsAll (traceMetadataOf hostname trace).fields else []

namespace ProbeCall

/-- The strings that the call passes to `kieker_serialize_string`, in order. -/
def strings (kernel : Kernel) (self : PthreadSelf) (library : Library) : ProbeCall → List CString
  | .before classSignature operationSignature =>
      let (trace, registry) := library.registry.traceGet kernel self
      ((registry.deref trace).toList.flatMap
        (openingStrings library.channel.controller.localHostname)) ++
          [operationSignature, classSignature]
  | .after classSignature operationSignature => [operationSignature, classSignature]
  | .eventBefore operationSignature classSignature =>
      let (trace, registry) := library.registry.traceGet kernel self
      ((registry.deref trace).toList.flatMap
        (openingStrings library.channel.controller.localHostname)) ++
          if library.filter.isClassExcluded classSignature = false then
            [operationSignature, classSignature]
          else []
  | .eventAfter _ operationSignature classSignature =>
      if library.filter.isClassExcluded classSignature = false then
        [operationSignature, classSignature]
      else []
  | .controlflowBefore => []
  | .controlflowAfter _ => []
  | .controlflowAfter2 _ record => Field.stringsAll record.fields

/-- The announcements that the call makes. -/
def announcements (kernel : Kernel) (self : PthreadSelf) (library : Library) (call : ProbeCall) :
    List Announcement :=
  library.channel.announcements kernel (call.strings kernel self library)

/-- Calls one after another, each with the thread that makes it. -/
def runAll (kernel : Kernel) : List (PthreadSelf × ProbeCall) → Library → Option Library
  | [], library => some library
  | call :: calls, library =>
      (call.2.run kernel call.1 library).bind fun later => runAll kernel calls later

/-- The announcements that calls make, one after another. -/
def announcementsAll (kernel : Kernel) :
    List (PthreadSelf × ProbeCall) → Library → List Announcement
  | [], _ => []
  | call :: calls, library =>
      call.2.announcements kernel call.1 library ++
        (call.2.run kernel call.1 library).toList.flatMap (announcementsAll kernel calls)

end ProbeCall

/--
In a run, the announcements of each call are its first system calls, and then it
offers the pieces of its records.
-/
def OffersAnnouncements (kernel : Kernel) (calls : List (PthreadSelf × ProbeCall))
    (start : Library) : Prop :=
  ∀ front self call back before after, calls = front ++ (self, call) :: back →
    ProbeCall.runAll kernel front start = some before → call.run kernel self before = some after →
      ∃ sends, after.channel.world.log = before.channel.world.log ++
        ((call.announcements kernel self before).map
            (Announcement.call before.channel.controller.socket) ++
          kernel.offers before.channel.controller.socket
            (before.channel.world.log.length + (call.announcements kernel self before).length)
            sends)

/-- The string was announced, and each time `write` failed. -/
def IsUnannounced (announcements : List Announcement) (string : CString) : Prop :=
  (∃ announcement ∈ announcements, announcement.string = string) ∧
    ∀ announcement ∈ announcements, announcement.string = string → announcement.result = -1

/--
How a string that could not be announced is treated by the call after `front` in a
run from `start`.
-/
structure TreatsAsUnannounced (kernel : Kernel) (start : Library)
    (front : List (PthreadSelf × ProbeCall)) (caller : PthreadSelf) (call : ProbeCall)
    (before after : Library) : Prop where
  /-- The table is left without it. -/
  leftOut : ∀ string,
    IsUnannounced (ProbeCall.announcementsAll kernel (front ++ [(caller, call)]) start) string →
      string ∉ after.channel.lookup.strings
  /-- A record carries numbers only that the run found or whose registry entry was sent. -/
  announced : ∀ string ∈ call.strings kernel caller before,
    after.channel.lookup.strings.idxOf string < start.channel.lookup.tableTop ∨
      ∃ announcement ∈ ProbeCall.announcementsAll kernel (front ++ [(caller, call)]) start,
        announcement.id = after.channel.lookup.strings.idxOf string ∧ announcement.result ≠ -1
  /-- The next use announces it again. -/
  again : ∀ string ∈ call.strings kernel caller before,
    IsUnannounced (ProbeCall.announcementsAll kernel front start) string →
      ∃ announcement ∈ call.announcements kernel caller before, announcement.string = string

/-- In a run, no call takes a string for announced whose announcement failed. -/
def KeepsUnannouncedOut (kernel : Kernel) (calls : List (PthreadSelf × ProbeCall))
    (start : Library) : Prop :=
  ∀ front self call back before after, calls = front ++ (self, call) :: back →
    ProbeCall.runAll kernel front start = some before → call.run kernel self before = some after →
      TreatsAsUnannounced kernel start front self call before after

variable {kernel : Kernel} {self : PthreadSelf} {channel before middle after : Channel}
  {library later final : Library} {known used more strings : List CString}
  {sends : List (List UInt8)} {trace : KiekerTrace} {position next : ℕ}
  {calls front back : List (PthreadSelf × ProbeCall)}

theorem LookupTable.Lists.strings_eq {table : LookupTable} (lists : table.Lists strings) :
    table.strings = strings := by
  have entries : (List.range table.tableTop).map table.stringList = strings.map some := by
    apply List.ext_getElem
    · simp [lists.top]
    · intro index inRange inStrings
      simp only [List.length_map] at inStrings
      simp [lists.entries index inStrings]
  have joined := congrArg (List.filterMap id) entries
  simpa [List.filterMap_map, Function.comp_def, LookupTable.strings] using joined

/-! ### What a call announces -/

/--
Strings were used and pieces were sent: the table becomes the interning table, the
announcements are offered first, and the controller is given up if one of them fails.
-/
structure Channel.Announces (kernel : Kernel) (before after : Channel) (known used : List CString)
    (sends : List (List UInt8)) : Prop where
  serves : after.Serves (Interning.internAll known used)
  socket : after.controller.socket = before.controller.socket
  log : after.world.log = kernel.offerAll before.controller.socket before.world.log
    (registryPieces known used ++ sends)
  initState : after.controller.initState =
    if kernel.refuses before.controller.socket before.world.log.length (registryPieces known used)
    then .failed else before.controller.initState

namespace Channel.Announces

theorem refl (serves : before.Serves known) : before.Announces kernel before known [] [] where
  serves := serves
  socket := rfl
  log := rfl
  initState := rfl

theorem trans (first : Channel.Announces kernel before middle known used [])
    (second : Channel.Announces kernel middle after (Interning.internAll known used) more sends) :
    Channel.Announces kernel before after known (used ++ more) sends where
  serves := by
    rw [Interning.internAll_append]
    exact second.serves
  socket := second.socket.trans first.socket
  log := by
    rw [second.log, first.socket, first.log, List.append_nil, registryPieces_append]
    simp only [Kernel.offerAll_append]
  initState := by
    rw [second.initState, first.initState, first.socket, first.log, List.append_nil,
      registryPieces_append, Kernel.refuses_append, Kernel.length_offerAll]
    by_cases early : kernel.refuses before.controller.socket before.world.log.length
      (registryPieces known used) = true <;> simp [early]

theorem of_builds {members : List Field}
    (builds : Channel.Builds kernel before after known position members) :
    Channel.Announces kernel before after known (Field.stringsAll members) [] where
  serves := builds.serves
  socket := builds.socket
  log := by rw [builds.log, List.append_nil]
  initState := builds.initState

theorem of_interns (interns : Channel.Interns kernel before after known used) :
    Channel.Announces kernel before after known used [] where
  serves := interns.serves
  socket := interns.socket
  log := by rw [interns.log, List.append_nil]
  initState := interns.initState

theorem of_controllerSend {length : ℕ} (serves : before.Serves known)
    (done : controllerSend kernel length before = some after) :
    ∃ sends, Channel.Announces kernel before after known [] sends := by
  rcases controllerSend_eq_some done with ⟨block, -, -, rfl⟩
  refine ⟨[block.bytesFrom 0 length], ⟨?_, ?_⟩, ?_, ?_, ?_⟩
  · rw [lookup_transmit]
    exact serves.holds
  · rw [controller_transmit]
    exact serves.ready
  · rw [controller_transmit]
  · rw [world_transmit]
    rfl
  · rw [controller_transmit]
    rfl

end Channel.Announces

theorem probeOpenTrace_announces (serves : channel.Serves known)
    (done : probeOpenTrace kernel trace channel = some (next, after)) :
    channel.Announces kernel after known
      (openingStrings channel.controller.localHostname trace) [] := by
  unfold probeOpenTrace at done
  by_cases new : trace.orderIndex = -1
  · rw [if_pos new] at done
    cases named : channel.controller.localHostname with
    | none => simp [probeCreateTraceMetadata, named] at done
    | some hostname =>
        have builds := (probeCreateTraceMetadata_eq_some serves named done).2.2
        have announces := Channel.Announces.of_builds builds
        rw [openingStrings, if_pos new]
        exact announces
  · rw [if_neg new, Option.some.injEq, Prod.mk.injEq] at done
    rcases done with ⟨-, rfl⟩
    have nothing : openingStrings channel.controller.localHostname trace = [] := by
      unfold openingStrings
      split
      · rfl
      · exact if_neg new
    rw [nothing]
    exact .refl serves

/-- An event that is created behind what stands in the buffer, and then sent. -/
theorem announces_event {classSignature operationSignature : CString} {logged : Logged}
    {sent : Channel} (opens : channel.Announces kernel before known used [])
    (strings : Logged.stringsAll [logged] = [operationSignature, classSignature])
    (created : Created kernel before middle (Interning.internAll known used) position next [logged])
    (sends : controllerSend kernel next middle = some sent) :
    ∃ pieces, channel.Announces kernel sent known
      (used ++ [operationSignature, classSignature]) pieces := by
  have event := Channel.Announces.of_builds created.2.2
  rw [show Field.stringsAll (Logged.membersAll [logged]) = _ from strings] at event
  have both := opens.trans event
  rcases Channel.Announces.of_controllerSend both.serves sends with ⟨pieces, sending⟩
  have all := both.trans sending
  rw [List.append_nil] at all
  exact ⟨pieces, all⟩

section Calls

variable {classSignature operationSignature : CString} {address : ℕ}

theorem probeBeforeOperationEvent_announces (serves : library.channel.Serves known)
    (done : probeBeforeOperationEvent kernel self classSignature operationSignature library =
      some later) :
    ∃ sends, library.channel.Announces kernel later.channel known
      ((ProbeCall.before classSignature operationSignature).strings kernel self library) sends := by
  simp only [probeBeforeOperationEvent, Option.bind_eq_bind, Option.bind_eq_some_iff,
    Option.some.injEq] at done
  rcases done with ⟨data, found, ⟨_, middle⟩, opened, _, -, ⟨_, built⟩, created, sent, sends, rfl⟩
  have opens := probeOpenTrace_announces serves opened
  have event := probeCreateBeforeOperationEvent_eq_some opens.serves created
  rw [ProbeCall.strings]
  simp only [found, Option.toList_some, List.flatMap_singleton]
  exact announces_event opens rfl event sends

theorem probeAfterOperationEvent_announces (serves : library.channel.Serves known)
    (done : probeAfterOperationEvent kernel self classSignature operationSignature library =
      some later) :
    ∃ sends, library.channel.Announces kernel later.channel known
      [operationSignature, classSignature] sends := by
  simp only [probeAfterOperationEvent, Option.bind_eq_bind, Option.bind_eq_some_iff,
    Option.some.injEq] at done
  rcases done with ⟨_, -, ⟨_, built⟩, created, sent, sends, _, -, rfl⟩
  have event := probeCreateAfterOperationEvent_eq_some serves created
  exact announces_event (.refl serves) rfl event sends

theorem probeAspectEventBeforeOperation_announces (serves : library.channel.Serves known)
    (done : probeAspectEventBeforeOperation kernel self operationSignature classSignature library =
      some (address, later)) :
    ∃ sends, library.channel.Announces kernel later.channel known
      ((ProbeCall.eventBefore operationSignature classSignature).strings kernel self library)
        sends := by
  simp only [probeAspectEventBeforeOperation, Option.bind_eq_bind, Option.bind_eq_some_iff] at done
  rcases done with ⟨data, found, ⟨_, middle⟩, opened, done⟩
  have opens := probeOpenTrace_announces serves opened
  rw [ProbeCall.strings]
  simp only [found, Option.toList_some, List.flatMap_singleton]
  split at done
  · rename_i kept
    simp only [Option.bind_eq_some_iff, Option.some.injEq, Prod.mk.injEq] at done
    rcases done with ⟨_, -, ⟨_, built⟩, created, sent, sends, -, rfl⟩
    have event := probeCreateBeforeOperationEvent_eq_some opens.serves created
    rw [if_pos kept]
    exact announces_event opens rfl event sends
  · rename_i excluded
    simp only [Option.some.injEq, Prod.mk.injEq] at done
    rcases done with ⟨-, rfl⟩
    rw [if_neg excluded, List.append_nil]
    exact ⟨[], opens⟩

theorem probeAspectEventAfterOperation_announces (serves : library.channel.Serves known)
    (done : probeAspectEventAfterOperation kernel address operationSignature classSignature
      library = some later) :
    ∃ sends, library.channel.Announces kernel later.channel known
      ((ProbeCall.eventAfter address operationSignature classSignature).strings kernel self library)
        sends := by
  by_cases excluded : library.filter.isClassExcluded classSignature = true
  · simp only [probeAspectEventAfterOperation, excluded, reduceCtorEq, if_false,
      Option.bind_eq_bind, Option.bind_some, Option.bind_eq_some_iff, Option.some.injEq] at done
    rcases done with ⟨_, -, rfl⟩
    have nothing : (ProbeCall.eventAfter address operationSignature classSignature).strings kernel
        self library = [] := by simp [ProbeCall.strings, excluded]
    rw [nothing]
    exact ⟨[], .refl serves⟩
  · simp only [probeAspectEventAfterOperation, excluded, if_true, Option.bind_eq_bind,
      Option.bind_eq_some_iff, Option.some.injEq, Prod.exists, Prod.mk.injEq] at done
    rcases done with ⟨_, -, _, built, created, sent, sends, _, _, ⟨-, rfl⟩, _, -, rfl⟩
    have event := probeCreateAfterOperationEvent_eq_some serves created
    have both : (ProbeCall.eventAfter address operationSignature classSignature).strings kernel
        self library = [operationSignature, classSignature] := by
      simp [ProbeCall.strings, excluded]
    rw [both]
    exact announces_event (.refl serves) rfl event sends

theorem probeAspectControlflowAfter2_announces {record : OperationExecutionRecord}
    (serves : library.channel.Serves known)
    (done : probeAspectControlflowAfter2 kernel address record library = some later) :
    ∃ sends, library.channel.Announces kernel later.channel known
      (Field.stringsAll record.fields) sends := by
  simp only [probeAspectControlflowAfter2, probeAspectControlflowSend,
    operationExecutionRecordSerialize, Option.bind_eq_bind, Option.bind_eq_some_iff,
    Option.some.injEq] at done
  rcases done with ⟨_, -, _, ⟨⟨_, _, built⟩, serialized, sent, sends, rfl⟩, _, -, rfl⟩
  rcases serializeFields_eq_some serves (Nat.zero_le _) serialized with ⟨-, -, interns, -⟩
  have record := Channel.Announces.of_interns interns
  rcases Channel.Announces.of_controllerSend record.serves sends with ⟨pieces, sending⟩
  have all := record.trans sending
  rw [List.append_nil] at all
  exact ⟨pieces, all⟩

end Calls

/-- Every call announces what its strings add to the table, and then sends at most its records. -/
theorem ProbeCall.announces (call : ProbeCall) (serves : library.channel.Serves known)
    (done : call.run kernel self library = some later) :
    ∃ sends, library.channel.Announces kernel later.channel known
      (call.strings kernel self library) sends := by
  have timed : Channel.Announces kernel library.channel
      (controllerGetTimeMs kernel library.channel).2 known [] [] :=
    ⟨⟨serves.holds, serves.ready⟩, rfl, rfl, rfl⟩
  cases call with
  | before classSignature operationSignature =>
      exact probeBeforeOperationEvent_announces serves done
  | after classSignature operationSignature =>
      exact probeAfterOperationEvent_announces serves done
  | eventBefore operationSignature classSignature =>
      rcases Option.map_eq_some_iff.mp done with ⟨⟨trace, after⟩, entered, rfl⟩
      exact probeAspectEventBeforeOperation_announces serves entered
  | eventAfter trace operationSignature classSignature =>
      exact probeAspectEventAfterOperation_announces serves done
  | controlflowBefore =>
      rcases Option.map_eq_some_iff.mp done with ⟨⟨trace, execution, after⟩, entered, rfl⟩
      simp only [probeAspectControlflowBefore, Option.bind_eq_bind, Option.bind_eq_some_iff,
        Option.some.injEq, Prod.mk.injEq] at entered
      rcases entered with ⟨_, -, -, -, rfl⟩
      exact ⟨[], timed⟩
  | controlflowAfter trace =>
      rcases Option.map_eq_some_iff.mp done with ⟨⟨tout, after⟩, left, rfl⟩
      simp only [probeAspectControlflowAfter, Option.bind_eq_bind, Option.bind_eq_some_iff,
        Option.some.injEq, Prod.mk.injEq] at left
      rcases left with ⟨_, -, -, rfl⟩
      exact ⟨[], timed⟩
  | controlflowAfter2 trace record => exact probeAspectControlflowAfter2_announces serves done

/-! ### Announcements of calls -/

theorem Channel.map_entry_announcements (kernel : Kernel) (serves : channel.Serves known)
    (used : List CString) :
    (channel.announcements kernel used).map Announcement.entry =
      Interning.announcements known used := by
  rw [Channel.announcements, serves.holds.lists.strings_eq, List.map_map]
  exact List.zipIdx_map_fst 0 _

/-- The announcements are the first system calls, and the rest of what is offered follows. -/
theorem Channel.Announces.log_eq (serves : before.Serves known)
    (announces : Channel.Announces kernel before after known used sends) :
    after.world.log = before.world.log ++
      ((before.announcements kernel used).map (Announcement.call before.controller.socket) ++
        kernel.offers before.controller.socket
          (before.world.log.length + (before.announcements kernel used).length) sends) := by
  rw [announces.log, Kernel.offerAll_append, Kernel.offerAll_eq_append,
    Kernel.offerAll_eq_append, List.append_assoc, Channel.announcements,
    serves.holds.lists.strings_eq]
  congr 2
  · rw [registryPieces, Kernel.offers, List.zipIdx_map, List.map_map, List.map_map]
    rfl
  · simp [Kernel.offers, registryPieces]

/-- A registry entry is refused exactly if an announcement failed. -/
theorem Channel.refuses_iff (serves : channel.Serves known) :
    kernel.refuses channel.controller.socket channel.world.log.length
        (registryPieces known used) = true ↔
      ∃ announcement ∈ channel.announcements kernel used, announcement.result = -1 := by
  rw [Kernel.refuses_iff, Channel.announcements, serves.holds.lists.strings_eq, registryPieces,
    List.zipIdx_map]
  simp only [List.mem_map, exists_exists_and_eq_and]
  rfl

/-- The controller is given up by a failed announcement only. -/
theorem Channel.Announces.failed_iff (serves : before.Serves known)
    (announces : Channel.Announces kernel before after known used sends) :
    after.controller.initState = .failed ↔ before.controller.initState = .failed ∨
      ∃ announcement ∈ before.announcements kernel used, announcement.result = -1 := by
  rw [announces.initState, ← Channel.refuses_iff serves]
  split <;> simp_all

namespace ProbeCall

theorem runAll_append (kernel : Kernel) (front back : List (PthreadSelf × ProbeCall))
    (library : Library) :
    runAll kernel (front ++ back) library =
      (runAll kernel front library).bind (runAll kernel back) := by
  induction front generalizing library with
  | nil => rfl
  | cons call front ih =>
      simp only [List.cons_append, runAll]
      cases call.2.run kernel call.1 library with
      | none => rfl
      | some later => exact ih later

theorem runAll_concat {call : ProbeCall} (reached : runAll kernel front library = some later)
    (done : call.run kernel self later = some final) :
    runAll kernel (front ++ [(self, call)]) library = some final := by
  rw [runAll_append, reached, Option.bind_some, runAll, done]
  rfl

theorem announcementsAll_append {middle : Library}
    (ran : runAll kernel front library = some middle) (back : List (PthreadSelf × ProbeCall)) :
    announcementsAll kernel (front ++ back) library =
      announcementsAll kernel front library ++ announcementsAll kernel back middle := by
  induction front generalizing library with
  | nil =>
      cases ran
      rfl
  | cons call front ih =>
      rw [runAll, Option.bind_eq_some_iff] at ran
      rcases ran with ⟨later, done, rest⟩
      simp only [List.cons_append, announcementsAll, done, Option.toList_some,
        List.flatMap_singleton, ih rest, List.append_assoc]

/-- A run announces what it adds to the table, each string once and under its number. -/
theorem runAll_announces (serves : library.channel.Serves known)
    (ran : runAll kernel calls library = some final) :
    ∃ used, final.channel.Serves (Interning.internAll known used) ∧
      (announcementsAll kernel calls library).map Announcement.entry =
        Interning.announcements known used := by
  induction calls generalizing library known with
  | nil =>
      cases ran
      exact ⟨[], serves, rfl⟩
  | cons call calls ih =>
      rw [runAll, Option.bind_eq_some_iff] at ran
      rcases ran with ⟨later, done, rest⟩
      rcases call.2.announces serves done with ⟨_, first⟩
      rcases ih first.serves rest with ⟨used, finalServes, entries⟩
      refine ⟨call.2.strings kernel call.1 library ++ used, ?_, ?_⟩
      · rw [Interning.internAll_append]
        exact finalServes
      · simp only [announcementsAll, done, Option.toList_some, List.flatMap_singleton,
          List.map_append, entries, Interning.announcements_append]
        rw [announcements, Channel.map_entry_announcements kernel serves]

/-- The controller is given up exactly by a failed announcement. -/
theorem runAll_failed_iff (serves : library.channel.Serves known)
    (ran : runAll kernel calls library = some final) :
    final.channel.controller.initState = .failed ↔
      library.channel.controller.initState = .failed ∨
        ∃ announcement ∈ announcementsAll kernel calls library, announcement.result = -1 := by
  induction calls generalizing library known with
  | nil =>
      cases ran
      simp [announcementsAll]
  | cons call calls ih =>
      rw [runAll, Option.bind_eq_some_iff] at ran
      rcases ran with ⟨later, done, rest⟩
      rcases call.2.announces serves done with ⟨_, first⟩
      have here := first.failed_iff serves
      rw [ih first.serves rest, here]
      simp only [announcementsAll, done, Option.toList_some, List.flatMap_singleton,
        List.mem_append, or_and_right, exists_or, or_assoc]
      rfl

/-- Every announcement of a run is made by one of its calls. -/
theorem exists_of_mem_announcementsAll {announcement : Announcement}
    (ran : runAll kernel calls library = some final)
    (isMade : announcement ∈ announcementsAll kernel calls library) :
    ∃ front self call back before after, calls = front ++ (self, call) :: back ∧
      runAll kernel front library = some before ∧ call.run kernel self before = some after ∧
        announcement ∈ call.announcements kernel self before := by
  induction calls generalizing library with
  | nil => cases isMade
  | cons call calls ih =>
      rw [runAll, Option.bind_eq_some_iff] at ran
      rcases ran with ⟨later, done, rest⟩
      simp only [announcementsAll, done, Option.toList_some, List.flatMap_singleton,
        List.mem_append] at isMade
      rcases isMade with here | afterwards
      · exact ⟨[], call.1, call.2, calls, library, later, rfl, rfl, done, here⟩
      · rcases ih rest afterwards with
          ⟨front, self, next, back, before, after, rfl, reached, runs, made⟩
        refine ⟨call :: front, self, next, back, before, after, rfl, ?_, runs, made⟩
        rw [runAll, done]
        exact reached

end ProbeCall

/-! ### Runs -/

/-- A string is announced once in a run, so one failure is all that there is. -/
theorem isUnannounced_of_mem (serves : library.channel.Serves known)
    (ran : ProbeCall.runAll kernel calls library = some final) {announcement : Announcement}
    (isMade : announcement ∈ ProbeCall.announcementsAll kernel calls library)
    (failed : announcement.result = -1) :
    IsUnannounced (ProbeCall.announcementsAll kernel calls library) announcement.string ∧
      announcement.string ∈ final.channel.lookup.strings := by
  rcases ProbeCall.runAll_announces serves ran with ⟨used, finalServes, entries⟩
  have once : ((ProbeCall.announcementsAll kernel calls library).map
      Announcement.string).Nodup := by
    have unique := Interning.nodup_announcements serves.holds.unique used
    rwa [← entries, List.map_map] at unique
  refine ⟨⟨⟨announcement, isMade, rfl⟩, ?_⟩, ?_⟩
  · intro other otherMade same
    rw [List.inj_on_of_nodup_map once otherMade isMade same]
    exact failed
  · have inEntries : announcement.entry ∈ Interning.announcements known used := by
      rw [← entries]
      exact List.mem_map_of_mem isMade
    rw [finalServes.holds.lists.strings_eq]
    exact List.mem_of_getElem? (Interning.mem_announcements.mp inEntries).2

/-- A failed announcement leaves its string in the table. -/
theorem not_keepsUnannouncedOut (serves : library.channel.Serves known)
    (ran : ProbeCall.runAll kernel calls library = some final) {announcement : Announcement}
    (isMade : announcement ∈ ProbeCall.announcementsAll kernel calls library)
    (failed : announcement.result = -1) : ¬KeepsUnannouncedOut kernel calls library := by
  intro keepsOut
  rcases ProbeCall.exists_of_mem_announcementsAll ran isMade with
    ⟨front, self, call, back, before, after, split, reached, done, made⟩
  have treats := keepsOut front self call back before after split reached done
  have ranThere := ProbeCall.runAll_concat reached done
  have madeThere : announcement ∈
      ProbeCall.announcementsAll kernel (front ++ [(self, call)]) library := by
    rw [ProbeCall.announcementsAll_append reached]
    exact List.mem_append_right _ (List.mem_append_left _ made)
  rcases isUnannounced_of_mem serves ranThere madeThere failed with ⟨unannounced, inTable⟩
  exact treats.leftOut announcement.string unannounced inTable

/-- As long as every announcement was sent, the numbers in records were announced. -/
theorem treatsAsUnannounced_of_sent {call : ProbeCall} {reach result : Library}
    (serves : library.channel.Serves known)
    (reached : ProbeCall.runAll kernel front library = some reach)
    (done : call.run kernel self reach = some result)
    (sent : ∀ announcement ∈ ProbeCall.announcementsAll kernel (front ++ [(self, call)]) library,
      announcement.result ≠ -1) :
    TreatsAsUnannounced kernel library front self call reach result where
  leftOut := by
    rintro string ⟨⟨announcement, isMade, same⟩, allFailed⟩
    exact absurd (allFailed announcement isMade same) (sent announcement isMade)
  announced := by
    intro string string_mem
    rcases ProbeCall.runAll_announces serves reached with ⟨_, reachServes, -⟩
    rcases call.announces reachServes done with ⟨_, announces⟩
    rcases ProbeCall.runAll_announces serves (ProbeCall.runAll_concat reached done) with
      ⟨used, resultServes, entries⟩
    have table := resultServes.holds.lists.strings_eq
    have inTable : string ∈ Interning.internAll known used := by
      rw [← table, announces.serves.holds.lists.strings_eq]
      exact Interning.mem_internAll.mpr (Or.inr string_mem)
    rw [table, serves.holds.top]
    rcases Nat.lt_or_ge ((Interning.internAll known used).idxOf string) known.length with
      old | added
    · exact Or.inl old
    · right
      have listed : (string, (Interning.internAll known used).idxOf string) ∈
          (ProbeCall.announcementsAll kernel (front ++ [(self, call)]) library).map
            Announcement.entry := by
        rw [entries, Interning.mem_announcements]
        exact ⟨added, List.getElem?_idxOf inTable⟩
      rcases List.mem_map.mp listed with ⟨announcement, isMade, entry⟩
      exact ⟨announcement, isMade, congrArg Prod.snd entry, sent announcement isMade⟩
  again := by
    rintro string - ⟨⟨announcement, isMade, same⟩, allFailed⟩
    refine absurd (allFailed announcement isMade same) (sent announcement ?_)
    rw [ProbeCall.announcementsAll_append reached]
    exact List.mem_append_left _ isMade

/-- The announcements of a run are on the log of the system calls. -/
theorem offersAnnouncements (serves : library.channel.Serves known) (kernel : Kernel)
    (calls : List (PthreadSelf × ProbeCall)) : OffersAnnouncements kernel calls library := by
  intro front self call back before after _ reached done
  rcases ProbeCall.runAll_announces serves reached with ⟨used, reachServes, -⟩
  rcases call.announces reachServes done with ⟨sends, announces⟩
  exact ⟨sends, announces.log_eq reachServes⟩

/--
Whatever `write` returns: in a run of probe calls a string that could not be
announced is kept out of the table and announced again, and records carry numbers
only that were announced, exactly if no write of a registry entry fails.
-/
theorem keepsUnannouncedOut_iff (serves : library.channel.Serves known)
    (ran : ProbeCall.runAll kernel calls library = some final) :
    OffersAnnouncements kernel calls library ∧
    (KeepsUnannouncedOut kernel calls library ↔
      ∀ announcement ∈ ProbeCall.announcementsAll kernel calls library,
        announcement.result ≠ -1) := by
  refine ⟨offersAnnouncements serves kernel calls, ?_⟩
  constructor
  · intro keepsOut announcement isMade failed
    exact not_keepsUnannouncedOut serves ran isMade failed keepsOut
  · intro allSent front self call back before after split reached done
    apply treatsAsUnannounced_of_sent serves reached done
    intro announcement isMade
    apply allSent
    have longer : calls = (front ++ [(self, call)]) ++ back := by simp [split]
    rw [longer, ProbeCall.announcementsAll_append (ProbeCall.runAll_concat reached done)]
    exact List.mem_append_left _ isMade

/-- The first use of a new string announces it. -/
theorem Channel.exists_announcement (kernel : Kernel) (serves : channel.Serves known)
    {string : CString} (new : string ∉ known) (isUsed : string ∈ used) :
    ∃ announcement ∈ channel.announcements kernel used, announcement.string = string ∧
      ∃ index, announcement.result = kernel.write index channel.controller.socket
        (12 + string.length) := by
  rcases Interning.exists_mem_announcements new isUsed with ⟨id, isAnnounced⟩
  have numbered := List.zipIdx_map_fst 0 (Interning.announcements known used)
  rw [← numbered] at isAnnounced
  rcases List.mem_map.mp isAnnounced with ⟨⟨entry, place⟩, placed, same⟩
  cases same
  refine ⟨_, List.mem_map_of_mem (by rwa [serves.holds.lists.strings_eq]), rfl,
    channel.world.log.length + place, ?_⟩
  rw [length_registryBytes]
  rfl

/-- A call of a plain probe as a probe call. -/
def ProbeCall.ofPlain : PlainCall → PthreadSelf × ProbeCall
  | .before self classSignature operationSignature =>
      (self, .before classSignature operationSignature)
  | .after self classSignature operationSignature =>
      (self, .after classSignature operationSignature)

theorem ProbeCall.runAll_ofPlain (kernel : Kernel) (plainCalls : List PlainCall)
    (library : Library) : runAll kernel (plainCalls.map ofPlain) library =
      PlainCall.runAll kernel plainCalls library := by
  induction plainCalls generalizing library with
  | nil => rfl
  | cons call plainCalls ih =>
      have same : (ofPlain call).2.run kernel (ofPlain call).1 library =
          call.run kernel library := by
        cases call <;> rfl
      rw [List.map_cons, runAll, same, PlainCall.runAll, List.foldlM_cons]
      exact congrArg (call.run kernel library).bind (funext ih)

/-- An initialised library can make calls of plain probes. -/
theorem exists_called (kernel : Kernel) {plainCalls : List PlainCall}
    (fits : ∀ call ∈ plainCalls, ∀ signature ∈ call.signatures, signature.Fits) :
    ∃ initialized final, controllerInitialize kernel StartUp.smooth Library.initial =
        some initialized ∧
      initialized.channel.Serves (Interning.internAll [] eventTypes) ∧
      ProbeCall.runAll kernel (plainCalls.map ProbeCall.ofPlain) initialized = some final := by
  rcases exists_idle kernel with ⟨initialized, done, idle, -⟩
  rcases PlainCall.runAll_isSome kernel idle (by decide) fits with ⟨final, ran⟩
  exact ⟨initialized, final, done, idle.ready.toServes,
    (ProbeCall.runAll_ofPlain kernel plainCalls initialized).trans ran⟩

/-- Two threads call the same function, one of them from within another one. -/
def nestedCalls : List PlainCall :=
  [.before 0 (.literal "Main") (.literal "int main()"),
    .before 1 (.literal "Worker") (.literal "void work()"),
    .before 0 (.literal "Worker") (.literal "void work()"),
    .after 0 (.literal "Worker") (.literal "void work()"),
    .after 1 (.literal "Worker") (.literal "void work()"),
    .after 0 (.literal "Main") (.literal "int main()")]

theorem nested_keepsUnannouncedOut_iff :
    ∃ initialized final, controllerInitialize Kernel.accepting StartUp.smooth Library.initial =
        some initialized ∧
      ProbeCall.runAll Kernel.accepting (nestedCalls.map ProbeCall.ofPlain) initialized =
        some final ∧
      OffersAnnouncements Kernel.accepting (nestedCalls.map ProbeCall.ofPlain) initialized ∧
      (KeepsUnannouncedOut Kernel.accepting (nestedCalls.map ProbeCall.ofPlain) initialized ↔
        ∀ announcement ∈ ProbeCall.announcementsAll Kernel.accepting
          (nestedCalls.map ProbeCall.ofPlain) initialized, announcement.result ≠ -1) := by
  have fits : ∀ call ∈ nestedCalls, ∀ signature ∈ call.signatures, signature.Fits := by decide
  rcases exists_called Kernel.accepting fits with ⟨initialized, final, done, serves, ran⟩
  exact ⟨initialized, final, done, ran, keepsUnannouncedOut_iff serves ran⟩

/-- Writes of 22 bytes fail, as long as a registry entry for a string of ten bytes. -/
def Kernel.writeMost (_ : ℕ) (descriptor : ℤ) (count : ℕ) : ℤ :=
  if descriptor < 0 ∨ count = 22 then -1 else count

theorem Kernel.neg_one_le_writeMost (index : ℕ) (descriptor : ℤ) (count : ℕ) :
    -1 ≤ Kernel.writeMost index descriptor count := by
  rw [Kernel.writeMost]
  split <;> omega

theorem Kernel.writeMost_le (index : ℕ) (descriptor : ℤ) (count : ℕ) :
    Kernel.writeMost index descriptor count ≤ count := by
  rw [Kernel.writeMost]
  split <;> omega

theorem Kernel.writeMost_of_neg (index : ℕ) (descriptor : ℤ) (count : ℕ)
    (negative : descriptor < 0) : Kernel.writeMost index descriptor count = -1 :=
  if_pos (Or.inl negative)

/-- A kernel on which the writes of 22 bytes fail and all others are complete. -/
def Kernel.choosy : Kernel :=
  { Kernel.accepting with
    write := Kernel.writeMost
    neg_one_le_write := Kernel.neg_one_le_writeMost
    write_le := Kernel.writeMost_le
    write_of_neg := Kernel.writeMost_of_neg }

/-- The write of the registry entry for `int main()` fails. -/
theorem entered_not_keepsUnannouncedOut :
    ∃ initialized final, controllerInitialize Kernel.choosy StartUp.smooth Library.initial =
        some initialized ∧
      ProbeCall.runAll Kernel.choosy [(0, .before (.literal "Main") (.literal "int main()"))]
        initialized = some final ∧
      ¬KeepsUnannouncedOut Kernel.choosy
        [(0, .before (.literal "Main") (.literal "int main()"))] initialized := by
  have fits : ∀ call ∈ [PlainCall.before 0 (.literal "Main") (.literal "int main()")],
      ∀ signature ∈ call.signatures, signature.Fits := by decide
  rcases exists_called Kernel.choosy fits with ⟨initialized, final, done, serves, ran⟩
  have isUsed : CString.literal "int main()" ∈
      (ProbeCall.before (.literal "Main") (.literal "int main()")).strings Kernel.choosy 0
        initialized := by
    simp [ProbeCall.strings]
  rcases Channel.exists_announcement Kernel.choosy serves (by decide) isUsed with
    ⟨announcement, isMade, -, index, result⟩
  refine ⟨initialized, final, done, ran, not_keepsUnannouncedOut serves ran
    (List.mem_append_left _ isMade) ?_⟩
  rw [result]
  exact if_pos (Or.inr (by decide))

end Kieker
