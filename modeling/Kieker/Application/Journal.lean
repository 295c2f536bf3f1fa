import Kieker.Application.Chronicle
import Kieker.Application.Stream
import Kieker.Probes.Spells

/-!
# Plain probes without nesting

Threads call the plain probes in any order, and may leave what they never entered
or never leave what they entered. A journal keeps the records that were sent. The
events that a spell sends are numbered from zero, in one trace; metadata is sent if
the spell begins with an operation that is entered.
-/

namespace Kieker

/-- The library, and the records that were sent. -/
structure Journal where
  library : Library
  sent : List Logged

namespace Journal

/-- Nothing was sent yet. -/
def start (library : Library) : Journal where
  library := library
  sent := []

/-- One call of a plain probe. -/
def call (kernel : Kernel) (journal : Journal) (next : PlainCall) : Option Journal := do
  let after ← next.run kernel journal.library
  some {
    library := after
    sent := journal.sent ++
      (next.emission kernel journal.library.hostname journal.library).records }

/-- Calls one after another. -/
def run (kernel : Kernel) (calls : List PlainCall) (journal : Journal) : Option Journal :=
  calls.foldlM (call kernel) journal

theorem run_concat (kernel : Kernel) (calls : List PlainCall) (last : PlainCall)
    (journal : Journal) : run kernel (calls ++ [last]) journal =
      (run kernel calls journal).bind fun middle => middle.call kernel last := by
  rw [run, List.foldlM_append]
  congr 1
  funext middle
  simp

end Journal

/-- The numbers of the events of a trace, in the order in which they were sent. -/
def positions (id : ℤ) (sent : List Logged) : List ℤ :=
  (recordsOf id sent).filterMap Record.orderIndex

/-- What holds between the calls. -/
structure Journal.Kept (start : Library) (hostname : CString) (calls : List PlainCall)
    (journal : Journal) (known : List CString) : Prop where
  idle : journal.library.Idle known hostname
  spells : journal.library.registry.CountsSpells calls
  apart : ∀ trace ∈ journal.library.registry.traces,
    ∀ other ∈ journal.library.registry.traces, trace.traceId = other.traceId → trace = other
  used : ∀ trace ∈ journal.library.registry.traces,
    trace.traceId < journal.library.registry.currentId
  sentUsed : ∀ logged ∈ journal.sent,
    logged.record.traceId < journal.library.registry.currentId
  numbered : ∀ trace ∈ journal.library.registry.traces, positions trace.traceId journal.sent =
    (List.range (spellOf trace.threadId calls).events).map fun number : ℕ => (number : ℤ)
  socket : journal.library.channel.controller.socket = start.channel.controller.socket
  carries : ∃ made, journal.library.channel.world.log = start.channel.world.log ++ made ∧
    Carries known start.channel.controller.socket made journal.sent

/-- What a call adds to the records of a trace. -/
structure Journal.Adds (calls : List PlainCall) (next : PlainCall) (sent : List Logged) (id : ℤ)
    (built : List Logged) : Prop where
  records : ∃ metadata event, built.map Logged.record =
      (if next.isAfter = false ∧ (spellOf next.threadId calls).ended = true
        then [.traceMetadata metadata] else []) ++ [event] ∧
    event.orderIndex = some ((spellOf next.threadId calls).resume.events : ℤ)
  ofTrace : ∀ logged ∈ built, logged.record.traceId = id
  new : (spellOf next.threadId calls).ended = true → recordsOf id sent = []
  numbered : positions id sent =
    (List.range (spellOf next.threadId calls).resume.events).map fun number : ℕ => (number : ℤ)

variable {kernel : Kernel} {start : Library} {hostname : CString} {calls : List PlainCall}
  {next : PlainCall} {journal later : Journal} {known : List CString} {id : ℤ}
  {sent built : List Logged}

theorem positions_append (id : ℤ) (sent built : List Logged) :
    positions id (sent ++ built) = positions id sent ++ positions id built := by
  rw [positions, recordsOf_append, List.filterMap_append]
  rfl

namespace PlainCall

/-- A call sends the metadata of a new trace, if it enters an operation, and then an event. -/
theorem records_emission (call : PlainCall) (kernel : Kernel) (hostname : CString)
    (library : Library) :
    ∃ metadata event, (call.emission kernel hostname library).records.map Logged.record =
      (if call.isAfter = false ∧ (library.registry.current kernel call.self).orderIndex = -1
        then [.traceMetadata metadata] else []) ++ [event] ∧
    event.orderIndex = some ((library.registry.current kernel call.self).orderIndex + 1) := by
  cases call with
  | before self classSignature operationSignature =>
      refine ⟨traceMetadataOf hostname (library.registry.current kernel self),
        (beforeLogged kernel (library.channel.world.clockReads + Logged.clockReadsAll
          (openingLogged kernel hostname library.channel.world.clockReads
            (library.registry.current kernel self))) (library.registry.current kernel self).enter
          classSignature operationSignature).record, ?_, rfl⟩
      have built : ∀ opening event,
          (⟨opening ++ [event], true⟩ : Emission).records.map Logged.record =
            opening.map Logged.record ++ [event.record] := by simp [Emission.records]
      refine (built _ _).trans ?_
      unfold openingLogged
      by_cases isNew : (library.registry.current kernel self).orderIndex = -1
      · simp [isNew, isAfter, PlainCall.self, metadataLogged]
      · simp [isNew, isAfter, PlainCall.self]
  | after self classSignature operationSignature =>
      exact ⟨traceMetadataOf hostname (library.registry.current kernel self), _, rfl, rfl⟩

theorem traceId_of_emission (call : PlainCall) {library : Library} {logged : Logged}
    (isBuilt : logged ∈ (call.emission kernel hostname library).records) :
    logged.record.traceId = (library.registry.current kernel call.self).traceId := by
  cases call with
  | before self classSignature operationSignature =>
      rcases List.mem_append.mp isBuilt with opening | event
      · rw [mem_openingLogged opening]
        rfl
      · rw [List.mem_singleton.mp event]
        rfl
  | after self classSignature operationSignature =>
      rw [List.mem_singleton.mp isBuilt]
      rfl

end PlainCall

namespace Journal.Adds

theorem other (adds : Adds calls next sent id built) {otherId : ℤ} (different : otherId ≠ id) :
    recordsOf otherId (sent ++ built) = recordsOf otherId sent := by
  have untouched : recordsOf otherId built = [] := by
    apply recordsOf_of_none
    intro logged isBuilt
    rw [adds.ofTrace logged isBuilt]
    exact different.symm
  rw [recordsOf_append, untouched, List.append_nil]

theorem self (adds : Adds calls next sent id built) :
    recordsOf id (sent ++ built) = recordsOf id sent ++ built.map Logged.record := by
  rw [recordsOf_append, recordsOf_of_all adds.ofTrace]

/-- The event carries the next number of its trace. -/
theorem positions_self (adds : Adds calls next sent id built) :
    positions id (sent ++ built) =
      (List.range ((spellOf next.threadId calls).resume.events + 1)).map
        fun number : ℕ => (number : ℤ) := by
  rcases adds.records with ⟨metadata, event, records, orderIndex⟩
  have added : (built.map Logged.record).filterMap Record.orderIndex =
      [((spellOf next.threadId calls).resume.events : ℤ)] := by
    have isEvent : [event].filterMap Record.orderIndex =
        [((spellOf next.threadId calls).resume.events : ℤ)] := by
      rw [List.filterMap_cons_some orderIndex, List.filterMap_nil]
    rw [records, List.filterMap_append, isEvent]
    split
    · rfl
    · rfl
  rw [positions, adds.self, List.filterMap_append, added, ← positions, adds.numbered,
    List.range_succ, List.map_append]
  rfl

end Journal.Adds

namespace Journal

theorem call_eq_some : journal.call kernel next = some later ↔
    ∃ after, next.run kernel journal.library = some after ∧ later = ⟨after, journal.sent ++
      (next.emission kernel journal.library.hostname journal.library).records⟩ := by
  rw [call, Option.bind_eq_bind, Option.bind_eq_some_iff]
  constructor
  · rintro ⟨after, done, same⟩
    exact ⟨after, done, (Option.some.inj same).symm⟩
  · rintro ⟨after, done, rfl⟩
    exact ⟨after, done, rfl⟩

namespace Kept

/-- What the trace of the next call was told by so far, and that its id is used up. -/
theorem current (kept : journal.Kept start hostname calls known) (kernel : Kernel)
    (next : PlainCall) :
    ((spellOf next.threadId calls).ended = true → recordsOf
        (journal.library.registry.current kernel next.self).traceId journal.sent = []) ∧
      positions (journal.library.registry.current kernel next.self).traceId journal.sent =
        (List.range (spellOf next.threadId calls).resume.events).map
          (fun number : ℕ => (number : ℤ)) ∧
      (∀ other ∈ journal.library.registry.traces,
        other.address ≠ (journal.library.registry.current kernel next.self).address →
          other.traceId ≠ (journal.library.registry.current kernel next.self).traceId) ∧
      (journal.library.registry.current kernel next.self).traceId <
        (next.registry kernel journal.library.registry).currentId ∧
      journal.library.registry.currentId ≤
        (next.registry kernel journal.library.registry).currentId := by
  rw [PlainCall.currentId_registry]
  cases found : journal.library.registry.traceFind next.threadId with
  | some trace =>
      rcases TraceRegistry.mem_of_traceFind found with ⟨inMap, mine⟩
      rcases kept.spells.known trace inMap with ⟨goesOn, -⟩
      rw [mine] at goesOn
      rw [(TraceRegistry.traceGet_of_some kernel found).2, Spell.resume, goesOn, ← mine]
      refine ⟨fun hasEnded => Bool.noConfusion hasEnded, kept.numbered trace inMap, ?_,
        kept.used trace inMap, le_refl _⟩
      intro other otherInMap different same
      exact different (congrArg KiekerTrace.address (kept.apart other otherInMap trace inMap same))
  | none =>
      have missing : ∀ trace ∈ journal.library.registry.traces,
          trace.threadId ≠ next.threadId := fun _ => TraceRegistry.threadId_ne_of_traceFind found
      have hasEnded := kept.spells.unknown next.threadId missing
      have noRecord : recordsOf journal.library.registry.currentId journal.sent = [] :=
        recordsOf_of_none fun logged isSent => (kept.sentUsed logged isSent).ne
      rw [TraceRegistry.current_of_notMem missing, Spell.resume, if_pos hasEnded]
      refine ⟨fun _ => noRecord, ?_, fun other otherInMap _ => (kept.used other otherInMap).ne,
        lt_add_one _, (lt_add_one _).le⟩
      rw [positions]
      change (recordsOf journal.library.registry.currentId journal.sent).filterMap _ = _
      rw [noRecord]
      rfl

theorem adds (kept : journal.Kept start hostname calls known) (kernel : Kernel)
    (next : PlainCall) :
    Adds calls next journal.sent (journal.library.registry.current kernel next.self).traceId
      (next.emission kernel journal.library.hostname journal.library).records := by
  rcases kept.current kernel next with ⟨new, numbered, -⟩
  rcases kept.spells.current kernel next with ⟨-, events⟩
  have isNew : (journal.library.registry.current kernel next.self).orderIndex = -1 ↔
      (spellOf next.threadId calls).ended = true := by
    rw [← events_resume_eq_zero_iff]
    omega
  refine ⟨?_, ?_, new, numbered⟩
  · rcases next.records_emission kernel journal.library.hostname journal.library with
      ⟨metadata, event, records, orderIndex⟩
    simp only [isNew] at records
    rw [← events] at orderIndex
    exact ⟨metadata, event, records, orderIndex⟩
  · exact fun _ isBuilt => next.traceId_of_emission isBuilt

theorem step (kept : journal.Kept start hostname calls known)
    (done : journal.call kernel next = some later) :
    ∃ known, later.Kept start hostname (calls ++ [next]) known := by
  rcases call_eq_some.mp done with ⟨after, ran, rfl⟩
  rw [kept.idle.hostname_eq]
  have called : journal.library.Calls kernel after known (next.registry kernel _)
      (next.emission kernel hostname journal.library) := PlainCall.calls kept.idle ran
  have adds := kept.adds kernel next
  rw [kept.idle.hostname_eq] at adds
  have wellFormed := kept.idle.wellFormed
  have keeps := next.keepsIdentity_count
  have spells := kept.spells.next wellFormed kernel next
  rcases kept.current kernel next with ⟨-, -, others, below, grows⟩
  have sameMap := called.registry
  rw [← sameMap] at spells below grows
  have mem : ∀ trace, trace ∈ after.registry.traces ↔
      trace = next.count (journal.library.registry.current kernel next.self) ∧
          (next.isAfter = true → trace.stack ≠ 0) ∨
        trace ∈ journal.library.registry.traces ∧
          trace.address ≠ (journal.library.registry.current kernel next.self).address := by
    intro trace
    rw [sameMap, PlainCall.mem_registry wellFormed]
  refine ⟨_, called.idle kept.idle (PlainCall.wellFormed_registry wellFormed), spells,
    ?_, ?_, ?_, ?_, called.emits.socket.trans kept.socket, ?_⟩
  · intro trace inMap other otherInMap same
    rcases (mem trace).mp inMap with ⟨rfl, -⟩ | ⟨old, different⟩
    · rcases (mem other).mp otherInMap with ⟨rfl, -⟩ | ⟨otherOld, otherDifferent⟩
      · rfl
      · rw [keeps.traceId] at same
        exact absurd same.symm (others other otherOld otherDifferent)
    · rcases (mem other).mp otherInMap with ⟨rfl, -⟩ | ⟨otherOld, otherDifferent⟩
      · rw [keeps.traceId] at same
        exact absurd same (others trace old different)
      · exact kept.apart trace old other otherOld same
  · intro trace inMap
    rcases (mem trace).mp inMap with ⟨rfl, -⟩ | ⟨old, -⟩
    · rw [keeps.traceId]
      exact below
    · exact (kept.used trace old).trans_le grows
  · intro logged isSent
    rcases List.mem_append.mp isSent with earlier | now
    · exact (kept.sentUsed logged earlier).trans_le grows
    · rw [adds.ofTrace logged now]
      exact below
  · intro trace inMap
    rcases (mem trace).mp inMap with ⟨rfl, -⟩ | ⟨old, different⟩
    · have mine : next.threadId = (next.count
          (journal.library.registry.current kernel next.self)).threadId := by
        rw [keeps.threadId, TraceRegistry.threadId_current]
        rfl
      rw [keeps.traceId, adds.positions_self, spellOf_concat_self calls mine, Spell.events_next,
        ← mine]
    · rw [positions, adds.other (others trace old different),
        spellOf_concat_other calls (PlainCall.threadId_ne wellFormed old different)]
      exact kept.numbered trace old
  · rcases kept.carries with ⟨made, logEq, carries⟩
    exact called.emits.carries kept.socket logEq carries

theorem initial (idle : start.Idle known hostname) (noTraces : start.registry.traces = []) :
    (Journal.start start).Kept start hostname [] known := by
  have nothing : ∀ trace, trace ∉ start.registry.traces := by
    rw [noTraces]
    exact fun _ => List.not_mem_nil
  exact {
    idle := idle
    spells := .initial noTraces
    apart := fun trace inMap => absurd inMap (nothing trace)
    used := fun trace inMap => absurd inMap (nothing trace)
    sentUsed := fun _ isSent => absurd isSent List.not_mem_nil
    numbered := fun trace inMap => absurd inMap (nothing trace)
    socket := rfl
    carries := ⟨[], (List.append_nil _).symm, .nil _ _⟩ }

theorem of_run (idle : start.Idle known hostname) (noTraces : start.registry.traces = [])
    (done : run kernel calls (Journal.start start) = some journal) :
    ∃ known, journal.Kept start hostname calls known := by
  induction calls using List.reverseRecOn generalizing journal with
  | nil =>
      cases done
      exact ⟨known, initial idle noTraces⟩
  | append_singleton calls last ih =>
      rw [run_concat, Option.bind_eq_some_iff] at done
      rcases done with ⟨middle, earlier, called⟩
      rcases ih earlier with ⟨middleKnown, kept⟩
      exact kept.step called

theorem exists_run (kernel : Kernel) (idle : start.Idle known hostname)
    (noTraces : start.registry.traces = []) (hostnameFits : hostname.Fits)
    (calls : List PlainCall)
    (fits : ∀ call ∈ calls, ∀ signature ∈ call.signatures, signature.Fits) :
    ∃ journal, run kernel calls (Journal.start start) = some journal := by
  induction calls using List.reverseRecOn with
  | nil => exact ⟨_, rfl⟩
  | append_singleton calls last ih =>
      rcases ih fun call call_mem => fits call (List.mem_append_left _ call_mem) with
        ⟨middle, ran⟩
      rcases of_run idle noTraces ran with ⟨middleKnown, kept⟩
      rcases last.run_isSome kernel kept.idle hostnameFits
        (fits last (List.mem_append_right _ List.mem_cons_self)) with ⟨after, done⟩
      have called := call_eq_some.mpr ⟨after, done, rfl⟩
      rw [run_concat, ran, Option.bind_some]
      exact ⟨_, called⟩

end Kept

end Journal

end Kieker
