import Kieker.Application.Collecting

/-!
# The stream as a timeline

Whatever threads do, the events on the stream are those of their calls, in the one
order in which the calls were made, and the times in the records are readings of the
clock in the order in which it was read: the time of an event, then the time at which
its record is logged. So if the clock does not go back, neither does the stream, and
if it always advances, the times alone tell the order of all calls.
-/

namespace Kieker

open Nesting

/-! ### Times of records -/

/-- The times in a record, in the order in which they are taken. -/
def Logged.times (logged : Logged) : List ℤ :=
  match logged.record with
  | .traceMetadata _ => [logged.timestamp]
  | .beforeOperationEvent value => [value.timestamp, logged.timestamp]
  | .afterOperationEvent value => [value.timestamp, logged.timestamp]

/-- The times in a record that was received. -/
def ReceivedRecord.times (record : ReceivedRecord) : List ℤ :=
  match record.members with
  | [.int64 timestamp, .int64 _, .int32 _, .string _, .string _] => [timestamp, record.timestamp]
  | _ => [record.timestamp]

theorem times_received (logged : Logged) :
    logged.received.times = logged.times.map toInt64 := by
  rcases logged with ⟨timestamp, record⟩
  cases record <;> rfl

/-- The event that a record tells. -/
def Told.reported : Told → Option (Event WireOperation)
  | Told.opened => none
  | Told.event reported _ => some reported

/-- The event in a record that was received. -/
def ReceivedRecord.reported (record : ReceivedRecord) : Option (Event WireOperation) :=
  record.told.bind fun told => told.2.reported

theorem reported_received (logged : Logged) :
    logged.received.reported = logged.record.told.reported := by
  rw [ReceivedRecord.reported, told_received]
  rfl

/-- Consecutive readings of the clock. -/
def readings (kernel : Kernel) (first count : ℕ) : List ℤ :=
  (List.range' first count).map (timeAt kernel)

theorem readings_add (kernel : Kernel) (first count more : ℕ) :
    readings kernel first (count + more) =
      readings kernel first count ++ readings kernel (first + count) more := by
  rw [readings, readings, readings, ← List.map_append, List.range'_append_1]

/-! ### What emissions tell -/

variable {kernel : Kernel} {self : PthreadSelf} {library after : Library} {known : List CString}
  {hostname : CString} {operation : Operation} {trace : KiekerTrace}

/-- The records of an emission take the times that the clock is read for them, three at most. -/
structure Emission.ReadsFrom (kernel : Kernel) (reading : ℕ) (emission : Emission) : Prop where
  times : emission.built.flatMap Logged.times =
    readings kernel reading (Logged.clockReadsAll emission.built)
  few : Logged.clockReadsAll emission.built ≤ 3

/-- The operations whose events are sent. -/
def Operation.IsReported (filter : AdaptiveFilter) (operation : Operation) : Bool :=
  match operation.probe with
  | .plain => true
  | .event => !filter.isClassExcluded operation.classSignature

theorem readsFrom_opening (reading : ℕ) (isSent : Bool) :
    (Emission.mk (openingLogged kernel hostname reading trace) isSent).ReadsFrom kernel
      reading := by
  unfold openingLogged
  split
  · exact ⟨rfl, show 1 ≤ 3 by decide⟩
  · exact ⟨rfl, show 0 ≤ 3 by decide⟩

theorem clockReads_opening (reading : ℕ) :
    Logged.clockReadsAll (openingLogged kernel hostname reading trace) ≤ 1 := by
  unfold openingLogged
  split
  · exact le_refl _
  · exact Nat.zero_le _

theorem readsFrom_opening_before (reading : ℕ) {changed : KiekerTrace}
    {classSignature operationSignature : CString} {isSent : Bool} :
    let opening := openingLogged kernel hostname reading trace
    (Emission.mk (opening ++ [beforeLogged kernel (reading + Logged.clockReadsAll opening) changed
      classSignature operationSignature]) isSent).ReadsFrom kernel reading := by
  intro opening
  have counted : Logged.clockReadsAll (opening ++ [beforeLogged kernel
      (reading + Logged.clockReadsAll opening) changed classSignature operationSignature]) =
        Logged.clockReadsAll opening + 2 := by
    simp [Logged.clockReadsAll, beforeLogged, Record.clockReads]
  have atMost : Logged.clockReadsAll opening ≤ 1 := clockReads_opening reading
  refine ⟨?_, by rw [counted]; omega⟩
  rw [counted, readings_add, List.flatMap_append, (readsFrom_opening reading isSent).times]
  rfl

theorem reported_openingLogged (reading : ℕ) :
    (openingLogged kernel hostname reading trace).filterMap (fun logged =>
      logged.record.told.reported) = [] := by
  unfold openingLogged
  split
  · rfl
  · rfl

theorem readsFrom_enterEmission (kernel : Kernel) (self : PthreadSelf) (operation : Operation)
    (library : Library) :
    (library.enterEmission kernel self operation).ReadsFrom kernel
      library.channel.world.clockReads := by
  rcases operation with ⟨_ | _, classSignature, operationSignature⟩
  · exact readsFrom_opening_before _
  · simp only [Library.enterEmission, aspectBeforeEmission]
    split
    · exact readsFrom_opening _ _
    · exact readsFrom_opening_before _

theorem readsFrom_leaveEmission (kernel : Kernel) (self : PthreadSelf) (operation : Operation)
    (found : library.registry.deref trace.address = some trace) :
    (library.leaveEmission kernel self operation trace.address).ReadsFrom kernel
      library.channel.world.clockReads := by
  rcases operation with ⟨_ | _, classSignature, operationSignature⟩
  · exact ⟨rfl, show 2 ≤ 3 by decide⟩
  · simp only [Library.leaveEmission, found, aspectAfterEmission]
    split
    · exact ⟨rfl, show 0 ≤ 3 by decide⟩
    · exact ⟨rfl, show 2 ≤ 3 by decide⟩

/-- Entering an operation sends its event, unless its class is excluded. -/
theorem reported_enterEmission (kernel : Kernel) (self : PthreadSelf) (operation : Operation)
    (library : Library) :
    ((library.enterEmission kernel self operation).records.filterMap fun logged =>
      logged.record.told.reported) =
        if operation.IsReported library.filter then [.enter operation.onWire] else [] := by
  rcases operation with ⟨_ | _, classSignature, operationSignature⟩
  · simp only [Library.enterEmission, beforeEmission, Emission.records, if_true,
      List.filterMap_append, reported_openingLogged]
    rfl
  · simp only [Library.enterEmission, aspectBeforeEmission]
    by_cases isExcluded : library.filter.isClassExcluded classSignature = true
    · simp [isExcluded, Emission.records, Operation.IsReported]
    · rw [if_neg isExcluded, if_pos (by simpa [Operation.IsReported] using isExcluded)]
      simp only [Emission.records, if_true, List.filterMap_append, reported_openingLogged]
      rfl

theorem reported_leaveEmission (kernel : Kernel) (self : PthreadSelf) (operation : Operation)
    (found : library.registry.deref trace.address = some trace) :
    ((library.leaveEmission kernel self operation trace.address).records.filterMap fun logged =>
      logged.record.told.reported) =
        if operation.IsReported library.filter then [.leave operation.onWire] else [] := by
  rcases operation with ⟨_ | _, classSignature, operationSignature⟩
  · rfl
  · simp only [Library.leaveEmission, found, aspectAfterEmission]
    by_cases isExcluded : library.filter.isClassExcluded classSignature = true
    · simp [isExcluded, Emission.records, Operation.IsReported]
    · rw [if_neg isExcluded, if_pos (by simpa [Operation.IsReported] using isExcluded)]
      rfl

/-! ### Runs -/

variable {Thread : Type} {calls : List (Call Thread)} {next : Call Thread}
  {application later : Application Thread} {filter : AdaptiveFilter} {first : ℕ}

/-- The events of the calls that are sent, in the order of the calls. -/
def reportedOf (filter : AdaptiveFilter) (calls : List (Call Thread)) :
    List (Event WireOperation) :=
  (calls.filter fun call => call.operation.IsReported filter).map fun call =>
    call.event.map Operation.onWire

theorem reportedOf_concat (filter : AdaptiveFilter) (calls : List (Call Thread))
    (next : Call Thread) :
    reportedOf filter (calls ++ [next]) = reportedOf filter calls ++
      if next.operation.IsReported filter then [next.event.map Operation.onWire] else [] := by
  rw [reportedOf, List.filter_append, List.map_append]
  by_cases isReported : next.operation.IsReported filter = true
  · rw [if_pos isReported, List.filter_singleton, isReported]
    rfl
  · rw [if_neg isReported, List.filter_singleton, Bool.eq_false_iff.mpr isReported]
    rfl

/--
The records sent take readings of the clock since the first one, in order, and tell
the events of the calls.
-/
structure Application.Timed (kernel : Kernel) (filter : AdaptiveFilter) (first : ℕ)
    (calls : List (Call Thread)) (application : Application Thread) : Prop where
  sameFilter : application.library.filter = filter
  times : ∃ count ≤ 3 * calls.length,
    application.library.channel.world.clockReads = first + count ∧
      (application.sent.flatMap Logged.times).Sublist (readings kernel first count)
  reported : (application.sent.filterMap fun logged => logged.record.told.reported) =
    reportedOf filter calls

namespace Application.Timed

theorem start (kernel : Kernel) (library : Library) :
    (Application.start library : Application Thread).Timed kernel library.filter
      library.channel.world.clockReads [] where
  sameFilter := rfl
  times := ⟨0, le_refl _, rfl, List.Sublist.slnil⟩
  reported := rfl

/-- What is not sent leaves a gap in the readings. -/
theorem emit {emission : Emission} {registry : TraceRegistry}
    (timed : application.Timed kernel filter first calls)
    {frames : List (Frame Thread Operation)}
    (called : application.library.Calls kernel after known registry emission)
    (reads : emission.ReadsFrom kernel application.library.channel.world.clockReads)
    (reported : (emission.records.filterMap fun logged => logged.record.told.reported) =
      if next.operation.IsReported application.library.filter then
        [next.event.map Operation.onWire] else []) :
    Application.Timed kernel filter first (calls ++ [next])
      ⟨after, frames, application.sent ++ emission.records⟩ where
  sameFilter := called.filter.trans timed.sameFilter
  times := by
    rcases timed.times with ⟨count, few, counted, earlier⟩
    refine ⟨count + Logged.clockReadsAll emission.built, ?_, ?_, ?_⟩
    · have fewMore := reads.few
      rw [List.length_append, List.length_singleton]
      omega
    · rw [called.emits.clockReads, counted, Nat.add_assoc]
    · have sentOf : (emission.records.flatMap Logged.times).Sublist
          (emission.built.flatMap Logged.times) := by
        unfold Emission.records
        split
        · exact List.Sublist.refl _
        · exact List.nil_sublist _
      rw [List.flatMap_append, readings_add, ← counted, ← reads.times]
      exact earlier.append sentOf
  reported := by
    rw [List.filterMap_append, timed.reported, reported, reportedOf_concat, timed.sameFilter]

variable [DecidableEq Thread] {selfOf : Thread → PthreadSelf}

theorem call (timed : application.Timed kernel filter first calls)
    (idle : application.library.Idle known hostname)
    (tracked : Tracked selfOf application.library.registry application.frames)
    (called : application.call kernel selfOf next = some later) :
    later.Timed kernel filter first (calls ++ [next]) := by
  rcases next with ⟨thread, operation | operation⟩
  · rcases Application.call_enter_eq_some.mp called with ⟨address, after, entered, rfl⟩
    rcases Library.enter_eq_some idle entered with ⟨-, calls⟩
    exact timed.emit calls (readsFrom_enterEmission kernel _ operation _)
      (reported_enterEmission kernel _ operation _)
  · rcases Application.call_leave_eq_some.mp called with
      ⟨frame, rest, after, popped, rfl, left, rfl⟩
    have mine : frame.thread = thread := owner_of_pop popped
    subst mine
    have isOpen : frame ∈ application.frames :=
      (perm_of_pop popped).mem_iff.mpr List.mem_cons_self
    rcases tracked.framed frame isOpen with ⟨trace, inMap, address, ofThread⟩
    have found := idle.wellFormed.deref_of_mem inMap
    rw [← address] at left ⊢
    have calls := Library.leave_eq_some idle inMap ofThread left
    exact timed.emit calls (readsFrom_leaveEmission kernel _ frame.operation found)
      (reported_leaveEmission kernel _ frame.operation found)

end Application.Timed

variable [DecidableEq Thread] {selfOf : Thread → PthreadSelf} {socket : ℤ}
  {before : List Syscall} {vocabulary : List CString}

/-- The calls of a run whose writes are complete are on the stream, in their order. -/
theorem Application.Streams.timed
    (initial : (Application.start library).Streams selfOf hostname socket before vocabulary []
      known)
    (complete : kernel.CompleteOn socket) (few : vocabulary.dedup.length < 2 ^ 31)
    (hostnameFits : hostname.Fits) (nested : WellNested calls)
    (fits : ∀ call ∈ calls, call.operation.classSignature.Fits ∧
      call.operation.operationSignature.Fits)
    (spoken : ∀ call ∈ calls, call.operation.vocabulary hostname ⊆ vocabulary)
    (ran : Application.run kernel selfOf calls (Application.start library) = some application) :
    application.Timed kernel library.filter library.channel.world.clockReads calls := by
  induction calls using List.reverseRecOn generalizing application with
  | nil =>
      cases ran
      exact Timed.start kernel library
  | append_singleton calls next ih =>
      have earlierFits : ∀ call ∈ calls, call.operation.classSignature.Fits ∧
          call.operation.operationSignature.Fits :=
        fun call call_mem => fits call (List.mem_append_left _ call_mem)
      have earlierSpoken : ∀ call ∈ calls, call.operation.vocabulary hostname ⊆ vocabulary :=
        fun call call_mem => spoken call (List.mem_append_left _ call_mem)
      rcases initial.run complete few hostnameFits nested.of_append earlierFits earlierSpoken with
        ⟨middle, ranMiddle, middleKnown, streams⟩
      rw [Application.run_concat, ranMiddle, Option.bind_some] at ran
      exact (ih nested.of_append earlierFits earlierSpoken ranMiddle).call streams.idle
        streams.tracked ran

/-! ### Sorting the stream -/

theorem mem_readings {count limit : ℕ} (inRun : first + count ≤ limit) {time : ℤ}
    (isRead : time ∈ readings kernel first count) :
    ∃ reading < limit, timeAt kernel reading = time := by
  rcases List.mem_map.mp isRead with ⟨reading, inRange, rfl⟩
  have := List.mem_range'_1.mp inRange
  exact ⟨reading, by omega, rfl⟩

/-- Before reading number `limit`, each reading stands in some relation to the later ones. -/
def Kernel.ClockRuns (kernel : Kernel) (before : ℤ → ℤ → Prop) (limit : ℕ) : Prop :=
  ∀ earlier later, earlier < later → later < limit →
    before (timeAt kernel earlier) (timeAt kernel later)

theorem readings_pairwise {count limit : ℕ} (inRun : first + count ≤ limit)
    {before : ℤ → ℤ → Prop} (clock : kernel.ClockRuns before limit) :
    (readings kernel first count).Pairwise before := by
  rw [readings, List.pairwise_map]
  have ascending : (List.range' first count).Pairwise (· < ·) := List.pairwise_lt_range'
  refine ascending.imp_of_mem fun {earlier later} earlierIn laterIn isBefore => ?_
  have := List.mem_range'_1.mp laterIn
  exact clock earlier later isBefore (by omega)

/-- A received record is logged at the last of its times. -/
theorem ReceivedRecord.timestamp_sublist (record : ReceivedRecord) :
    [record.timestamp].Sublist record.times := by
  unfold ReceivedRecord.times
  split
  · exact List.Sublist.cons _ (List.Sublist.refl _)
  · exact List.Sublist.refl _

theorem timestamps_sublist (received : List ReceivedRecord) :
    (received.map ReceivedRecord.timestamp).Sublist (received.flatMap ReceivedRecord.times) := by
  induction received with
  | nil => exact List.Sublist.slnil
  | cons record rest ih => exact record.timestamp_sublist.append ih

/-- Records with increasing times can be shuffled, and are in order again when sorted by time. -/
theorem eq_of_sorted {received shuffled : List ReceivedRecord}
    (increasing : (received.flatMap ReceivedRecord.times).Pairwise (· < ·))
    (perm : shuffled.Perm received)
    (sorted : shuffled.Pairwise fun earlier later => earlier.timestamp ≤ later.timestamp) :
    shuffled = received := by
  have strict : (received.map ReceivedRecord.timestamp).Pairwise (· < ·) :=
    increasing.sublist (timestamps_sublist received)
  have apart : (received.map ReceivedRecord.timestamp).Nodup := strict.imp fun before => before.ne
  have ordered : received.Pairwise fun earlier later => earlier.timestamp ≤ later.timestamp :=
    (List.pairwise_map.mp strict).imp le_of_lt
  apply perm.eq_of_pairwise ?_ sorted ordered
  intro one other oneMem otherMem oneLe otherLe
  exact List.inj_on_of_nodup_map apart (perm.subset oneMem) otherMem
    (le_antisymm oneLe otherLe)

/-- Times within the width of the wire arrive as they are. -/
theorem times_map_received {sent : List Logged}
    (bounded : ∀ time ∈ sent.flatMap Logged.times, -2 ^ 63 ≤ time ∧ time < 2 ^ 63) :
    (sent.map Logged.received).flatMap ReceivedRecord.times = sent.flatMap Logged.times := by
  have narrowed : (sent.map Logged.received).flatMap ReceivedRecord.times =
      (sent.flatMap Logged.times).map toInt64 := by
    rw [List.flatMap_map, List.map_flatMap]
    exact List.flatMap_congr fun logged _ => times_received logged
  rw [narrowed]
  conv_rhs => rw [← List.map_id (sent.flatMap Logged.times)]
  apply List.map_congr_left
  intro time isTime
  exact toInt64_of_bounds (bounded time isTime).1 (bounded time isTime).2

theorem filterMap_map_received (sent : List Logged) :
    (sent.map Logged.received).filterMap ReceivedRecord.reported =
      sent.filterMap fun logged => logged.record.told.reported := by
  rw [List.filterMap_map]
  exact List.filterMap_congr fun logged _ => reported_received logged

/--
After an initialisation that connected with an empty string table, any number of
threads make calls, one at a time and each well nested, and every write is complete.
Then, whatever the clock does, the events on the stream are those of the calls that
are not excluded, in the order in which the calls were made. As long as the clock
stays within 64 bits and does not go back, the times on the stream do not go back
either; and as long as it always advances, the records of the stream can be shuffled,
and sorting them by time gives the calls in their order again.
-/
theorem stream_is_timeline {startUp : StartUp} (connects : startUp.Connects hostname)
    (unconfigured : library.channel.controller.initState = .unconfigured)
    (emptyTable : library.channel.lookup.Holds []) (settled : library.registry.Settled)
    (complete : kernel.CompleteOn startUp.socket) (nested : WellNested calls)
    (short : ∀ call ∈ calls, call.operation.classSignature.length ≤ 8180 ∧
      call.operation.operationSignature.length ≤ 8180)
    (few : (vocabularyOf hostname calls).dedup.length < 2 ^ 31) :
    ∃ initialized final made entries last received,
      controllerInitialize kernel startUp library = some initialized ∧
      Application.run kernel selfOf calls (Application.start initialized) = some final ∧
      final.library.channel.world.log = library.channel.world.log ++ made ∧
      Entry.codec.encodeAll entries = writtenTo startUp.socket made ∧
      Registry.empty.receive entries = some (last, received) ∧
      received.filterMap ReceivedRecord.reported = reportedOf initialized.filter calls ∧
      ((∀ reading < library.channel.world.clockReads + 3 * calls.length,
          -2 ^ 63 ≤ timeAt kernel reading ∧ timeAt kernel reading < 2 ^ 63) →
        (kernel.ClockRuns (· ≤ ·) (library.channel.world.clockReads + 3 * calls.length) →
          (received.flatMap ReceivedRecord.times).Pairwise (· ≤ ·)) ∧
        (kernel.ClockRuns (· < ·) (library.channel.world.clockReads + 3 * calls.length) →
          ∀ shuffled : List ReceivedRecord, shuffled.Perm received →
            (shuffled.Pairwise fun earlier later => earlier.timestamp ≤ later.timestamp) →
            shuffled.filterMap ReceivedRecord.reported = reportedOf initialized.filter calls)) := by
  rcases controllerInitialize_of_unconfigured kernel startUp library emptyTable unconfigured
    connects.named connects.rwlockInit with ⟨initialized, done, initializes⟩
  have fits := fits_of_short short
  have spoken := vocabulary_subset hostname calls
  have initial : (Application.start initialized).Streams selfOf hostname startUp.socket
      library.channel.world.log (vocabularyOf hostname calls) [] eventTypes :=
    initializes.streams connects settled complete (List.subset_append_left _ _)
  have hostnameFits := StartUp.fits_gethostname connects.named
  rcases initial.run complete few hostnameFits nested fits spoken with ⟨final, ran, known, streams⟩
  rcases streams.delivered with ⟨made, entries, last, logEq, written, received, -⟩
  have timed := initial.timed complete few hostnameFits nested fits spoken ran
  rcases timed.times with ⟨count, atMost, -, taken⟩
  rw [initializes.clockReads] at taken
  -- A call reads the clock for the metadata of a trace, for the event and for its record.
  have inRun : library.channel.world.clockReads + count ≤
      library.channel.world.clockReads + 3 * calls.length := by omega
  have told : (final.sent.map Logged.received).filterMap ReceivedRecord.reported =
      reportedOf initialized.filter calls :=
    (filterMap_map_received final.sent).trans timed.reported
  refine ⟨initialized, final, made, entries, last, final.sent.map Logged.received, done, ran,
    logEq, written, received, told, fun bounded => ?_⟩
  have whole : (final.sent.map Logged.received).flatMap ReceivedRecord.times =
      final.sent.flatMap Logged.times := by
    apply times_map_received
    intro time isTime
    rcases mem_readings inRun (taken.subset isTime) with ⟨reading, inRange, rfl⟩
    exact bounded reading inRange
  constructor
  · intro neverBack
    rw [whole]
    exact (readings_pairwise inRun neverBack).sublist taken
  · intro advances shuffled perm sorted
    have increasing : ((final.sent.map Logged.received).flatMap ReceivedRecord.times).Pairwise
        (· < ·) := by
      rw [whole]
      exact (readings_pairwise inRun advances).sublist taken
    rw [eq_of_sorted increasing perm sorted, told]

/-- A kernel whose writes are complete and whose clock advances by a second with each reading. -/
def Kernel.ticking : Kernel :=
  { Kernel.accepting with gettimeofday := fun reading => (reading, 0) }

theorem stream_is_timeline_for_turns :
    ∃ initialized final made entries last received,
      controllerInitialize Kernel.ticking StartUp.smooth Library.initial = some initialized ∧
      Application.run Kernel.ticking (fun thread => BitVec.ofNat 64 thread.toNat) turns
        (Application.start initialized) = some final ∧
      final.library.channel.world.log = Library.initial.channel.world.log ++ made ∧
      Entry.codec.encodeAll entries = writtenTo StartUp.smooth.socket made ∧
      Registry.empty.receive entries = some (last, received) ∧
      received.filterMap ReceivedRecord.reported = reportedOf initialized.filter turns ∧
      (received.flatMap ReceivedRecord.times).Pairwise (· ≤ ·) ∧
      ∀ shuffled : List ReceivedRecord, shuffled.Perm received →
        (shuffled.Pairwise fun earlier later => earlier.timestamp ≤ later.timestamp) →
        shuffled.filterMap ReceivedRecord.reported = reportedOf initialized.filter turns := by
  have nested : WellNested turns := by
    intro thread
    cases thread <;> exact ⟨_, rfl⟩
  have socket : 0 ≤ StartUp.smooth.socket := by decide
  have complete : Kernel.ticking.CompleteOn StartUp.smooth.socket := fun index count =>
    Kernel.completeOn_accepting socket index count
  have time : ∀ reading, timeAt Kernel.ticking reading = reading * 1000000 := by
    intro reading
    simp [timeAt, Kernel.ticking]
  have advances : ∀ limit, Kernel.ticking.ClockRuns (· < ·) limit := by
    intro limit earlier later before _
    rw [time, time]
    omega
  have neverBack : ∀ limit, Kernel.ticking.ClockRuns (· ≤ ·) limit :=
    fun limit earlier later before inRun => (advances limit earlier later before inRun).le
  have bounded : ∀ reading < Library.initial.channel.world.clockReads + 3 * turns.length,
      -2 ^ 63 ≤ timeAt Kernel.ticking reading ∧ timeAt Kernel.ticking reading < 2 ^ 63 := by
    intro reading inRun
    have few : reading < 12 := inRun
    rw [time]
    omega
  have settled : Library.initial.registry.Settled := TraceRegistry.settled_initial
  rcases stream_is_timeline StartUp.connects_smooth rfl LookupTable.holds_initial settled complete
    nested (by decide) (by decide) with
    ⟨initialized, final, made, entries, last, received, done, ran, logEq, written, receives, told,
      timed⟩
  rcases timed bounded with ⟨ordered, sorted⟩
  exact ⟨initialized, final, made, entries, last, received, done, ran, logEq, written, receives,
    told, ordered (neverBack _), sorted (advances _)⟩

end Kieker
