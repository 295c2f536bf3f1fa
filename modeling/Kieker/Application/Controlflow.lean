import Kieker.Application.Aspects
import Kieker.Library.CallTrees

/-!
# Execution records

Operations go through the controlflow aspect. It counts entries from zero and
notes the stack after it was pushed, so the record of an operation carries the
number of its entry, and one more than the number of operations that were open.
Since the records of an outermost operation come in the order of leaving, with all
depths off by one alike, they still determine its call tree.
-/

namespace Kieker

open Nesting CallTrees

/-- What a call means for the operations of its thread; one is over when its record is sent. -/
def AspectMethod.move : AspectMethod → Option (Move CString)
  | .controlflowBefore operationSignature => some (.enter operationSignature)
  | .controlflowAfter2 => some .leave
  | _ => none

/-- The calls of the controlflow aspect. -/
def AspectMethod.IsControlflow : AspectMethod → Prop
  | .controlflowBefore _ | .controlflowAfter | .controlflowAfter2 => True
  | _ => False

variable {Thread : Type} [DecidableEq Thread]

/-- The moves of a thread, in the order of its calls. -/
def movesOf (thread : Thread) (calls : List (AspectCall Thread)) : List (Move CString) :=
  (calls.filter fun call => call.thread = thread).filterMap fun call => call.method.move

/-- A process, with the records that were passed on to be sent. -/
structure Recording (Thread : Type) where
  process : AspectProcess Thread
  sent : List (Thread × OperationExecutionRecord)

/-- The records of one thread. -/
def recordsBy (thread : Thread) (sent : List (Thread × OperationExecutionRecord)) :
    List OperationExecutionRecord :=
  (sent.filter fun passed => passed.1 = thread).map Prod.snd

/-- The record that a call passes on. -/
def AspectProcess.passed (process : AspectProcess Thread) (call : AspectCall Thread) :
    Option OperationExecutionRecord :=
  match call.method with
  | .controlflowAfter2 => do
      let (frame, _) ← pop Frame.thread call.thread process.returning
      frame.operation.execution.close frame.operation.tout frame.operation.operationSignature
  | _ => none

namespace Recording

omit [DecidableEq Thread] in
/-- No operation runs yet. -/
def start (library : Library) : Recording Thread where
  process := AspectProcess.start library
  sent := []

/-- A call of the controlflow aspect; the two calls that leave an operation are made at once. -/
structure Step (kernel : Kernel) (selfOf : Thread → PthreadSelf) (before : Recording Thread)
    (call : AspectCall Thread) (after : Recording Thread) : Prop where
  stepped : AspectProcess.Step kernel selfOf before.process call after.process
  controlflow : call.method.IsControlflow
  prompt : call.method = .controlflowAfter2 ∨
    ∀ frame ∈ before.process.returning, frame.thread ≠ call.thread
  sent : after.sent = before.sent ++
    (before.process.passed call).toList.map fun record => (call.thread, record)

section Calls

variable {kernel : Kernel} {selfOf : Thread → PthreadSelf} {recording : Recording Thread}
  {thread : Thread} {operationSignature : CString} {execution : OpenExecution} {after : Library}
  {tout : ℤ} {record : OperationExecutionRecord}

theorem step_before {trace : ℕ}
    (done : probeAspectControlflowBefore kernel (selfOf thread) recording.process.library =
      some (trace, execution, after))
    (prompt : ∀ frame ∈ recording.process.returning, frame.thread ≠ thread) :
    Step kernel selfOf recording ⟨thread, .controlflowBefore operationSignature⟩
      ⟨⟨after, ⟨thread, .controlflow operationSignature execution, trace⟩ ::
        recording.process.running, recording.process.returning⟩, recording.sent⟩ :=
  ⟨.controlflowBefore done, trivial, Or.inr prompt, (List.append_nil _).symm⟩

theorem step_after {frame : Frame Thread Monitored} {rest : List (Frame Thread Monitored)}
    (popped : pop Frame.thread thread recording.process.running = some (frame, rest))
    (latest : frame.operation = .controlflow operationSignature execution)
    (done : probeAspectControlflowAfter kernel frame.trace recording.process.library =
      some (tout, after))
    (prompt : ∀ frame ∈ recording.process.returning, frame.thread ≠ thread) :
    Step kernel selfOf recording ⟨thread, .controlflowAfter⟩
      ⟨⟨after, rest, ⟨thread, ⟨operationSignature, execution, tout⟩, frame.trace⟩ ::
        recording.process.returning⟩, recording.sent⟩ :=
  ⟨.controlflowAfter popped latest done, trivial, Or.inr prompt, (List.append_nil _).symm⟩

theorem step_after2 {frame : Frame Thread Returning} {rest : List (Frame Thread Returning)}
    (popped : pop Frame.thread thread recording.process.returning = some (frame, rest))
    (complete : frame.operation.execution.close frame.operation.tout
      frame.operation.operationSignature = some record)
    (done : probeAspectControlflowAfter2 kernel frame.trace record recording.process.library =
      some after) :
    Step kernel selfOf recording ⟨thread, .controlflowAfter2⟩
      ⟨⟨after, recording.process.running, rest⟩, recording.sent ++ [(thread, record)]⟩ :=
  ⟨.controlflowAfter2 popped complete done, trivial, Or.inl rfl, by
    simp [AspectProcess.passed, popped, complete]⟩

end Calls

end Recording

/-- Some records have the signatures and the depths, counted from `offset`, of balanced moves. -/
def ShowsTree (offset : ℤ) (records : List OperationExecutionRecord) (moves : List (Move CString)) :
    Prop :=
  ∃ tally, tallyOf moves = some tally ∧ tally.visiting = [] ∧
    (records.map fun record => (record.operationSignature, record.ess)) =
      tally.left.map fun visit => (visit.label, visit.depth + offset)

/--
The records are those of the visits that some moves left. They are numbered by
entry and belong to one trace, their depths are counted from `offset`, and those of
a balanced part of the moves, such as an outermost operation, determine that part.
-/
structure TellsCalls (offset : ℤ) (moves : List (Move CString))
    (records : List OperationExecutionRecord) : Prop where
  visits : ∃ tally, tallyOf moves = some tally ∧
    (records.map fun record => (record.operationSignature, record.eoi, record.ess)) =
      tally.left.map fun visit => (visit.label, (visit.number : ℤ), visit.depth + offset)
  oneTrace : ∃ id, ∀ record ∈ records, record.traceId = id
  trees : ∀ front part back earlier tally, moves = front ++ part ++ back →
    tallyOf front = some earlier → earlier.visiting = [] →
    tallyOf part = some tally → tally.visiting = [] →
    ∀ other, ShowsTree offset ((records.drop earlier.left.length).take tally.left.length) other ↔
      other = part

theorem shapes_eq_of_depths {offset : ℤ} {visits others : List (Visit CString)}
    (same : (visits.map fun visit => (visit.label, visit.depth + offset)) =
      others.map fun visit => (visit.label, visit.depth + offset)) :
    visits.map Visit.shape = others.map Visit.shape := by
  have counted : Function.Injective
      fun shape : CString × ℕ => (shape.1, (shape.2 : ℤ) + offset) := by
    rintro ⟨label, depth⟩ ⟨otherLabel, otherDepth⟩ equal
    simp only [Prod.mk.injEq] at equal ⊢
    exact ⟨equal.1, by omega⟩
  apply List.map_injective_iff.mpr counted
  rw [List.map_map, List.map_map]
  exact same

/-- Records with the depths of all visits determine every balanced part. -/
theorem showsTree_iff {offset : ℤ} {records : List OperationExecutionRecord}
    {front part back other : List (Move CString)} {earlier tally whole : Tally CString}
    (tallied : tallyOf (front ++ part ++ back) = some whole)
    (depths : (records.map fun record => (record.operationSignature, record.ess)) =
      whole.left.map fun visit => (visit.label, visit.depth + offset))
    (frontTallied : tallyOf front = some earlier) (closed : earlier.visiting = [])
    (partTallied : tallyOf part = some tally) (partClosed : tally.visiting = []) :
    ShowsTree offset ((records.drop earlier.left.length).take tally.left.length) other ↔
      other = part := by
  have shapes := shapes_of_part tallied frontTallied closed partTallied
  have shown : (((records.drop earlier.left.length).take tally.left.length).map fun record =>
      (record.operationSignature, record.ess)) =
        tally.left.map fun visit => (visit.label, visit.depth + offset) := by
    have counted :=
      congrArg (List.map fun shape : CString × ℕ => (shape.1, shape.2 + offset)) shapes
    rw [List.map_take, List.map_drop, depths, ← List.map_drop, ← List.map_take]
    rw [← List.map_drop, ← List.map_take, List.map_map, List.map_map] at counted
    exact counted
  constructor
  · rintro ⟨otherTally, otherTallied, otherClosed, otherShown⟩
    have same := shapes_eq_of_depths (otherShown.symm.trans shown)
    exact eq_of_closes otherTallied partTallied otherClosed partClosed same
  · rintro rfl
    exact ⟨tally, partTallied, partClosed, shown⟩

theorem TellsCalls.of_visits {offset : ℤ} {moves : List (Move CString)}
    {records : List OperationExecutionRecord} {tally : Tally CString}
    (tallied : tallyOf moves = some tally)
    (visits : (records.map fun record => (record.operationSignature, record.eoi, record.ess)) =
      tally.left.map fun visit => (visit.label, (visit.number : ℤ), visit.depth + offset))
    (oneTrace : ∃ id, ∀ record ∈ records, record.traceId = id) :
    TellsCalls offset moves records where
  visits := ⟨tally, tallied, visits⟩
  oneTrace := oneTrace
  trees := by
    rintro front part back earlier partTally rfl frontTallied closed partTallied partClosed other
    have depths := congrArg (List.map fun told : CString × ℤ × ℤ => (told.1, told.2.2)) visits
    rw [List.map_map, List.map_map] at depths
    exact showsTree_iff tallied depths frontTallied closed partTallied partClosed

/-- No other thread has the `(int)` id of a thread. -/
def Alone (selfOf : Thread → PthreadSelf) (thread : Thread) : Prop :=
  ∀ other, threadIdOf (selfOf other) = threadIdOf (selfOf thread) → other = thread

/-! ### Visits -/

/--
The numbers that were noted for a visit: the depth is never too small, and if the
thread is alone with its thread id, all of them are as expected.
-/
structure Notes (alone : Prop) (id : ℤ) (visit : Visit CString) (traceId eoi ess : ℤ) : Prop where
  deep : visit.depth + 1 ≤ ess
  exactly : alone → traceId = id ∧ eoi = visit.number ∧ ess = visit.depth + 1

/-- An operation that runs is a visit. -/
def RunsAs (alone : Prop) (id : ℤ) (frame : Frame Thread Monitored) (visit : Visit CString) :
    Prop :=
  ∃ execution, frame.operation = .controlflow visit.label execution ∧
    Notes alone id visit execution.traceId execution.eoi execution.ess

/-- An operation about to return is a visit. -/
def ReturnsAs (alone : Prop) (id : ℤ) (frame : Frame Thread Returning) (visit : Visit CString) :
    Prop :=
  frame.operation.operationSignature = visit.label ∧
    Notes alone id visit frame.operation.execution.traceId frame.operation.execution.eoi
      frame.operation.execution.ess

/-- A record is that of a visit. -/
def RecordedAs (alone : Prop) (id : ℤ) (record : OperationExecutionRecord) (visit : Visit CString) :
    Prop :=
  record.operationSignature = visit.label ∧
    Notes alone id visit record.traceId record.eoi record.ess

/-- The operations that run, that are about to return and that were recorded are the visits. -/
structure Recounts (alone : Prop) (id : ℤ) (running : List (Frame Thread Monitored))
    (returning : List (Frame Thread Returning)) (records : List OperationExecutionRecord)
    (tally : Tally CString) : Prop where
  visiting : (returning = [] ∧ List.Forall₂ (RunsAs alone id) running tally.visiting) ∨
    ∃ frame visit rest, returning = [frame] ∧ tally.visiting = visit :: rest ∧
      ReturnsAs alone id frame visit ∧ List.Forall₂ (RunsAs alone id) running rest
  left : List.Forall₂ (RecordedAs alone id) records tally.left

/-! ### Open operations -/

/-- The map keeps the traces of a thread id, and traces at old addresses are of the same threads. -/
structure TraceRegistry.Evolves (threadId : ℤ) (before after : TraceRegistry) : Prop where
  allocated : before.allocated ≤ after.allocated
  old : ∀ trace ∈ after.traces, trace.address < before.allocated →
    ∃ earlier ∈ before.traces, earlier.address = trace.address ∧ earlier.threadId = trace.threadId
  retained : ∀ trace ∈ before.traces, trace.threadId = threadId →
    ∃ later ∈ after.traces, later.address = trace.address

/-- An operation was counted in a trace of its thread, which is kept if it has the thread id. -/
structure Held (selfOf : Thread → PthreadSelf) (registry : TraceRegistry) (threadId : ℤ)
    {Label : Type} (frame : Frame Thread Label) : Prop where
  allocated : frame.trace < registry.allocated
  owned : ∀ trace ∈ registry.traces, trace.address = frame.trace →
    trace.threadId = threadIdOf (selfOf frame.thread)
  present : threadIdOf (selfOf frame.thread) = threadId →
    ∃ trace ∈ registry.traces, trace.address = frame.trace

/-- The stack of the trace of a thread id is the number of operations that run under it. -/
structure CountsExactly (selfOf : Thread → PthreadSelf) (registry : TraceRegistry) (threadId : ℤ)
    (running : List (Frame Thread Monitored)) (returning : List (Frame Thread Returning)) :
    Prop where
  counted : ∀ trace ∈ registry.traces, trace.threadId = threadId →
    trace.stack = openWith selfOf running threadId
  running : ∀ frame ∈ running, Held selfOf registry threadId frame
  returning : ∀ frame ∈ returning, Held selfOf registry threadId frame

variable {kernel : Kernel} {selfOf : Thread → PthreadSelf} {registry after : TraceRegistry}
  {threadId : ℤ} {thread : Thread} {change : KiekerTrace → KiekerTrace}

namespace TraceRegistry.Evolves

theorem entering (wellFormed : registry.WellFormed) (keeps : KeepsIdentity change)
    (self : PthreadSelf) : registry.Evolves threadId (registry.entering kernel self change) where
  allocated := by
    rw [TraceRegistry.entering, allocated_assign, traceGet_eq]
    split
    · exact le_refl _
    · exact Nat.le_succ _
  old := by
    intro trace inMap below
    rcases (mem_entering wellFormed).mp inMap with rfl | ⟨old, -⟩
    · cases found : registry.traceFind (threadIdOf self) with
      | some data =>
          refine ⟨data, (mem_of_traceFind found).1, ?_⟩
          rw [keeps.address, keeps.threadId, (traceGet_of_some kernel found).2]
          exact ⟨rfl, rfl⟩
      | none =>
          rw [keeps.address, current_of_notMem fun _ => threadId_ne_of_traceFind found] at below
          exact absurd below (lt_irrefl _)
    · exact ⟨trace, old, rfl, rfl⟩
  retained := by
    intro trace inMap _
    rcases Retains.entering wellFormed keeps trace inMap with ⟨later, laterInMap, address, -⟩
    exact ⟨later, laterInMap, address⟩

theorem assign (keeps : KeepsIdentity change) (address : ℕ) :
    registry.Evolves threadId (registry.assign address change) where
  allocated := le_refl _
  old := by
    intro trace inMap _
    rcases mem_assign.mp inMap with ⟨old, oldInMap, rfl⟩
    refine ⟨old, oldInMap, ?_⟩
    split
    · exact ⟨(keeps.address old).symm, (keeps.threadId old).symm⟩
    · exact ⟨rfl, rfl⟩
  retained := by
    intro trace inMap _
    rcases Retains.assign keeps address trace inMap with ⟨later, laterInMap, same, -⟩
    exact ⟨later, laterInMap, same⟩

theorem leaving {trace : KiekerTrace} {bound : ℤ} (wellFormed : registry.WellFormed)
    (keeps : KeepsIdentity change) (inMap : trace ∈ registry.traces)
    (above : trace.threadId = threadId → (change trace).stack ≠ bound) :
    registry.Evolves threadId (registry.leaving trace.address change bound trace) where
  allocated := by
    unfold TraceRegistry.leaving
    split
    · exact le_refl _
    · exact le_refl _
  old := by
    intro other otherInMap _
    rcases (mem_leaving wellFormed keeps inMap).mp otherInMap with ⟨rfl, -⟩ | ⟨old, -⟩
    · exact ⟨trace, inMap, (keeps.address trace).symm, (keeps.threadId trace).symm⟩
    · exact ⟨other, old, rfl, rfl⟩
  retained := by
    intro other otherInMap mine
    by_cases same : other.address = trace.address
    · have isTrace := wellFormed.eq_of_address otherInMap inMap same
      subst isTrace
      exact ⟨change other, (mem_leaving wellFormed keeps inMap).mpr (Or.inl ⟨rfl, above mine⟩),
        keeps.address other⟩
    · exact ⟨other, (mem_leaving wellFormed keeps inMap).mpr (Or.inr ⟨otherInMap, same⟩), rfl⟩

end TraceRegistry.Evolves

omit [DecidableEq Thread] in
theorem Held.evolve {Label : Type} {frame : Frame Thread Label}
    (held : Held selfOf registry threadId frame) (evolves : registry.Evolves threadId after) :
    Held selfOf after threadId frame where
  allocated := held.allocated.trans_le evolves.allocated
  owned := by
    intro trace inMap address
    rcases evolves.old trace inMap (address ▸ held.allocated) with
      ⟨earlier, earlierInMap, sameAddress, sameThread⟩
    rw [← sameThread]
    exact held.owned earlier earlierInMap (sameAddress.trans address)
  present := by
    intro mine
    rcases held.present mine with ⟨trace, inMap, address⟩
    rcases evolves.retained trace inMap ((held.owned trace inMap address).trans mine) with
      ⟨later, laterInMap, same⟩
    exact ⟨later, laterInMap, same.trans address⟩

namespace CountsExactly

variable {running rest : List (Frame Thread Monitored)}
  {returning later : List (Frame Thread Returning)}

omit [DecidableEq Thread] in
/-- The current trace of a thread with the thread id counts the operations that run. -/
theorem stack_current (counts : CountsExactly selfOf registry threadId running returning)
    (kernel : Kernel) (mine : threadIdOf (selfOf thread) = threadId) :
    (registry.current kernel (selfOf thread)).stack = openWith selfOf running threadId := by
  cases found : registry.traceFind (threadIdOf (selfOf thread)) with
  | some data =>
      rcases TraceRegistry.mem_of_traceFind found with ⟨inMap, ofThread⟩
      rw [(TraceRegistry.traceGet_of_some kernel found).2]
      exact counts.counted data inMap (ofThread.trans mine)
  | none =>
      have noneOpen : openWith selfOf running threadId = 0 := by
        rw [openWith, List.countP_eq_zero]
        intro frame frame_mem same
        rw [decide_eq_true_eq] at same
        have held := counts.running frame frame_mem
        rcases held.present same with ⟨trace, inMap, address⟩
        apply TraceRegistry.threadId_ne_of_traceFind found inMap
        rw [held.owned trace inMap address, same, mine]
      rw [TraceRegistry.current_of_notMem fun _ => TraceRegistry.threadId_ne_of_traceFind found,
        noneOpen]
      rfl

omit [DecidableEq Thread] in
theorem enter (counts : CountsExactly selfOf registry threadId running returning)
    (kernel : Kernel) (wellFormed : registry.WellFormed) (frame : Frame Thread Monitored)
    (address : frame.trace = (registry.current kernel (selfOf frame.thread)).address) :
    CountsExactly selfOf
      (registry.entering kernel (selfOf frame.thread) KiekerTrace.enter) threadId
      (frame :: running) returning := by
  have keeps := TraceRegistry.keepsIdentity_enter
  have evolves : registry.Evolves threadId
      (registry.entering kernel (selfOf frame.thread) KiekerTrace.enter) :=
    .entering wellFormed keeps _
  have isThere : (registry.current kernel (selfOf frame.thread)).enter ∈
      (registry.entering kernel (selfOf frame.thread) KiekerTrace.enter).traces :=
    (TraceRegistry.mem_entering wellFormed).mpr (Or.inl rfl)
  have entered : (registry.entering kernel (selfOf frame.thread) KiekerTrace.enter).WellFormed :=
    wellFormed.entering keeps
  refine ⟨?_, ?_, fun other other_mem => (counts.returning other other_mem).evolve evolves⟩
  · intro trace inMap mine
    rcases (TraceRegistry.mem_entering wellFormed).mp inMap with rfl | ⟨old, different⟩
    · rw [keeps.threadId, TraceRegistry.threadId_current] at mine
      have counted := counts.stack_current kernel mine
      rw [← mine] at counted ⊢
      rw [openWith_cons_self]
      change (registry.current kernel (selfOf frame.thread)).stack + 1 = _
      rw [counted]
      push_cast
      rfl
    · rw [counts.counted trace old mine, openWith_cons_of_ne]
      rw [← mine]
      exact Tracked.threadId_ne_of_address_ne wellFormed frame.thread old different
  · intro other other_mem
    rcases List.mem_cons.mp other_mem with rfl | earlier
    · refine ⟨?_, ?_, fun _ => ⟨_, isThere, (keeps.address _).trans address.symm⟩⟩
      · rw [address, ← keeps.address]
        exact entered.allocated _ isThere
      · intro trace inMap same
        rw [address, ← keeps.address] at same
        rw [entered.eq_of_address inMap isThere same, keeps.threadId,
          TraceRegistry.threadId_current]
    · exact (counts.running other earlier).evolve evolves

theorem leave (counts : CountsExactly selfOf registry threadId running returning)
    (wellFormed : registry.WellFormed) {frame : Frame Thread Monitored}
    (popped : pop Frame.thread frame.thread running = some (frame, rest)) (operation : Returning) :
    CountsExactly selfOf (registry.assign frame.trace KiekerTrace.pop) threadId rest
      (⟨frame.thread, operation, frame.trace⟩ :: returning) := by
  have keeps := TraceRegistry.keepsIdentity_pop
  have evolves : registry.Evolves threadId (registry.assign frame.trace KiekerTrace.pop) :=
    .assign keeps _
  have same := perm_of_pop popped
  have held := counts.running frame (same.mem_iff.mpr List.mem_cons_self)
  refine ⟨?_, ?_, ?_⟩
  · intro trace inMap mine
    rcases TraceRegistry.mem_assign.mp inMap with ⟨old, oldInMap, rfl⟩
    by_cases isTrace : old.address = frame.trace
    · rw [if_pos isTrace] at mine ⊢
      rw [keeps.threadId] at mine
      have counted := counts.counted old oldInMap mine
      have ofThread := held.owned old oldInMap isTrace
      rw [openWith_pop popped, ← mine, ofThread, openWith_cons_self] at counted
      change old.stack - 1 = _
      rw [← mine, ofThread, counted]
      push_cast
      exact add_sub_cancel_right _ _
    · rw [if_neg isTrace] at mine ⊢
      rw [counts.counted old oldInMap mine, openWith_pop popped, openWith_cons_of_ne]
      intro isThread
      rcases held.present isThread with ⟨trace, traceInMap, address⟩
      apply isTrace
      rw [← address]
      congr 1
      apply wellFormed.eq_of_threadId oldInMap traceInMap
      rw [mine, held.owned trace traceInMap address, isThread]
  · intro other other_mem
    have wasThere : other ∈ running := same.mem_iff.mpr (List.mem_cons_of_mem _ other_mem)
    exact (counts.running other wasThere).evolve evolves
  · intro other other_mem
    rcases List.mem_cons.mp other_mem with rfl | earlier
    · have later := held.evolve evolves
      exact ⟨later.allocated, later.owned, later.present⟩
    · exact (counts.returning other earlier).evolve evolves

theorem answer (counts : CountsExactly selfOf registry threadId running returning)
    (wellFormed : registry.WellFormed) {frame : Frame Thread Returning} {trace : KiekerTrace}
    (popped : pop Frame.thread frame.thread returning = some (frame, later))
    (inMap : trace ∈ registry.traces) {change : KiekerTrace → KiekerTrace}
    (keeps : TraceRegistry.KeepsIdentity change)
    (sameStack : ∀ trace, (change trace).stack = trace.stack) :
    CountsExactly selfOf (registry.leaving trace.address change (-1) trace) threadId running
      later := by
  have above : trace.threadId = threadId → (change trace).stack ≠ -1 := by
    intro mine
    rw [sameStack, counts.counted trace inMap mine]
    omega
  have evolves : registry.Evolves threadId (registry.leaving trace.address change (-1) trace) :=
    .leaving wellFormed keeps inMap above
  refine ⟨?_, fun other other_mem => (counts.running other other_mem).evolve evolves, ?_⟩
  · intro other otherInMap mine
    rcases (TraceRegistry.mem_leaving wellFormed keeps inMap).mp otherInMap with
      ⟨rfl, -⟩ | ⟨old, -⟩
    · rw [sameStack]
      exact counts.counted trace inMap ((keeps.threadId trace).symm.trans mine)
    · exact counts.counted other old mine
  · intro other other_mem
    have wasThere : other ∈ returning :=
      (perm_of_pop popped).mem_iff.mpr (List.mem_cons_of_mem _ other_mem)
    exact (counts.returning other wasThere).evolve evolves

end CountsExactly

/-- Nothing was counted in the trace of a thread id. -/
structure TraceRegistry.Rests (threadId : ℤ) (before after : TraceRegistry) : Prop where
  known : (∃ trace ∈ before.traces, trace.threadId = threadId) →
    ∃ trace ∈ after.traces, trace.threadId = threadId
  old : ∀ trace ∈ after.traces, trace.threadId = threadId → ∃ earlier ∈ before.traces,
    earlier.threadId = threadId ∧ earlier.traceId = trace.traceId ∧
      earlier.orderIndex = trace.orderIndex

/-- The trace of a thread id has a certain id, and has counted a number of entries. -/
structure CountsEntries (registry : TraceRegistry) (threadId id : ℤ) (entered : ℕ) : Prop where
  new : (∀ trace ∈ registry.traces, trace.threadId ≠ threadId) → entered = 0
  counted : ∀ trace ∈ registry.traces, trace.threadId = threadId →
    trace.traceId = id ∧ trace.orderIndex + 1 = entered

namespace TraceRegistry.Rests

/-- Another thread id enters an operation. -/
theorem entering {self : PthreadSelf} (wellFormed : registry.WellFormed)
    (keeps : KeepsIdentity change) (different : threadIdOf self ≠ threadId) :
    registry.Rests threadId (registry.entering kernel self change) where
  known := by
    rintro ⟨trace, inMap, mine⟩
    rcases Retains.entering wellFormed keeps trace inMap with ⟨later, laterInMap, -, same, -⟩
    exact ⟨later, laterInMap, same.trans mine⟩
  old := by
    intro trace inMap mine
    rcases (mem_entering wellFormed).mp inMap with rfl | ⟨old, -⟩
    · rw [keeps.threadId, threadId_current] at mine
      exact absurd mine different
    · exact ⟨trace, old, mine, rfl, rfl⟩

theorem assign (keeps : KeepsIdentity change)
    (sameIndex : ∀ trace, (change trace).orderIndex = trace.orderIndex) (address : ℕ) :
    registry.Rests threadId (registry.assign address change) where
  known := by
    rintro ⟨trace, inMap, mine⟩
    rcases Retains.assign keeps address trace inMap with ⟨later, laterInMap, -, same, -⟩
    exact ⟨later, laterInMap, same.trans mine⟩
  old := by
    intro trace inMap mine
    rcases mem_assign.mp inMap with ⟨old, oldInMap, rfl⟩
    refine ⟨old, oldInMap, ?_⟩
    by_cases same : old.address = address
    · rw [if_pos same] at mine ⊢
      exact ⟨(keeps.threadId old).symm.trans mine, (keeps.traceId old).symm, (sameIndex old).symm⟩
    · rw [if_neg same] at mine ⊢
      exact ⟨mine, rfl, rfl⟩

theorem leaving {trace : KiekerTrace} {bound : ℤ} (wellFormed : registry.WellFormed)
    (keeps : KeepsIdentity change)
    (sameIndex : ∀ trace, (change trace).orderIndex = trace.orderIndex)
    (inMap : trace ∈ registry.traces)
    (above : trace.threadId = threadId → (change trace).stack ≠ bound) :
    registry.Rests threadId (registry.leaving trace.address change bound trace) where
  known := by
    rintro ⟨other, otherInMap, mine⟩
    by_cases same : other.address = trace.address
    · have isTrace := wellFormed.eq_of_address otherInMap inMap same
      subst isTrace
      exact ⟨change other, (mem_leaving wellFormed keeps inMap).mpr (Or.inl ⟨rfl, above mine⟩),
        (keeps.threadId other).trans mine⟩
    · exact ⟨other, (mem_leaving wellFormed keeps inMap).mpr (Or.inr ⟨otherInMap, same⟩), mine⟩
  old := by
    intro other otherInMap mine
    rcases (mem_leaving wellFormed keeps inMap).mp otherInMap with ⟨rfl, -⟩ | ⟨old, -⟩
    · exact ⟨trace, inMap, (keeps.threadId trace).symm.trans mine, (keeps.traceId trace).symm,
        (sameIndex trace).symm⟩
    · exact ⟨other, old, mine, rfl, rfl⟩

end TraceRegistry.Rests

namespace CountsEntries

variable {id : ℤ} {entered : ℕ}

theorem rests (counts : CountsEntries registry threadId id entered)
    (rests : registry.Rests threadId after) : CountsEntries after threadId id entered where
  new := by
    intro missing
    apply counts.new
    intro trace inMap mine
    rcases rests.known ⟨trace, inMap, mine⟩ with ⟨later, laterInMap, same⟩
    exact missing later laterInMap same
  counted := by
    intro trace inMap mine
    rcases rests.old trace inMap mine with ⟨earlier, earlierInMap, same, traceId, orderIndex⟩
    rw [← traceId, ← orderIndex]
    exact counts.counted earlier earlierInMap same

/-- A new trace has counted nothing; otherwise the trace keeps its id. -/
theorem current (counts : CountsEntries registry threadId id entered) (kernel : Kernel)
    {self : PthreadSelf} (mine : threadIdOf self = threadId) :
    (entered = 0 ∨ (registry.current kernel self).traceId = id) ∧
      (registry.current kernel self).orderIndex + 1 = entered := by
  subst mine
  cases found : registry.traceFind (threadIdOf self) with
  | some data =>
      rcases TraceRegistry.mem_of_traceFind found with ⟨inMap, ofThread⟩
      rw [(TraceRegistry.traceGet_of_some kernel found).2]
      rcases counts.counted data inMap ofThread with ⟨traceId, orderIndex⟩
      exact ⟨Or.inr traceId, orderIndex⟩
  | none =>
      have missing : ∀ trace ∈ registry.traces, trace.threadId ≠ threadIdOf self :=
        fun _ => TraceRegistry.threadId_ne_of_traceFind found
      have nothing := counts.new missing
      rw [TraceRegistry.current_of_notMem missing, nothing]
      exact ⟨Or.inl rfl, rfl⟩

theorem enter (counts : CountsEntries registry threadId id entered)
    (wellFormed : registry.WellFormed) (kernel : Kernel) {self : PthreadSelf}
    (mine : threadIdOf self = threadId) :
    CountsEntries (registry.entering kernel self KiekerTrace.enter) threadId
      (registry.current kernel self).traceId (entered + 1) := by
  have keeps := TraceRegistry.keepsIdentity_enter
  have isThere : (registry.current kernel self).enter ∈
      (registry.entering kernel self KiekerTrace.enter).traces :=
    (TraceRegistry.mem_entering wellFormed).mpr (Or.inl rfl)
  have ofThread : (registry.current kernel self).enter.threadId = threadId :=
    (keeps.threadId _).trans (TraceRegistry.threadId_current.trans mine)
  refine ⟨fun missing => absurd ofThread (missing _ isThere), ?_⟩
  intro trace inMap same
  rw [(wellFormed.entering keeps).eq_of_threadId inMap isThere (same.trans ofThread.symm)]
  refine ⟨keeps.traceId _, ?_⟩
  have counted := (counts.current kernel mine).2
  change (registry.current kernel self).orderIndex + 1 + 1 = _
  rw [counted]
  push_cast
  rfl

end CountsEntries

/-! ### One thread -/

section Calls

variable {calls : List (AspectCall Thread)} {call : AspectCall Thread}

theorem movesOf_concat_self : movesOf call.thread (calls ++ [call]) =
    movesOf call.thread calls ++ call.method.move.toList := by
  cases moves : call.method.move <;> simp [movesOf, moves]

theorem movesOf_concat_other (different : call.thread ≠ thread) :
    movesOf thread (calls ++ [call]) = movesOf thread calls := by
  simp [movesOf, different]

theorem recordsBy_append_self (sent : List (Thread × OperationExecutionRecord))
    (passed : Option OperationExecutionRecord) :
    recordsBy thread (sent ++ passed.toList.map fun record => (thread, record)) =
      recordsBy thread sent ++ passed.toList := by
  cases passed <;> simp [recordsBy]

theorem recordsBy_append_other (sent : List (Thread × OperationExecutionRecord))
    (passed : Option OperationExecutionRecord) {other : Thread} (different : other ≠ thread) :
    recordsBy thread (sent ++ passed.toList.map fun record => (other, record)) =
      recordsBy thread sent := by
  cases passed <;> simp [recordsBy, different]

end Calls

namespace Recounts

variable {alone : Prop} {id : ℤ} {running : List (Frame Thread Monitored)}
  {records : List OperationExecutionRecord} {tally : Tally CString}

omit [DecidableEq Thread] in
/-- What was noted while nothing was counted holds for any trace. -/
theorem renew {current : ℤ} {moves : List (Move CString)}
    (recounts : Recounts alone id running ([] : List (Frame Thread Returning)) records tally)
    (tallied : tallyOf moves = some tally) (new : alone → tally.entered = 0 ∨ current = id) :
    Recounts alone current running ([] : List (Frame Thread Returning)) records tally := by
  by_cases isAlone : alone
  · rcases new isAlone with nothing | rfl
    · have counted := entered_eq tallied
      have noneLeft : tally.left = [] := List.length_eq_zero_iff.mp (by omega)
      have noneOpen : tally.visiting = [] := List.length_eq_zero_iff.mp (by omega)
      rcases recounts with ⟨⟨-, open_⟩ | ⟨_, _, _, absurdly, -⟩, left⟩
      · rw [noneOpen] at open_
        rw [noneLeft] at left
        cases open_
        cases left
        refine ⟨Or.inl ⟨rfl, ?_⟩, ?_⟩
        · rw [noneOpen]
          exact .nil
        · rw [noneLeft]
          exact .nil
      · cases absurdly
    · exact recounts
  · have renewed : ∀ visit traceId eoi ess, Notes alone id visit traceId eoi ess →
        Notes alone current visit traceId eoi ess :=
      fun _ _ _ _ notes => ⟨notes.deep, fun yes => absurd yes isAlone⟩
    rcases recounts with ⟨⟨-, open_⟩ | ⟨_, _, _, absurdly, -⟩, left⟩
    · refine ⟨Or.inl ⟨rfl, open_.imp ?_⟩, left.imp ?_⟩
      · rintro frame visit ⟨execution, isOperation, notes⟩
        exact ⟨execution, isOperation, renewed _ _ _ _ notes⟩
      · rintro record visit ⟨same, notes⟩
        exact ⟨same, renewed _ _ _ _ notes⟩
    · cases absurdly

end Recounts

/-- What holds of a thread between the calls of the controlflow aspect. -/
structure Recording.Kept (selfOf : Thread → PthreadSelf) (thread : Thread) (hostname : CString)
    (calls : List (AspectCall Thread)) (recording : Recording Thread) (known : List CString)
    (id : ℤ) (tally : Tally CString) : Prop where
  idle : recording.process.library.Idle known hostname
  counts : CountsExactly selfOf recording.process.library.registry (threadIdOf (selfOf thread))
    recording.process.running recording.process.returning
  entries : Alone selfOf thread → CountsEntries recording.process.library.registry
    (threadIdOf (selfOf thread)) id tally.entered
  tallied : tallyOf (movesOf thread calls) = some tally
  recounts : Recounts (Alone selfOf thread) id
    (stackOf Frame.thread thread recording.process.running)
    (stackOf Frame.thread thread recording.process.returning) (recordsBy thread recording.sent)
    tally

namespace Recording.Kept

variable {hostname : CString} {calls : List (AspectCall Thread)} {known : List CString}
  {recording later : Recording Thread} {call : AspectCall Thread} {id : ℤ} {tally : Tally CString}

/-- A call of another thread leaves the operations and the records of a thread as they are. -/
theorem other {laterKnown : List CString}
    (kept : recording.Kept selfOf thread hostname calls known id tally)
    (different : call.thread ≠ thread)
    (idle : later.process.library.Idle laterKnown hostname)
    (counts : CountsExactly selfOf later.process.library.registry (threadIdOf (selfOf thread))
      later.process.running later.process.returning)
    (rests : Alone selfOf thread → recording.process.library.registry.Rests
      (threadIdOf (selfOf thread)) later.process.library.registry)
    (running : stackOf Frame.thread thread later.process.running =
      stackOf Frame.thread thread recording.process.running)
    (returning : stackOf Frame.thread thread later.process.returning =
      stackOf Frame.thread thread recording.process.returning)
    (sent : later.sent = recording.sent ++ (recording.process.passed call).toList.map fun record =>
      (call.thread, record)) :
    later.Kept selfOf thread hostname (calls ++ [call]) laterKnown id tally where
  idle := idle
  counts := counts
  entries := fun alone => (kept.entries alone).rests (rests alone)
  tallied := by
    rw [movesOf_concat_other different]
    exact kept.tallied
  recounts := by
    rw [running, returning, sent, recordsBy_append_other _ _ different]
    exact kept.recounts

/-- The depth of the next visit is the number of operations that its thread has open. -/
theorem depth_le (kept : recording.Kept selfOf thread hostname calls known id tally)
    (kernel : Kernel) (quiet : stackOf Frame.thread thread recording.process.returning = []) :
    (tally.visiting.length : ℤ) ≤
        (recording.process.library.registry.current kernel (selfOf thread)).stack ∧
      (Alone selfOf thread →
        (recording.process.library.registry.current kernel (selfOf thread)).stack =
          tally.visiting.length) := by
  have visiting : (stackOf Frame.thread thread recording.process.running).length =
      tally.visiting.length := by
    rcases kept.recounts.visiting with ⟨-, runs⟩ | ⟨frame, _, _, isReturning, -⟩
    · exact runs.length_eq
    · rw [quiet] at isReturning
      cases isReturning
  rw [kept.counts.stack_current kernel rfl, ← visiting, openWith, stackOf,
    List.countP_eq_length_filter]
  refine ⟨?_, ?_⟩
  · apply Nat.cast_le.mpr
    apply (List.monotone_filter_right _ ?_).length_le
    intro frame isThread
    rw [decide_eq_true_eq] at isThread ⊢
    rw [isThread]
  · intro alone
    congr 2
    apply List.filter_congr
    intro frame _
    rw [decide_eq_decide]
    exact ⟨alone frame.thread, fun same => congrArg (fun thread => threadIdOf (selfOf thread)) same⟩

theorem quiet_of_prompt {process : AspectProcess Thread}
    {method : AspectMethod}
    (prompt : method = .controlflowAfter2 ∨ ∀ frame ∈ process.returning, frame.thread ≠ thread)
    (notAfter2 : (method matches .controlflowAfter2) = false) :
    stackOf Frame.thread thread process.returning = [] := by
  rcases prompt with rfl | quiet
  · cases notAfter2
  · rw [stackOf, List.filter_eq_nil_iff]
    intro frame frame_mem
    simpa using quiet frame frame_mem

/-- An operation that is entered becomes a visit. -/
theorem of_before {operationSignature : CString} {address : ℕ} {execution : OpenExecution}
    {library : Library}
    (kept : recording.Kept selfOf call.thread hostname calls known id tally)
    (isBefore : call.method = .controlflowBefore operationSignature)
    (quiet : stackOf Frame.thread call.thread recording.process.returning = [])
    (done : probeAspectControlflowBefore kernel (selfOf call.thread) recording.process.library =
      some (address, execution, library))
    (counts : CountsExactly selfOf library.registry (threadIdOf (selfOf call.thread))
      (⟨call.thread, .controlflow operationSignature execution, address⟩ ::
        recording.process.running) recording.process.returning) :
    ∃ known id tally, Recording.Kept selfOf call.thread hostname (calls ++ [call])
      ⟨⟨library, ⟨call.thread, .controlflow operationSignature execution, address⟩ ::
        recording.process.running, recording.process.returning⟩, recording.sent⟩
      known id tally := by
  rcases probeAspectControlflowBefore_eq_some kept.idle done with ⟨-, execEq, sameMap, idle⟩
  rcases kept.depth_le kernel quiet with ⟨deep, exactly⟩
  have recounts := kept.recounts
  rw [quiet] at recounts
  have renewed := recounts.renew kept.tallied fun alone =>
    ((kept.entries alone).current kernel rfl).1
  have notes : Notes (Alone selfOf call.thread)
      (recording.process.library.registry.current kernel (selfOf call.thread)).traceId
      ⟨operationSignature, tally.entered, tally.visiting.length⟩ execution.traceId execution.eoi
      execution.ess := by
    rw [execEq]
    refine ⟨add_le_add_left deep 1, fun alone => ⟨rfl, ?_, congrArg (· + 1) (exactly alone)⟩⟩
    exact ((kept.entries alone).current kernel rfl).2
  refine ⟨known, (recording.process.library.registry.current kernel (selfOf call.thread)).traceId,
    ⟨⟨operationSignature, tally.entered, tally.visiting.length⟩ :: tally.visiting, tally.left,
      tally.entered + 1⟩, idle, counts, ?_, ?_, ?_⟩
  · intro alone
    rw [sameMap]
    exact (kept.entries alone).enter kept.idle.wellFormed kernel rfl
  · rw [movesOf_concat_self, isBefore]
    exact (tallyOf_concat _ _).trans (by rw [kept.tallied]; rfl)
  · rcases renewed with ⟨⟨-, runs⟩ | ⟨_, _, _, absurdly, -⟩, left⟩
    · have mine : Frame.thread (⟨call.thread, .controlflow operationSignature execution, address⟩ :
          Frame Thread Monitored) = call.thread := rfl
      dsimp only
      rw [stackOf_cons_self _ mine, quiet]
      exact ⟨Or.inl ⟨rfl, .cons ⟨execution, rfl, notes⟩ runs⟩, left⟩
    · cases absurdly

/-- An operation that is over is about to return. -/
theorem of_after {operationSignature : CString} {execution : OpenExecution} {tout : ℤ}
    {library : Library} {frame : Frame Thread Monitored} {rest : List (Frame Thread Monitored)}
    (kept : recording.Kept selfOf call.thread hostname calls known id tally)
    (isAfter : call.method = .controlflowAfter)
    (quiet : stackOf Frame.thread call.thread recording.process.returning = [])
    (popped : pop Frame.thread call.thread recording.process.running = some (frame, rest))
    (latest : frame.operation = .controlflow operationSignature execution)
    (done : probeAspectControlflowAfter kernel frame.trace recording.process.library =
      some (tout, library))
    (counts : CountsExactly selfOf library.registry (threadIdOf (selfOf call.thread)) rest
      (⟨call.thread, ⟨operationSignature, execution, tout⟩, frame.trace⟩ ::
        recording.process.returning)) :
    ∃ known id tally, Recording.Kept selfOf call.thread hostname (calls ++ [call])
      ⟨⟨library, rest, ⟨call.thread, ⟨operationSignature, execution, tout⟩, frame.trace⟩ ::
        recording.process.returning⟩, recording.sent⟩ known id tally := by
  rcases probeAspectControlflowAfter_eq_some kept.idle done with ⟨sameMap, idle⟩
  refine ⟨known, id, tally, idle, counts, ?_, ?_, ?_, kept.recounts.left⟩
  · intro alone
    apply (kept.entries alone).rests
    rw [sameMap]
    exact .assign TraceRegistry.keepsIdentity_pop (fun _ => rfl) _
  · rw [movesOf_concat_self, isAfter]
    simpa [AspectMethod.move] using kept.tallied
  · rcases kept.recounts.visiting with ⟨-, runs⟩ | ⟨_, _, _, isReturning, -⟩
    · rw [stackOf_of_pop popped] at runs
      cases visiting : tally.visiting with
      | nil =>
          rw [visiting] at runs
          cases runs
      | cons visit others =>
          rw [visiting] at runs
          cases runs with
          | cons runsAs runs =>
              rcases runsAs with ⟨noted, isOperation, notes⟩
              rw [latest, Monitored.controlflow.injEq] at isOperation
              rcases isOperation with ⟨rfl, rfl⟩
              have mine : Frame.thread (⟨call.thread, ⟨visit.label, execution, tout⟩, frame.trace⟩ :
                  Frame Thread Returning) = call.thread := rfl
              dsimp only
              rw [stackOf_cons_self _ mine, quiet]
              exact Or.inr ⟨_, visit, others, rfl, rfl, ⟨rfl, notes⟩, runs⟩
    · rw [quiet] at isReturning
      cases isReturning

theorem passed_eq {frame : Frame Thread Returning} {rest : List (Frame Thread Returning)}
    {record : OperationExecutionRecord} {process : AspectProcess Thread}
    (isAfter2 : call.method = .controlflowAfter2)
    (popped : pop Frame.thread call.thread process.returning = some (frame, rest))
    (complete : frame.operation.execution.close frame.operation.tout
      frame.operation.operationSignature = some record) : process.passed call = some record := by
  simp only [AspectProcess.passed, isAfter2, popped, Option.bind_eq_bind, Option.bind_some,
    complete]

/-- An operation that returned was recorded as it was noted. -/
theorem of_after2 {record : OperationExecutionRecord} {laterKnown : List CString}
    {library : Library} {frame : Frame Thread Returning} {rest : List (Frame Thread Returning)}
    (call : AspectCall Thread)
    (kept : recording.Kept selfOf call.thread hostname calls known id tally)
    (isAfter2 : call.method = .controlflowAfter2)
    (popped : pop Frame.thread call.thread recording.process.returning = some (frame, rest))
    (complete : frame.operation.execution.close frame.operation.tout
      frame.operation.operationSignature = some record)
    (idle : library.Idle laterKnown hostname)
    (rests : Alone selfOf call.thread → recording.process.library.registry.Rests
      (threadIdOf (selfOf call.thread)) library.registry)
    (counts : CountsExactly selfOf library.registry (threadIdOf (selfOf call.thread))
      recording.process.running rest) :
    ∃ known id tally, Recording.Kept selfOf call.thread hostname (calls ++ [call])
      ⟨⟨library, recording.process.running, rest⟩, recording.sent ++
        (recording.process.passed call).toList.map fun record => (call.thread, record)⟩
      known id tally := by
  rw [passed_eq isAfter2 popped complete]
  rcases kept.recounts.visiting with ⟨noReturning, -⟩ | ⟨top, visit, others, isReturning, visiting,
    ⟨label, notes⟩, runs⟩
  · rw [stackOf_of_pop popped] at noReturning
    cases noReturning
  · rw [stackOf_of_pop popped, List.cons.injEq] at isReturning
    rcases isReturning with ⟨rfl, noMore⟩
    simp only [OpenExecution.close, Option.bind_eq_bind, Option.bind_eq_some_iff,
      Option.some.injEq] at complete
    rcases complete with ⟨localHostname, -, rfl⟩
    refine ⟨laterKnown, id, ⟨others, tally.left ++ [visit], tally.entered⟩, idle, counts,
      fun alone => (kept.entries alone).rests (rests alone), ?_, Or.inl ⟨noMore, runs⟩, ?_⟩
    · rw [movesOf_concat_self, isAfter2]
      exact (tallyOf_concat _ _).trans (by
        rw [kept.tallied, Option.bind_some, Tally.move_leave_eq_some]
        exact ⟨visit, others, visiting, rfl⟩)
    · rw [recordsBy_append_self]
      exact List.rel_append kept.recounts.left (.cons ⟨label, notes⟩ .nil)

theorem step (kept : recording.Kept selfOf thread hostname calls known id tally)
    (stepped : Recording.Step kernel selfOf recording call later) :
    ∃ known id tally, later.Kept selfOf thread hostname (calls ++ [call]) known id tally := by
  rcases stepped with ⟨stepped, controlflow, prompt, sent⟩
  rcases later with ⟨process, records⟩
  have wellFormed := kept.idle.wellFormed
  cases stepped with
  | eventBefore => cases controlflow
  | eventAfter => cases controlflow
  | @controlflowBefore caller operationSignature address execution library done =>
      rcases probeAspectControlflowBefore_eq_some kept.idle done with ⟨addressEq, -, sameMap, idle⟩
      have counts := kept.counts.enter kernel wellFormed
        ⟨caller, .controlflow operationSignature execution, address⟩ addressEq
      rw [← sameMap] at counts
      by_cases same : caller = thread
      · subst same
        have unchanged : records = recording.sent := sent.trans (List.append_nil _)
        subst unchanged
        exact kept.of_before rfl (quiet_of_prompt prompt rfl) done counts
      · refine ⟨known, id, tally, kept.other same idle counts ?_ ?_ rfl sent⟩
        · intro alone
          rw [sameMap]
          exact .entering wellFormed TraceRegistry.keepsIdentity_enter fun yes =>
            same (alone caller yes)
        · exact stackOf_cons_other _ same
  | @controlflowAfter caller operationSignature execution tout library frame rest popped latest
      done =>
      rcases probeAspectControlflowAfter_eq_some kept.idle done with ⟨sameMap, idle⟩
      have own := owner_of_pop popped
      have counts := kept.counts.leave wellFormed (own.symm ▸ popped)
        ⟨operationSignature, execution, tout⟩
      rw [← sameMap, own] at counts
      by_cases same : caller = thread
      · subst same
        have unchanged : records = recording.sent := sent.trans (List.append_nil _)
        subst unchanged
        exact kept.of_after rfl (quiet_of_prompt prompt rfl) popped latest done counts
      · refine ⟨known, id, tally, kept.other same idle counts ?_
          (stackOf_of_pop_of_ne popped (Ne.symm same)).symm ?_ sent⟩
        · intro _
          rw [sameMap]
          exact .assign TraceRegistry.keepsIdentity_pop (fun _ => rfl) _
        · exact stackOf_cons_other _ same
  | @controlflowAfter2 caller record library frame rest popped complete done =>
      have own := owner_of_pop popped
      rcases probeAspectControlflowAfter2_found done with ⟨trace, inMap, address⟩
      rw [← address] at done
      rcases probeAspectControlflowAfter2_eq_some kept.idle inMap done with
        ⟨buffer, laterKnown, sameMap, idle⟩
      have keeps : TraceRegistry.KeepsIdentity fun data => { data with buffer := buffer } :=
        ⟨fun _ => rfl, fun _ => rfl, fun _ => rfl⟩
      have counts := kept.counts.answer wellFormed (own.symm ▸ popped) inMap keeps fun _ => rfl
      rw [← sameMap] at counts
      have rests : recording.process.library.registry.Rests (threadIdOf (selfOf thread))
          library.registry := by
        rw [sameMap]
        refine .leaving wellFormed keeps (fun _ => rfl) inMap fun mine => ?_
        have counted := kept.counts.counted trace inMap mine
        change trace.stack ≠ -1
        omega
      by_cases same : caller = thread
      · subst same
        change records = _ at sent
        rw [sent]
        exact kept.of_after2 ⟨caller, .controlflowAfter2⟩ rfl popped complete idle (fun _ => rests)
          counts
      · exact ⟨laterKnown, id, tally, kept.other same idle counts (fun _ => rests) rfl
          (stackOf_of_pop_of_ne popped (Ne.symm same)).symm sent⟩

theorem initial {library : Library} (idle : library.Idle known hostname)
    (fresh : ∀ trace ∈ library.registry.traces, trace.threadId ≠ threadIdOf (selfOf thread)) :
    (Recording.start library).Kept selfOf thread hostname [] known 0 Tally.empty where
  idle := idle
  counts := ⟨fun trace inMap mine => absurd mine (fresh trace inMap),
    fun _ frame_mem => absurd frame_mem List.not_mem_nil,
    fun _ frame_mem => absurd frame_mem List.not_mem_nil⟩
  entries := fun _ => ⟨fun _ => rfl, fun trace inMap mine => absurd mine (fresh trace inMap)⟩
  tallied := rfl
  recounts := ⟨Or.inl ⟨rfl, .nil⟩, .nil⟩

theorem of_run (thread : Thread) {library : Library} (idle : library.Idle known hostname)
    (fresh : ∀ trace ∈ library.registry.traces, trace.threadId ≠ threadIdOf (selfOf thread))
    (run : Steps (Recording.Step kernel selfOf) (Recording.start library) calls recording) :
    ∃ known id tally, recording.Kept selfOf thread hostname calls known id tally := by
  generalize isStart : Recording.start library = start at run
  induction run with
  | nil =>
      subst isStart
      exact ⟨known, 0, Tally.empty, initial idle fresh⟩
  | snoc _ last ih =>
      rcases ih with ⟨middleKnown, id, tally, kept⟩
      exact kept.step last

/-- Records were sent for the operations that are over. -/
theorem sent_eq_nil_iff (kept : recording.Kept selfOf thread hostname calls known id tally) :
    recordsBy thread recording.sent = [] ↔
      ∀ call ∈ calls, call.thread = thread → call.method ≠ .controlflowAfter2 := by
  have sameLength := kept.recounts.left.length_eq
  rw [← List.length_eq_zero_iff, sameLength, List.length_eq_zero_iff, left_eq_nil_iff kept.tallied]
  constructor
  · intro noLeave call call_mem mine isAfter2
    apply noLeave
    rw [movesOf, List.mem_filterMap]
    exact ⟨call, List.mem_filter.mpr ⟨call_mem, decide_eq_true mine⟩, by rw [isAfter2]; rfl⟩
  · intro noAfter2 isLeave
    rw [movesOf, List.mem_filterMap] at isLeave
    rcases isLeave with ⟨call, call_mem, moves⟩
    rw [List.mem_filter, decide_eq_true_eq] at call_mem
    apply noAfter2 call call_mem.1 call_mem.2
    cases method : call.method with
    | controlflowAfter2 => rfl
    | _ =>
        rw [method] at moves
        cases moves

/-- Every depth that is recorded is too great by one at least. -/
theorem not_tellsCalls_of_sent (kept : recording.Kept selfOf thread hostname calls known id tally)
    (sent : recordsBy thread recording.sent ≠ []) :
    ¬TellsCalls 0 (movesOf thread calls) (recordsBy thread recording.sent) := by
  rintro ⟨⟨other, tallied, visits⟩, -, -⟩
  have isTally := Option.some.inj (tallied.symm.trans kept.tallied)
  subst isTally
  have left := kept.recounts.left
  cases records : recordsBy thread recording.sent with
  | nil => exact sent records
  | cons record others =>
      rw [records] at left visits
      cases isLeft : other.left with
      | nil =>
          rw [isLeft] at left
          cases left
      | cons visit rest =>
          rw [isLeft] at left visits
          cases left with
          | cons recorded _ =>
              rw [List.map_cons, List.map_cons, List.cons.injEq, Prod.mk.injEq,
                Prod.mk.injEq] at visits
              have deep := recorded.2.deep
              omega

/-- Without other threads of the same id all that is wrong is that depths begin at one. -/
theorem tellsCalls (kept : recording.Kept selfOf thread hostname calls known id tally)
    (alone : Alone selfOf thread) :
    TellsCalls 1 (movesOf thread calls) (recordsBy thread recording.sent) := by
  have left := kept.recounts.left
  refine TellsCalls.of_visits kept.tallied ?_ ⟨id, ?_⟩
  · have told : List.Forall₂ (fun record visit =>
        (record.operationSignature, record.eoi, record.ess) =
          (visit.label, (visit.number : ℤ), visit.depth + (1 : ℤ)))
        (recordsBy thread recording.sent) tally.left := by
      apply left.imp
      rintro record visit ⟨label, notes⟩
      rcases notes.exactly alone with ⟨-, eoi, ess⟩
      rw [label, eoi, ess]
    rw [← List.forall₂_eq_eq_eq, List.forall₂_map_left_iff, List.forall₂_map_right_iff]
    exact told
  · intro record record_mem
    rcases List.getElem_of_mem record_mem with ⟨position, below, rfl⟩
    have recorded := left.get below (left.length_eq ▸ below)
    exact (recorded.2.exactly alone).1

end Recording.Kept

/--
In every run of the controlflow aspect that a thread starts without a trace, the
records of the thread carry the true depths of its operations only as long as there
are none, that is if no operation was left. If no other thread has its id, they tell
its calls with all depths one too great.
-/
theorem controlflow_tells_calls_iff (thread : Thread) {library : Library} {hostname : CString}
    {known : List CString} {calls : List (AspectCall Thread)} {recording : Recording Thread}
    (idle : library.Idle known hostname)
    (fresh : ∀ trace ∈ library.registry.traces, trace.threadId ≠ threadIdOf (selfOf thread))
    (run : Steps (Recording.Step kernel selfOf) (Recording.start library) calls recording) :
    (TellsCalls 0 (movesOf thread calls) (recordsBy thread recording.sent) ↔
      ∀ call ∈ calls, call.thread = thread → call.method ≠ .controlflowAfter2) ∧
    (Alone selfOf thread →
      TellsCalls 1 (movesOf thread calls) (recordsBy thread recording.sent)) := by
  rcases Recording.Kept.of_run thread idle fresh run with ⟨finalKnown, id, tally, kept⟩
  refine ⟨?_, kept.tellsCalls⟩
  rw [← kept.sent_eq_nil_iff]
  constructor
  · intro tells
    by_contra sent
    exact kept.not_tellsCalls_of_sent sent tells
  · intro nothing
    have noneLeft : tally.left = [] := by
      have sameLength := kept.recounts.left.length_eq
      rw [nothing] at sameLength
      exact List.length_eq_zero_iff.mp sameLength.symm
    rw [nothing]
    refine .of_visits kept.tallied ?_ ⟨0, fun _ record_mem => absurd record_mem List.not_mem_nil⟩
    rw [noneLeft]
    rfl

/-- A thread enters two operations, and meanwhile another one enters and leaves one. -/
def enteringTurns : List (AspectCall Bool) :=
  [⟨true, .controlflowBefore (.literal "int main()")⟩,
    ⟨false, .controlflowBefore (.literal "void work()")⟩,
    ⟨true, .controlflowBefore (.literal "void work()")⟩, ⟨false, .controlflowAfter⟩,
    ⟨false, .controlflowAfter2⟩]

/-- What the calls of the two threads do, one after another. -/
def runEnteringTurns (initialized : Library) : Option Library := do
  let (_, _, library) ← probeAspectControlflowBefore Kernel.accepting (twoThreads true) initialized
  let (trace, execution, library) ←
    probeAspectControlflowBefore Kernel.accepting (twoThreads false) library
  let (_, _, library) ← probeAspectControlflowBefore Kernel.accepting (twoThreads true) library
  let (tout, library) ← probeAspectControlflowAfter Kernel.accepting trace library
  let record ← execution.close tout (.literal "void work()")
  probeAspectControlflowAfter2 Kernel.accepting trace record library

theorem exists_enteringTurns {initialized after : Library}
    (done : runEnteringTurns initialized = some after) :
    ∃ recording, Steps (Recording.Step Kernel.accepting twoThreads)
      (Recording.start initialized) enteringTurns recording := by
  simp only [runEnteringTurns, Option.bind_eq_bind, Option.bind_eq_some_iff, Prod.exists] at done
  rcases done with ⟨outer, execution, first, entersOuter, trace, otherExecution, second,
    entersOther, inner, innerExecution, third, entersInner, tout, fourth, leaves, record, complete,
    answers⟩
  have nobody : ∀ thread, ∀ frame ∈ ([] : List (Frame Bool Returning)), frame.thread ≠ thread :=
    fun _ _ frame_mem => absurd frame_mem List.not_mem_nil
  exact ⟨_, ((((Steps.single (Recording.step_before entersOuter (nobody true))).snoc
    (Recording.step_before entersOther (nobody false))).snoc
    (Recording.step_before entersInner (nobody true))).snoc
    (Recording.step_after rfl rfl leaves (nobody false))).snoc
    (Recording.step_after2 rfl complete answers)⟩

/-- A thread is still in its operations, and another one has left its own. -/
theorem controlflow_tells_calls_of_enteringTurns :
    ∃ initialized recording,
      controllerInitialize Kernel.accepting StartUp.smooth Library.initial = some initialized ∧
      Steps (Recording.Step Kernel.accepting twoThreads)
        (Recording.start initialized) enteringTurns recording ∧
      TellsCalls 0 (movesOf true enteringTurns) (recordsBy true recording.sent) ∧
      TellsCalls 1 (movesOf false enteringTurns) (recordsBy false recording.sent) := by
  rcases exists_idle Kernel.accepting with ⟨initialized, done, idle, noTraces⟩
  have fresh : ∀ self, ∀ trace ∈ initialized.registry.traces, trace.threadId ≠ self := by
    rw [noTraces]
    exact fun _ _ inMap => absurd inMap List.not_mem_nil
  have possible : ((controllerInitialize Kernel.accepting StartUp.smooth Library.initial).bind
      runEnteringTurns).isSome = true := by decide +kernel
  rw [done, Option.bind_some, Option.isSome_iff_exists] at possible
  rcases possible with ⟨after, turns⟩
  rcases exists_enteringTurns turns with ⟨recording, run⟩
  have alone : Alone twoThreads false := by
    intro other same
    revert same
    cases other <;> decide +kernel
  refine ⟨initialized, recording, done, run,
    (controlflow_tells_calls_iff true idle (fresh _) run).1.mpr (by simp [enteringTurns]),
    (controlflow_tells_calls_iff false idle (fresh _) run).2 alone⟩
/-- A thread enters and leaves one operation: its record says that another was open around it. -/
theorem outermost_operation_at_depth_one :
    ∃ initialized recording,
      controllerInitialize Kernel.accepting StartUp.smooth Library.initial = some initialized ∧
      Steps (Recording.Step Kernel.accepting fun _ : Unit => 7) (Recording.start initialized)
        [⟨(), .controlflowBefore (.literal "int main()")⟩, ⟨(), .controlflowAfter⟩,
          ⟨(), .controlflowAfter2⟩] recording ∧
      ((recordsBy () recording.sent).map fun record => (record.eoi, record.ess)) = [(0, 1)] ∧
      ¬TellsCalls 0 (movesOf () [⟨(), .controlflowBefore (.literal "int main()")⟩,
        ⟨(), .controlflowAfter⟩, ⟨(), .controlflowAfter2⟩]) (recordsBy () recording.sent) := by
  rcases exists_idle Kernel.accepting with ⟨initialized, done, idle, noTraces⟩
  have noTrace : ∀ trace, trace ∉ initialized.registry.traces := by
    rw [noTraces]
    exact fun _ => List.not_mem_nil
  have fresh : ∀ trace ∈ initialized.registry.traces,
      trace.threadId ≠ threadIdOf ((fun _ : Unit => (7 : PthreadSelf)) ()) :=
    fun trace inMap => absurd inMap (noTrace trace)
  rcases probeAspectControlflowBefore_eq Kernel.accepting 7 idle with
    ⟨entered, enters, enteredMap, enteredIdle⟩
  have inMap : (initialized.registry.current Kernel.accepting 7).enter ∈
      entered.registry.traces := by
    rw [enteredMap, TraceRegistry.mem_entering idle.wellFormed]
    exact Or.inl rfl
  rcases probeAspectControlflowAfter_isSome Kernel.accepting enteredIdle inMap with
    ⟨⟨tout, left⟩, leaves⟩
  rcases probeAspectControlflowAfter_eq_some enteredIdle leaves with ⟨leftMap, leftIdle⟩
  have stillInMap : (initialized.registry.current Kernel.accepting 7).enter.pop ∈
      left.registry.traces := by
    rw [leftMap]
    exact TraceRegistry.mem_assign_self KiekerTrace.pop inMap
  have room : 44 ≤ (initialized.registry.current Kernel.accepting 7).enter.pop.buffer.size := by
    rw [TraceRegistry.current_of_notMem fresh]
    change 44 ≤ 1024
    norm_num
  have closed : ∃ record, (openExecutionOf Kernel.accepting (.literal "host")
      initialized.channel.world.clockReads
      (initialized.registry.current Kernel.accepting 7).enter).close tout (.literal "int main()") =
        some record ∧ Field.stringsAll record.fields =
        [.literal "int main()", .literal "<no session>", .literal "host"] := ⟨_, rfl, rfl⟩
  rcases closed with ⟨record, complete, strings⟩
  have usable : Usable (Interning.internAll [] eventTypes) (Field.stringsAll record.fields) := by
    have short : ∀ string ∈ [CString.literal "int main()", .literal "<no session>",
        .literal "host"], string.Fits := by decide
    rw [strings]
    exact fun string string_mem => Or.inr (short string string_mem)
  rcases probeAspectControlflowAfter2_isSome Kernel.accepting leftIdle stillInMap usable room with
    ⟨answered, answers⟩
  generalize initialized.registry.current Kernel.accepting 7 = trace
    at enters leaves answers complete
  generalize openExecutionOf Kernel.accepting (.literal "host")
    initialized.channel.world.clockReads trace.enter = execution at enters complete
  have first : Recording.Step Kernel.accepting (fun _ : Unit => 7) (Recording.start initialized)
      ⟨(), .controlflowBefore (.literal "int main()")⟩
      ⟨⟨entered, [⟨(), .controlflow (.literal "int main()") execution, trace.address⟩], []⟩, []⟩ :=
    Recording.step_before enters fun _ frame_mem => absurd frame_mem List.not_mem_nil
  have second : Recording.Step Kernel.accepting (fun _ : Unit => 7)
      ⟨⟨entered, [⟨(), .controlflow (.literal "int main()") execution, trace.address⟩], []⟩, []⟩
      ⟨(), .controlflowAfter⟩
      ⟨⟨left, [], [⟨(), ⟨.literal "int main()", execution, tout⟩, trace.address⟩]⟩, []⟩ :=
    ⟨@AspectProcess.Step.controlflowAfter Unit _ _ _ _ () _ _ _ _
        ⟨(), .controlflow (.literal "int main()") execution, trace.address⟩ [] rfl rfl leaves,
      trivial, Or.inr fun _ frame_mem => absurd frame_mem List.not_mem_nil, rfl⟩
  have third : Recording.Step Kernel.accepting (fun _ : Unit => 7)
      ⟨⟨left, [], [⟨(), ⟨.literal "int main()", execution, tout⟩, trace.address⟩]⟩, []⟩
      ⟨(), .controlflowAfter2⟩ ⟨⟨answered, [], []⟩, [((), record)]⟩ :=
    Recording.step_after2 rfl complete answers
  have run := Steps.cons first (Steps.cons second (.single third))
  rcases Recording.Kept.of_run () idle fresh run with ⟨known, id, tally, kept⟩
  refine ⟨initialized, _, done, run, ?_, kept.not_tellsCalls_of_sent (List.cons_ne_nil _ _)⟩
  have tallied : tallyOf (movesOf () [⟨(), .controlflowBefore (.literal "int main()")⟩,
      ⟨(), .controlflowAfter⟩, ⟨(), .controlflowAfter2⟩]) =
        some ⟨[], [⟨.literal "int main()", 0, 0⟩], 1⟩ := rfl
  rcases (kept.tellsCalls fun _ _ => rfl).visits with ⟨other, otherTallied, visits⟩
  cases otherTallied.symm.trans tallied
  simpa [recordsBy] using congrArg (List.map Prod.snd) visits

end Kieker
