import Kieker.Application.Journal
import Mathlib.Data.List.Infix

/-!
# Traces and their metadata

Only the before probe sends metadata, and only when it finds that the trace has no
event yet. So a trace is introduced by its metadata unless it begins with an exit,
and then it never is: exits without an entry are the only cause.
-/

namespace Kieker

/-- Every trace that has an event begins with its only metadata. -/
def Introduced (sent : List Logged) : Prop :=
  ∀ id, positions id sent ≠ [] → ∃ metadata rest,
    recordsOf id sent = .traceMetadata metadata :: rest ∧
      ∀ record ∈ rest, record.orderIndex.isSome = true

variable {kernel : Kernel} {start : Library} {hostname : CString} {calls : List PlainCall}
  {next : PlainCall} {journal : Journal} {known : List CString} {id : ℤ}
  {sent built : List Logged}

namespace Journal.Adds

theorem positions_ne_nil (adds : Adds calls next sent id built) :
    positions id (sent ++ built) ≠ [] := by
  rw [adds.positions_self]
  simp

/-- An exit that begins a trace leaves it without metadata. -/
theorem not_introduced (adds : Adds calls next sent id built) (isAfter : next.isAfter = true)
    (hasEnded : (spellOf next.threadId calls).ended = true) : ¬Introduced (sent ++ built) := by
  intro introduced
  rcases introduced id adds.positions_ne_nil with ⟨metadata, rest, records, -⟩
  rcases adds.records with ⟨_, event, builtRecords, orderIndex⟩
  rw [isAfter, if_neg fun both => Bool.noConfusion both.1, List.nil_append] at builtRecords
  rw [adds.self, adds.new hasEnded, builtRecords, List.nil_append, List.cons.injEq] at records
  rw [records.1] at orderIndex
  cases orderIndex

/-- An entry that begins a trace introduces it. -/
theorem begins (adds : Adds calls next sent id built) (isBefore : next.isAfter = false)
    (hasEnded : (spellOf next.threadId calls).ended = true) : ∃ metadata rest,
      recordsOf id (sent ++ built) = .traceMetadata metadata :: rest ∧
        ∀ record ∈ rest, record.orderIndex.isSome = true := by
  rcases adds.records with ⟨metadata, event, builtRecords, orderIndex⟩
  refine ⟨metadata, [event], ?_, ?_⟩
  · rw [adds.self, adds.new hasEnded, builtRecords, if_pos ⟨isBefore, hasEnded⟩]
    rfl
  · intro record record_mem
    rw [List.mem_singleton.mp record_mem, orderIndex]
    rfl

theorem goes_on (adds : Adds calls next sent id built)
    (goesOn : (spellOf next.threadId calls).ended = false) :
    (∃ metadata rest, recordsOf id (sent ++ built) = .traceMetadata metadata :: rest ∧
        ∀ record ∈ rest, record.orderIndex.isSome = true) ↔
      positions id sent ≠ [] ∧ ∃ metadata rest,
        recordsOf id sent = .traceMetadata metadata :: rest ∧
          ∀ record ∈ rest, record.orderIndex.isSome = true := by
  have notNew : ¬(spellOf next.threadId calls).resume.events = 0 := by
    rw [events_resume_eq_zero_iff, goesOn]
    exact Bool.false_ne_true
  have hasEvent : positions id sent ≠ [] := by
    rw [adds.numbered]
    simpa using notNew
  rcases adds.records with ⟨_, event, builtRecords, orderIndex⟩
  rw [if_neg fun both => Bool.noConfusion (goesOn.symm.trans both.2),
    List.nil_append] at builtRecords
  rw [adds.self, builtRecords]
  constructor
  · rintro ⟨metadata, rest, records, events⟩
    refine ⟨hasEvent, metadata, ?_⟩
    cases earlier : recordsOf id sent with
    | nil =>
        rw [positions, earlier] at hasEvent
        exact absurd rfl hasEvent
    | cons first others =>
        rw [earlier, List.cons_append, List.cons.injEq] at records
        rcases records with ⟨rfl, rfl⟩
        refine ⟨others, rfl, ?_⟩
        intro record record_mem
        exact events record (List.mem_append_left _ record_mem)
  · rintro ⟨-, metadata, rest, records, events⟩
    refine ⟨metadata, rest ++ [event], by rw [records]; rfl, ?_⟩
    intro record record_mem
    rcases List.mem_append.mp record_mem with earlier | isLast
    · exact events record earlier
    · rw [List.mem_singleton.mp isLast, orderIndex]
      rfl

/-- A call keeps all traces introduced unless it is an exit that begins a trace. -/
theorem introduced_iff (adds : Adds calls next sent id built) :
    Introduced (sent ++ built) ↔ Introduced sent ∧
      ¬(next.isAfter = true ∧ (spellOf next.threadId calls).ended = true) := by
  constructor
  · intro introduced
    refine ⟨?_, fun exits => adds.not_introduced exits.1 exits.2 introduced⟩
    intro otherId hasEvent
    by_cases same : otherId = id
    · subst same
      cases hasEnded : (spellOf next.threadId calls).ended with
      | true =>
          rw [positions, adds.new hasEnded] at hasEvent
          exact absurd rfl hasEvent
      | false => exact ((adds.goes_on hasEnded).mp (introduced otherId adds.positions_ne_nil)).2
    · have told := introduced otherId
      rw [positions, adds.other same] at told
      exact told hasEvent
  · rintro ⟨introduced, notExit⟩ otherId hasEvent
    by_cases same : otherId = id
    · subst same
      cases hasEnded : (spellOf next.threadId calls).ended with
      | true =>
          cases isAfter : next.isAfter with
          | true => exact absurd ⟨isAfter, hasEnded⟩ notExit
          | false => exact adds.begins isAfter hasEnded
      | false =>
          have earlier : positions otherId sent ≠ [] := by
            rw [adds.numbered, ne_eq, List.map_eq_nil_iff, List.range_eq_nil,
              events_resume_eq_zero_iff, hasEnded]
            exact Bool.false_ne_true
          exact (adds.goes_on hasEnded).mpr ⟨earlier, introduced otherId earlier⟩
    · rw [positions, adds.other same] at hasEvent
      rw [adds.other same]
      exact introduced otherId hasEvent

end Journal.Adds

/-- The first exit that was not entered is one that begins a trace. -/
theorem leavesEntered_concat_iff (leaves : LeavesEntered calls) :
    LeavesEntered (calls ++ [next]) ↔
      ¬(next.isAfter = true ∧ (spellOf next.threadId calls).ended = true) := by
  have balance := stack_spellOf next.threadId (calls ++ [next])
  have notBelow := leaves calls List.prefix_rfl next.threadId
  have counted := stack_spellOf next.threadId calls
  have resumed := stack_resume next.threadId calls
  rw [leavesEntered_concat, and_iff_right leaves, leaves.ended_iff]
  rw [spellOf_concat_self calls rfl, Spell.stack_next, resumed] at balance
  cases isAfter : next.isAfter with
  | false =>
      rw [isAfter, if_neg Bool.false_ne_true] at balance
      exact ⟨fun _ isExit => Bool.false_ne_true isExit.1, fun _ => by omega⟩
  | true =>
      rw [isAfter, if_pos rfl] at balance
      refine ⟨fun enough isExit => by omega, fun notExit => ?_⟩
      have unbalanced : ¬(spellOf next.threadId calls).stack = 0 :=
        fun balanced => notExit ⟨rfl, balanced⟩
      omega

theorem Journal.introduced_iff (idle : start.Idle known hostname)
    (noTraces : start.registry.traces = [])
    (done : Journal.run kernel calls (Journal.start start) = some journal) :
    Introduced journal.sent ↔ LeavesEntered calls := by
  induction calls using List.reverseRecOn generalizing journal with
  | nil =>
      cases done
      refine ⟨fun _ front leads threadId => ?_, fun _ id hasEvent => absurd rfl hasEvent⟩
      rw [List.prefix_nil.mp leads, exits, List.countP_nil]
      exact Nat.zero_le _
  | append_singleton calls next ih =>
      rw [Journal.run_concat, Option.bind_eq_some_iff] at done
      rcases done with ⟨middle, earlier, called⟩
      rcases Journal.Kept.of_run idle noTraces earlier with ⟨middleKnown, kept⟩
      rcases Journal.call_eq_some.mp called with ⟨after, -, rfl⟩
      rw [(kept.adds kernel next).introduced_iff, ih earlier]
      constructor
      · rintro ⟨leaves, notExit⟩
        exact (leavesEntered_concat_iff leaves).mpr notExit
      · intro leaves
        have before := (leavesEntered_concat.mp leaves).1
        exact ⟨before, (leavesEntered_concat_iff before).mp leaves⟩

/--
In every run of the plain probes, nested or not, every trace with an event is
introduced by its only metadata, exactly if at no time more operations were left
than entered under a thread id.
-/
theorem events_introduced_iff (idle : start.Idle known hostname)
    (noTraces : start.registry.traces = [])
    (done : Journal.run kernel calls (Journal.start start) = some journal) :
    (∃ made table, journal.library.channel.world.log = start.channel.world.log ++ made ∧
      journal.library.channel.lookup.Holds table ∧
      Carries table start.channel.controller.socket made journal.sent) ∧
    (Introduced journal.sent ↔ LeavesEntered calls) := by
  rcases Journal.Kept.of_run idle noTraces done with ⟨finalKnown, kept⟩
  rcases kept.carries with ⟨made, logEq, carries⟩
  exact ⟨⟨made, finalKnown, logEq, kept.idle.ready.holds, carries⟩,
    Journal.introduced_iff idle noTraces done⟩

/-- Only the threads that call have to be looked at. -/
theorem leavesEntered_of_callers
    (leaves : ∀ front ∈ calls.inits, ∀ call ∈ calls,
      exits call.threadId front ≤ entries call.threadId front) : LeavesEntered calls := by
  intro front leads threadId
  by_cases isCaller : ∃ call ∈ calls, call.threadId = threadId
  · rcases isCaller with ⟨call, call_mem, rfl⟩
    exact leaves front (List.mem_inits _ _ |>.mpr leads) call call_mem
  · have noExit : exits threadId front = 0 := by
      rw [exits, List.countP_eq_zero]
      intro call call_mem isExit
      exact isCaller ⟨call, leads.subset call_mem, (of_decide_eq_true isExit).1⟩
    rw [noExit]
    exact Nat.zero_le _

/-- Two threads take turns, and one of them never leaves its outermost operation. -/
def unfinishedCalls : List PlainCall :=
  [.before 7 (.literal "Main") (.literal "int main()"),
    .before 8 (.literal "Worker") (.literal "void work()"),
    .before 7 (.literal "Worker") (.literal "void work()"),
    .after 7 (.literal "Worker") (.literal "void work()"),
    .after 8 (.literal "Worker") (.literal "void work()"),
    .before 7 (.literal "Worker") (.literal "void work()")]

theorem unfinished_calls_introduced :
    ∃ initialized journal,
      controllerInitialize Kernel.accepting StartUp.smooth Library.initial = some initialized ∧
      Journal.run Kernel.accepting unfinishedCalls (Journal.start initialized) = some journal ∧
      Introduced journal.sent := by
  rcases exists_idle Kernel.accepting with ⟨initialized, done, idle, noTraces⟩
  rcases Journal.Kept.exists_run Kernel.accepting idle noTraces (by decide) unfinishedCalls
    (by decide) with ⟨journal, ran⟩
  exact ⟨initialized, journal, done, ran, (events_introduced_iff idle noTraces ran).2.mpr
    (leavesEntered_of_callers (by decide +kernel))⟩

/-- A thread leaves an operation whose entry was never seen. -/
theorem exit_without_entry_not_introduced :
    ∃ initialized journal,
      controllerInitialize Kernel.accepting StartUp.smooth Library.initial = some initialized ∧
      Journal.run Kernel.accepting [.after 7 (.literal "Main") (.literal "int main()")]
        (Journal.start initialized) = some journal ∧
      ¬Introduced journal.sent := by
  rcases exists_idle Kernel.accepting with ⟨initialized, done, idle, noTraces⟩
  rcases Journal.Kept.exists_run Kernel.accepting idle noTraces (by decide)
    [.after 7 (.literal "Main") (.literal "int main()")] (by decide) with
    ⟨journal, ran⟩
  refine ⟨initialized, journal, done, ran, ?_⟩
  rw [Journal.introduced_iff idle noTraces ran]
  intro leaves
  have tooMany := leaves _ List.prefix_rfl (threadIdOf 7)
  simp [exits, entries, PlainCall.threadId, PlainCall.self, PlainCall.isAfter] at tooMany

end Kieker
