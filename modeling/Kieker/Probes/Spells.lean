import Kieker.Probes.Plain

/-!
# Spells

What the plain probes count, without traces. The calls under one thread id fall into
spells. A spell begins with the first call after the last one was over, and is over
when an operation is left and as many were left as were entered. The trace map has
a trace for a thread id exactly while a spell lasts, with the numbers of the spell,
whether or not the calls are nested.
-/

namespace Kieker

namespace PlainCall

/-- The thread that calls. -/
def self : PlainCall → PthreadSelf
  | .before self _ _ => self
  | .after self _ _ => self

/-- The thread id that the probe knows the thread by. -/
def threadId (call : PlainCall) : ℤ := threadIdOf call.self

/-- Whether an operation is left. -/
def isAfter : PlainCall → Bool
  | .before _ _ _ => false
  | .after _ _ _ => true

end PlainCall

/-- Calls under one thread id. -/
structure Spell where
  /-- How many more operations were entered than left. -/
  stack : ℤ
  events : ℕ
  ended : Bool

namespace Spell

/-- Before the first call. -/
def none : Spell where
  stack := 0
  events := 0
  ended := true

/-- The spell that the next call belongs to. -/
def resume (spell : Spell) : Spell :=
  if spell.ended then none else spell

/-- One more call. -/
def next (spell : Spell) : PlainCall → Spell
  | .before _ _ _ => {
      stack := spell.resume.stack + 1
      events := spell.resume.events + 1
      ended := false }
  | .after _ _ _ => {
      stack := spell.resume.stack - 1
      events := spell.resume.events + 1
      ended := spell.resume.stack - 1 = 0 }

end Spell

/-- The last spell of a thread id. -/
def spellOf (threadId : ℤ) (calls : List PlainCall) : Spell :=
  (calls.filter fun call => call.threadId = threadId).foldl Spell.next Spell.none

/-- How often operations were entered under a thread id. -/
def entries (threadId : ℤ) (calls : List PlainCall) : ℕ :=
  calls.countP fun call => call.threadId = threadId ∧ call.isAfter = false

/-- How often operations were left under a thread id. -/
def exits (threadId : ℤ) (calls : List PlainCall) : ℕ :=
  calls.countP fun call => call.threadId = threadId ∧ call.isAfter = true

variable {calls : List PlainCall} {call : PlainCall} {threadId : ℤ}

theorem spellOf_concat_self (calls : List PlainCall) (mine : call.threadId = threadId) :
    spellOf threadId (calls ++ [call]) = (spellOf threadId calls).next call := by
  simp [spellOf, mine]

theorem spellOf_concat_other (calls : List PlainCall) (different : call.threadId ≠ threadId) :
    spellOf threadId (calls ++ [call]) = spellOf threadId calls := by
  simp [spellOf, different]

theorem Spell.events_next (spell : Spell) (call : PlainCall) :
    (spell.next call).events = spell.resume.events + 1 := by
  cases call <;> rfl

theorem Spell.stack_next (spell : Spell) (call : PlainCall) : (spell.next call).stack =
    if call.isAfter then spell.resume.stack - 1 else spell.resume.stack + 1 := by
  cases call <;> rfl

/-- A spell is over at a balance only, and lasts from its first event on. -/
theorem stack_or_events (threadId : ℤ) (calls : List PlainCall) :
    (spellOf threadId calls).ended = true ∧ (spellOf threadId calls).stack = 0 ∨
      (spellOf threadId calls).ended = false ∧ 0 < (spellOf threadId calls).events := by
  induction calls using List.reverseRecOn with
  | nil => exact Or.inl ⟨rfl, rfl⟩
  | append_singleton calls call ih =>
      by_cases mine : call.threadId = threadId
      · rw [spellOf_concat_self calls mine]
        cases call with
        | before self classSignature operationSignature => exact Or.inr ⟨rfl, Nat.succ_pos _⟩
        | after self classSignature operationSignature =>
            by_cases balanced : (spellOf threadId calls).resume.stack - 1 = 0
            · exact Or.inl ⟨decide_eq_true balanced, balanced⟩
            · exact Or.inr ⟨decide_eq_false balanced, Nat.succ_pos _⟩
      · rw [spellOf_concat_other calls mine]
        exact ih

theorem stack_resume (threadId : ℤ) (calls : List PlainCall) :
    (spellOf threadId calls).resume.stack = (spellOf threadId calls).stack := by
  unfold Spell.resume
  rcases stack_or_events threadId calls with ⟨hasEnded, balanced⟩ | ⟨goesOn, -⟩
  · rw [if_pos hasEnded, balanced]
    rfl
  · rw [goesOn]
    rfl

/-- The next call finds no trace exactly if the last spell is over. -/
theorem events_resume_eq_zero_iff (threadId : ℤ) (calls : List PlainCall) :
    (spellOf threadId calls).resume.events = 0 ↔ (spellOf threadId calls).ended = true := by
  unfold Spell.resume
  rcases stack_or_events threadId calls with ⟨hasEnded, -⟩ | ⟨goesOn, someEvent⟩
  · rw [if_pos hasEnded]
    exact ⟨fun _ => hasEnded, fun _ => rfl⟩
  · rw [goesOn]
    exact ⟨fun noEvent => absurd noEvent someEvent.ne', fun hasEnded => Bool.noConfusion hasEnded⟩

/-- However the calls are nested, the stack is what was entered and not left. -/
theorem stack_spellOf (threadId : ℤ) (calls : List PlainCall) :
    (spellOf threadId calls).stack = entries threadId calls - exits threadId calls := by
  induction calls using List.reverseRecOn with
  | nil => rfl
  | append_singleton calls call ih =>
      by_cases mine : call.threadId = threadId
      · rw [spellOf_concat_self calls mine]
        have resumed := stack_resume threadId calls
        cases call with
        | before self classSignature operationSignature =>
            simp only [Spell.next, entries, exits, List.countP_append, resumed, ih]
            simp [mine, PlainCall.isAfter]
            ring
        | after self classSignature operationSignature =>
            simp only [Spell.next, entries, exits, List.countP_append, resumed, ih]
            simp [mine, PlainCall.isAfter]
            ring
      · rw [spellOf_concat_other calls mine, ih]
        simp [entries, exits, mine]

/-- No operation was left more often than operations were entered. -/
def LeavesEntered (calls : List PlainCall) : Prop :=
  ∀ front, front <+: calls → ∀ threadId, exits threadId front ≤ entries threadId front

theorem leavesEntered_concat : LeavesEntered (calls ++ [call]) ↔ LeavesEntered calls ∧
    exits call.threadId (calls ++ [call]) ≤ entries call.threadId (calls ++ [call]) := by
  constructor
  · intro leaves
    exact ⟨fun front leads => leaves front (leads.trans (List.prefix_append _ _)),
      leaves _ List.prefix_rfl _⟩
  · rintro ⟨leaves, last⟩ front leads threadId
    rcases List.prefix_concat_iff.mp leads with rfl | earlier
    · by_cases mine : call.threadId = threadId
      · rw [← mine]
        exact last
      · have before := leaves calls List.prefix_rfl threadId
        simpa [entries, exits, mine] using before
    · exact leaves front earlier threadId

/-- While nothing is left that was not entered, spells are over at every balance. -/
theorem LeavesEntered.ended_iff (leaves : LeavesEntered calls) (threadId : ℤ) :
    (spellOf threadId calls).ended = true ↔ (spellOf threadId calls).stack = 0 := by
  refine ⟨fun hasEnded => ?_, fun balanced => ?_⟩
  · rcases stack_or_events threadId calls with ⟨-, balanced⟩ | ⟨goesOn, -⟩
    · exact balanced
    · rw [goesOn] at hasEnded
      cases hasEnded
  · induction calls using List.reverseRecOn with
    | nil => rfl
    | append_singleton calls call ih =>
        rcases leavesEntered_concat.mp leaves with ⟨earlier, last⟩
        by_cases mine : call.threadId = threadId
        · rw [spellOf_concat_self calls mine] at balanced ⊢
          cases call with
          | before self classSignature operationSignature =>
              have notBelow := earlier calls List.prefix_rfl threadId
              have stack := stack_spellOf threadId calls
              have resumed := stack_resume threadId calls
              change (spellOf threadId calls).resume.stack + 1 = 0 at balanced
              omega
          | after self classSignature operationSignature => exact decide_eq_true balanced
        · rw [spellOf_concat_other calls mine] at balanced ⊢
          exact ih earlier balanced

/-! ### The trace map -/

namespace PlainCall

variable {kernel : Kernel} {registry : TraceRegistry} {trace : KiekerTrace}

/-- What a call counts in a trace. -/
def count : PlainCall → KiekerTrace → KiekerTrace
  | .before _ _ _ => KiekerTrace.enter
  | .after _ _ _ => KiekerTrace.leave

theorem keepsIdentity_count (call : PlainCall) : TraceRegistry.KeepsIdentity call.count := by
  cases call with
  | before self classSignature operationSignature => exact TraceRegistry.keepsIdentity_enter
  | after self classSignature operationSignature => exact TraceRegistry.keepsIdentity_leave

/-- A call changes the current trace of its thread, which leaves the map at an exit at a balance. -/
theorem mem_registry (wellFormed : registry.WellFormed) :
    trace ∈ (call.registry kernel registry).traces ↔
      trace = call.count (registry.current kernel call.self) ∧
          (call.isAfter = true → trace.stack ≠ 0) ∨
        trace ∈ registry.traces ∧ trace.address ≠ (registry.current kernel call.self).address := by
  cases call with
  | before self classSignature operationSignature =>
      rw [PlainCall.registry, TraceRegistry.mem_entering wellFormed]
      simp [isAfter, count, PlainCall.self]
  | after self classSignature operationSignature =>
      have inMap : registry.current kernel self ∈ (registry.traceGet kernel self).2.traces :=
        TraceRegistry.mem_traceGet.mpr (Or.inr rfl)
      rw [PlainCall.registry, TraceRegistry.mem_leaving wellFormed.traceGet
        TraceRegistry.keepsIdentity_leave inMap, TraceRegistry.mem_traceGet]
      constructor
      · rintro (⟨rfl, stays⟩ | ⟨old | rfl, different⟩)
        · exact Or.inl ⟨rfl, fun _ => stays⟩
        · exact Or.inr ⟨old, different⟩
        · exact absurd rfl different
      · rintro (⟨rfl, stays⟩ | ⟨old, different⟩)
        · exact Or.inl ⟨rfl, stays rfl⟩
        · exact Or.inr ⟨Or.inl old, different⟩

theorem threadId_ne (wellFormed : registry.WellFormed) (inMap : trace ∈ registry.traces)
    (different : trace.address ≠ (registry.current kernel call.self).address) :
    call.threadId ≠ trace.threadId := by
  intro same
  apply different
  rw [TraceRegistry.current_of_mem wellFormed inMap same.symm]

theorem currentId_registry : (call.registry kernel registry).currentId =
    match registry.traceFind call.threadId with
    | some _ => registry.currentId
    | none => registry.currentId + 1 := by
  have sameId : (call.registry kernel registry).currentId =
      (registry.traceGet kernel call.self).2.currentId := by
    cases call with
    | before self classSignature operationSignature => rfl
    | after self classSignature operationSignature => exact TraceRegistry.currentId_leaving
  rw [sameId]
  cases found : registry.traceFind call.threadId with
  | some trace => rw [(TraceRegistry.traceGet_of_some kernel found).1]
  | none => rw [TraceRegistry.traceGet_of_none found]

end PlainCall

/-- The trace map has a trace for each thread id whose spell is not over, with its numbers. -/
structure TraceRegistry.CountsSpells (registry : TraceRegistry) (calls : List PlainCall) :
    Prop where
  known : ∀ trace ∈ registry.traces, (spellOf trace.threadId calls).ended = false ∧
    (spellOf trace.threadId calls).stack = trace.stack ∧
    ((spellOf trace.threadId calls).events : ℤ) = trace.orderIndex + 1
  unknown : ∀ threadId, (∀ trace ∈ registry.traces, trace.threadId ≠ threadId) →
    (spellOf threadId calls).ended = true

namespace TraceRegistry.CountsSpells

variable {registry : TraceRegistry}

theorem initial (noTraces : registry.traces = []) : registry.CountsSpells [] where
  known := by
    rw [noTraces]
    exact fun _ inMap => absurd inMap List.not_mem_nil
  unknown := fun _ _ => rfl

/-- The trace of a thread, new or not, has the numbers of the spell that goes on. -/
theorem current (counts : registry.CountsSpells calls) (kernel : Kernel) (call : PlainCall) :
    (spellOf call.threadId calls).resume.stack = (registry.current kernel call.self).stack ∧
      ((spellOf call.threadId calls).resume.events : ℤ) =
        (registry.current kernel call.self).orderIndex + 1 := by
  unfold PlainCall.threadId
  cases found : registry.traceFind (threadIdOf call.self) with
  | some trace =>
      rcases mem_of_traceFind found with ⟨inMap, mine⟩
      rcases counts.known trace inMap with ⟨goesOn, stack, events⟩
      rw [(traceGet_of_some kernel found).2, ← mine, Spell.resume, goesOn]
      exact ⟨stack, events⟩
  | none =>
      have missing : ∀ trace ∈ registry.traces, trace.threadId ≠ threadIdOf call.self :=
        fun _ => threadId_ne_of_traceFind found
      rw [current_of_notMem missing, Spell.resume, if_pos (counts.unknown _ missing)]
      exact ⟨rfl, rfl⟩

/-- A call moves the spell of its thread id on, and leaves the others alone. -/
theorem next (counts : registry.CountsSpells calls) (wellFormed : registry.WellFormed)
    (kernel : Kernel) (call : PlainCall) :
    (call.registry kernel registry).CountsSpells (calls ++ [call]) := by
  have keeps := call.keepsIdentity_count
  have ofCall : (call.count (registry.current kernel call.self)).threadId = call.threadId :=
    (keeps.threadId _).trans threadId_current
  rcases counts.current kernel call with ⟨stack, events⟩
  refine ⟨?_, ?_⟩
  · intro trace inMap
    rcases (PlainCall.mem_registry wellFormed).mp inMap with ⟨rfl, stays⟩ | ⟨old, different⟩
    · rw [spellOf_concat_self calls ofCall.symm, ofCall]
      cases call with
      | before self classSignature operationSignature =>
          exact ⟨rfl, congrArg (· + 1) stack, by
            rw [Spell.events_next]
            push_cast
            exact congrArg (· + 1) events⟩
      | after self classSignature operationSignature =>
          refine ⟨decide_eq_false fun balanced => stays rfl ?_, congrArg (· - 1) stack, ?_⟩
          · rw [← balanced, stack]
            rfl
          · rw [Spell.events_next]
            push_cast
            exact congrArg (· + 1) events
    · rw [spellOf_concat_other calls (PlainCall.threadId_ne wellFormed old different)]
      exact counts.known trace old
  · intro threadId missing
    by_cases mine : call.threadId = threadId
    · rw [spellOf_concat_self calls mine]
      subst mine
      by_contra goesOn
      refine missing _ ((PlainCall.mem_registry wellFormed).mpr (Or.inl ⟨rfl, ?_⟩)) ofCall
      intro isAfter balanced
      cases call with
      | before self classSignature operationSignature => cases isAfter
      | after self classSignature operationSignature =>
          apply goesOn
          apply decide_eq_true
          rw [← balanced]
          exact congrArg (· - 1) stack
    · rw [spellOf_concat_other calls mine]
      apply counts.unknown
      intro trace inMap ofThread
      refine missing trace ((PlainCall.mem_registry wellFormed).mpr (Or.inr ⟨inMap, ?_⟩)) ofThread
      intro same
      apply mine
      have isCurrent := wellFormed.traceGet.eq_of_address (mem_traceGet.mpr (Or.inl inMap))
        (mem_traceGet.mpr (Or.inr rfl)) same
      rw [← ofThread, isCurrent, threadId_current]
      rfl

end TraceRegistry.CountsSpells

end Kieker
