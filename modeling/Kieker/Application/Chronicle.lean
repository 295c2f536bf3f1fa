import Kieker.Application.Calls

/-!
# Traces as they should be told

The records of a run should tell, for every outermost operation of every thread,
one trace: its metadata first, then every event inside the operation, numbered
from zero. A chronicle names the traces of each thread, in order, and says that
the records sent so far tell exactly these.
-/

namespace Kieker

open Nesting

/-- The event of an operation with plain probes that a record reports, and its number. -/
def Record.event : Record → Option (Event Operation × ℤ)
  | .traceMetadata _ => none
  | .beforeOperationEvent value =>
      some (.enter ⟨.plain, value.classSignature, value.operationSignature⟩, value.orderIndex)
  | .afterOperationEvent value =>
      some (.leave ⟨.plain, value.classSignature, value.operationSignature⟩, value.orderIndex)

/-- The records of one trace, in order. -/
def recordsOf (id : ℤ) (sent : List Logged) : List Record :=
  (sent.map Logged.record).filter fun record => record.traceId = id

/-- Records that open a trace and then report some events, numbered from zero. -/
def Tells (events : List (Event Operation)) (records : List Record) : Prop :=
  ∃ metadata rest, records = .traceMetadata metadata :: rest ∧
    rest.map Record.event = events.zipIdx.map fun numbered => some (numbered.1, (numbered.2 : ℤ))

theorem Tells.snoc {events : List (Event Operation)} {records : List Record}
    (tells : Tells events records) {record : Record} {event : Event Operation}
    (reports : record.event = some (event, (events.length : ℤ))) :
    Tells (events ++ [event]) (records ++ [record]) := by
  rcases tells with ⟨metadata, rest, rfl, numbered⟩
  refine ⟨metadata, rest ++ [record], rfl, ?_⟩
  simp [numbered, reports, List.zipIdx_append]

theorem recordsOf_append (id : ℤ) (sent built : List Logged) :
    recordsOf id (sent ++ built) = recordsOf id sent ++ recordsOf id built := by
  simp [recordsOf]

theorem recordsOf_of_all {id : ℤ} {built : List Logged}
    (ofTrace : ∀ logged ∈ built, logged.record.traceId = id) :
    recordsOf id built = built.map Logged.record := by
  rw [recordsOf, List.filter_eq_self]
  intro record record_mem
  rcases List.mem_map.mp record_mem with ⟨logged, isBuilt, rfl⟩
  exact decide_eq_true (ofTrace logged isBuilt)

theorem recordsOf_of_none {id : ℤ} {built : List Logged}
    (ofOthers : ∀ logged ∈ built, logged.record.traceId ≠ id) : recordsOf id built = [] := by
  rw [recordsOf, List.filter_eq_nil_iff]
  intro record record_mem
  rcases List.mem_map.mp record_mem with ⟨logged, isBuilt, rfl⟩
  simpa using ofOthers logged isBuilt

variable {Thread : Type} [DecidableEq Thread]

/-- The traces of each thread, and the records that tell them; ids from `next` on are unused. -/
structure Chronicle (calls : List (Call Thread)) (sent : List Logged) (next : ℤ)
    (ids : Thread → List ℤ) : Prop where
  /-- Each outermost operation of a thread is told by the records of one trace. -/
  told : ∀ thread, List.Forall₂ (fun id events => Tells events (recordsOf id sent)) (ids thread)
    (outermost (eventsOf thread calls))
  /-- No trace is told twice. -/
  single : ∀ thread, (ids thread).Nodup
  apart : ∀ first second, first ≠ second → ∀ id ∈ ids first, id ∉ ids second
  used : ∀ thread, ∀ id ∈ ids thread, id < next
  /-- Every record tells a trace. -/
  covered : ∀ logged ∈ sent, ∃ thread, logged.record.traceId ∈ ids thread

namespace Chronicle

variable {calls : List (Call Thread)} {sent : List Logged} {next : ℤ} {ids : Thread → List ℤ}

theorem nil (next : ℤ) : Chronicle ([] : List (Call Thread)) [] next fun _ => [] where
  told := fun _ => .nil
  single := fun _ => List.nodup_nil
  apart := fun _ _ _ _ inFirst => absurd inFirst (List.not_mem_nil)
  used := fun _ _ inThread => absurd inThread (List.not_mem_nil)
  covered := fun _ isSent => absurd isSent (List.not_mem_nil)

/-- Traces that get no new records still tell what they told. -/
theorem told_of_same {later : List Logged} {traces : List ℤ}
    {segments : List (List (Event Operation))}
    (told : List.Forall₂ (fun id events => Tells events (recordsOf id sent)) traces segments)
    (same : ∀ id ∈ traces, recordsOf id later = recordsOf id sent) :
    List.Forall₂ (fun id events => Tells events (recordsOf id later)) traces segments := by
  induction told with
  | nil => exact .nil
  | cons first _ ih =>
      refine .cons ?_ (ih fun id id_mem => same id (List.mem_cons_of_mem _ id_mem))
      rw [same _ List.mem_cons_self]
      exact first

/-- A record that goes on with the latest trace tells one more event of it. -/
theorem told_snoc {later : List Logged} {traces : List ℤ}
    {segments : List (List (Event Operation))} {id : ℤ} {record : Record}
    {event : Event Operation}
    (told : List.Forall₂ (fun id events => Tells events (recordsOf id sent)) traces segments)
    (latest : traces.getLast? = some id) (single : traces.Nodup)
    (same : ∀ other, other ≠ id → recordsOf other later = recordsOf other sent)
    (more : recordsOf id later = recordsOf id sent ++ [record])
    (reports : record.event = some (event, ((segments.getLastD []).length : ℤ))) :
    List.Forall₂ (fun id events => Tells events (recordsOf id later)) traces
      (segments.dropLast ++ [segments.getLastD [] ++ [event]]) := by
  rcases List.getLast?_eq_some_iff.mp latest with ⟨front, rfl⟩
  rcases List.eq_nil_or_concat segments with rfl | ⟨ended, segment, rfl⟩
  · simp at told
  · rw [List.concat_eq_append, ← List.forall₂_reverse_iff] at told
    simp only [List.reverse_append, List.reverse_singleton, List.singleton_append,
      List.forall₂_cons, List.forall₂_reverse_iff] at told
    rw [List.concat_eq_append, List.getLastD_concat] at reports
    rw [List.concat_eq_append, List.dropLast_concat, List.getLastD_concat]
    refine List.rel_append (told_of_same told.2 ?_) (.cons ?_ .nil)
    · intro other other_mem
      apply same
      rintro rfl
      rw [List.nodup_append] at single
      exact single.2.2 other other_mem other List.mem_cons_self rfl
    · rw [more]
      exact told.1.snoc reports

/-- A thread with nothing open begins a new trace. -/
theorem begin (chronicle : Chronicle calls sent next ids) {call : Call Thread}
    (closed : IsBalanced (eventsOf call.thread calls)) {built : List Logged}
    (tells : Tells [call.event] (built.map Logged.record))
    (ofTrace : ∀ logged ∈ built, logged.record.traceId = next) :
    Chronicle (calls ++ [call]) (sent ++ built) (next + 1)
      (Function.update ids call.thread (ids call.thread ++ [next])) := by
  have unused : ∀ thread, next ∉ ids thread := fun thread isUsed =>
    absurd (chronicle.used thread next isUsed) (lt_irrefl next)
  have same : ∀ thread, ∀ id ∈ ids thread,
      recordsOf id (sent ++ built) = recordsOf id sent := by
    intro thread id id_mem
    have untouched : recordsOf id built = [] := by
      apply recordsOf_of_none
      intro logged isBuilt
      rw [ofTrace logged isBuilt]
      exact (chronicle.used thread id id_mem).ne'
    rw [recordsOf_append, untouched, List.append_nil]
  have fresh : recordsOf next (sent ++ built) = built.map Logged.record := by
    have untold : recordsOf next sent = [] := by
      apply recordsOf_of_none
      intro logged isSent isNext
      rcases chronicle.covered logged isSent with ⟨thread, id_mem⟩
      exact unused thread (isNext ▸ id_mem)
    rw [recordsOf_append, recordsOf_of_all ofTrace, untold, List.nil_append]
  refine ⟨?_, ?_, ?_, ?_, ?_⟩
  · intro thread
    by_cases mine : thread = call.thread
    · subst mine
      rw [Function.update_self, eventsOf_concat_self, outermost_concat_of_closed closed]
      refine List.rel_append (told_of_same (chronicle.told _) (same _)) (.cons ?_ .nil)
      rw [fresh]
      exact tells
    · rw [Function.update_of_ne mine, eventsOf_concat_of_ne calls (Ne.symm mine)]
      exact told_of_same (chronicle.told thread) (same thread)
  · intro thread
    by_cases mine : thread = call.thread
    · subst mine
      rw [Function.update_self]
      rw [← List.concat_eq_append]
      exact (chronicle.single _).concat (unused _)
    · rw [Function.update_of_ne mine]
      exact chronicle.single thread
  · intro first second different id inFirst inSecond
    by_cases firstMine : first = call.thread
    · subst firstMine
      rw [Function.update_self] at inFirst
      rw [Function.update_of_ne (Ne.symm different)] at inSecond
      rcases List.mem_append.mp inFirst with old | new
      · exact chronicle.apart _ second different id old inSecond
      · rw [List.mem_singleton.mp new] at inSecond
        exact unused second inSecond
    · rw [Function.update_of_ne firstMine] at inFirst
      by_cases secondMine : second = call.thread
      · subst secondMine
        rw [Function.update_self] at inSecond
        rcases List.mem_append.mp inSecond with old | new
        · exact chronicle.apart first _ different id inFirst old
        · rw [List.mem_singleton.mp new] at inFirst
          exact unused first inFirst
      · rw [Function.update_of_ne secondMine] at inSecond
        exact chronicle.apart first second different id inFirst inSecond
  · intro thread id id_mem
    by_cases mine : thread = call.thread
    · subst mine
      rw [Function.update_self] at id_mem
      rcases List.mem_append.mp id_mem with old | new
      · exact (chronicle.used _ id old).trans (lt_add_one next)
      · rw [List.mem_singleton.mp new]
        exact lt_add_one next
    · rw [Function.update_of_ne mine] at id_mem
      exact (chronicle.used thread id id_mem).trans (lt_add_one next)
  · intro logged logged_mem
    rcases List.mem_append.mp logged_mem with isSent | isBuilt
    · rcases chronicle.covered logged isSent with ⟨thread, id_mem⟩
      refine ⟨thread, ?_⟩
      by_cases mine : thread = call.thread
      · subst mine
        rw [Function.update_self]
        exact List.mem_append_left _ id_mem
      · rwa [Function.update_of_ne mine]
    · refine ⟨call.thread, ?_⟩
      rw [Function.update_self, ofTrace logged isBuilt]
      exact List.mem_append_right _ List.mem_cons_self

/-- A thread with an operation open goes on with its latest trace. -/
theorem extend (chronicle : Chronicle calls sent next ids) {call : Call Thread} {id : ℤ}
    (notClosed : ¬IsBalanced (eventsOf call.thread calls))
    (latest : (ids call.thread).getLast? = some id) {logged : Logged}
    (ofTrace : logged.record.traceId = id)
    (reports : logged.record.event = some (call.event,
      (((outermost (eventsOf call.thread calls)).getLastD []).length : ℤ))) :
    Chronicle (calls ++ [call]) (sent ++ [logged]) next ids := by
  have inThread : id ∈ ids call.thread := List.mem_of_getLast? latest
  have same : ∀ other, other ≠ id → recordsOf other (sent ++ [logged]) = recordsOf other sent := by
    intro other different
    have untouched : recordsOf other [logged] = [] := by
      apply recordsOf_of_none
      intro built isBuilt
      rw [List.mem_singleton.mp isBuilt, ofTrace]
      exact different.symm
    rw [recordsOf_append, untouched, List.append_nil]
  have extended : recordsOf id (sent ++ [logged]) = recordsOf id sent ++ [logged.record] := by
    have told : recordsOf id [logged] = [logged.record] := by
      apply recordsOf_of_all
      intro built isBuilt
      rw [List.mem_singleton.mp isBuilt, ofTrace]
    rw [recordsOf_append, told]
  refine ⟨?_, chronicle.single, chronicle.apart, chronicle.used, ?_⟩
  · intro thread
    by_cases mine : thread = call.thread
    · subst mine
      rw [eventsOf_concat_self, outermost_concat_of_open notClosed]
      exact told_snoc (chronicle.told _) latest (chronicle.single _) same extended reports
    · rw [eventsOf_concat_of_ne calls (Ne.symm mine)]
      apply told_of_same (chronicle.told thread)
      intro other other_mem
      apply same
      rintro rfl
      exact chronicle.apart thread call.thread mine other other_mem inThread
  · intro built built_mem
    rcases List.mem_append.mp built_mem with isSent | isBuilt
    · exact chronicle.covered built isSent
    · refine ⟨call.thread, ?_⟩
      rw [List.mem_singleton.mp isBuilt, ofTrace]
      exact inThread

end Chronicle

end Kieker
