import Kieker.Application.Journal

/-!
# Order on the stream

The counter of a trace has 64 bits, and so has the member of the record, but the
stream keeps 32. A receiver reads the order indices of a trace in increasing order
up to the event number `2 ^ 31` of a spell, and then falls back to the least number
there is.
-/

namespace Kieker

/-- The order index of an event as a receiver reads it. -/
def Entry.orderIndex : Entry → Option ℤ
  | ⟨.registry, _⟩ => none
  | ⟨.record .traceMetadata, _⟩ => none
  | ⟨.record .beforeOperationEvent, (_, _, _, orderIndex, _)⟩ => some (BitVec.toInt orderIndex)
  | ⟨.record .afterOperationEvent, (_, _, _, orderIndex, _)⟩ => some (BitVec.toInt orderIndex)

/-- The order indices of the events of one trace, as they stand among some entries. -/
def readIndices (id : ℤ) (entries : List Entry) (sent : List Logged) : List ℤ :=
  ((entries.filter Entry.isRecord).zip sent).filterMap fun read =>
    if read.2.record.traceId = id then read.1.orderIndex else none

/-- Read from what was offered, the order indices of every trace strictly increase. -/
def IncreasesOnStream (descriptor : ℤ) (calls : List Syscall) (sent : List Logged) : Prop :=
  ∀ entries, Entry.codec.encodeAll entries = offeredTo descriptor calls →
    ∀ id, (readIndices id entries sent).Pairwise (· < ·)

/-- No spell has more than `2 ^ 31` events. -/
def SpellsFit (calls : List PlainCall) : Prop :=
  ∀ front, front <+: calls → ∀ threadId, (spellOf threadId front).events ≤ 2 ^ 31

variable {kernel : Kernel} {start : Library} {hostname : CString} {calls : List PlainCall}
  {next : PlainCall} {journal : Journal} {known : List CString} {id : ℤ}
  {sent built : List Logged}

/-! ### What a receiver reads -/

theorem Logged.orderIndex_entry (table : List CString) (logged : Logged) :
    (logged.entry table).orderIndex = logged.record.orderIndex.map toInt32 := by
  rcases logged with ⟨timestamp, metadata | event | event⟩
  · rfl
  · exact congrArg some (toInt_ofInt32 event.orderIndex)
  · exact congrArg some (toInt_ofInt32 event.orderIndex)

theorem readIndices_eq {entries : List Entry} {table : List CString} (id : ℤ)
    (records : entries.filter Entry.isRecord = sent.map (Logged.entry table)) :
    readIndices id entries sent = (positions id sent).map toInt32 := by
  rw [readIndices, records]
  clear records
  induction sent with
  | nil => rfl
  | cons logged sent ih =>
      have others : positions id (logged :: sent) = positions id [logged] ++ positions id sent :=
        positions_append id [logged] sent
      rw [List.map_cons, List.zip_cons_cons, List.filterMap_cons, ih, others, List.map_append]
      by_cases mine : logged.record.traceId = id
      · cases index : logged.record.orderIndex <;>
          simp [mine, positions, recordsOf, Logged.orderIndex_entry, index]
      · simp [mine, positions, recordsOf]

/-- A receiver reads the numbers that were sent, reduced to 32 bits. -/
theorem increasesOnStream_iff {table : List CString} {descriptor : ℤ} {calls : List Syscall}
    (carries : Carries table descriptor calls sent) : IncreasesOnStream descriptor calls sent ↔
      ∀ id, ((positions id sent).map toInt32).Pairwise (· < ·) := by
  rcases carries with ⟨-, entries, encoded, records⟩
  constructor
  · intro increases id
    rw [← readIndices_eq id records]
    exact increases entries encoded id
  · intro increases others othersEncoded id
    rw [Entry.encodeAll_injective (othersEncoded.trans encoded.symm), readIndices_eq id records]
    exact increases id

/-! ### Numbers below `2 ^ 31` -/

theorem toInt32_half : toInt32 (2 ^ 31) = -2 ^ 31 := by
  rw [toInt32, Int.bmod_def]
  norm_num

/-- Numbers in sequence still increase as 32-bit numbers as long as they have 31 bits. -/
theorem pairwise_toInt32_iff (count : ℕ) :
    (((List.range count).map fun number : ℕ => (number : ℤ)).map toInt32).Pairwise (· < ·) ↔
      count ≤ 2 ^ 31 := by
  rw [List.pairwise_map, List.pairwise_map]
  constructor
  · intro increases
    by_contra tooMany
    have wraps := List.pairwise_iff_getElem.mp increases (2 ^ 31 - 1) (2 ^ 31) (by simp; omega)
      (by simp; omega) (by norm_num)
    rw [List.getElem_range, List.getElem_range] at wraps
    have last : toInt32 ((2 ^ 31 - 1 : ℕ) : ℤ) = 2 ^ 31 - 1 :=
      toInt32_of_bounds (by norm_num) (by norm_num)
    have first : toInt32 ((2 ^ 31 : ℕ) : ℤ) = -2 ^ 31 := toInt32_half
    rw [last, first] at wraps
    norm_num at wraps
  · intro few
    apply List.pairwise_lt_range.imp_of_mem
    intro number other _ other_mem less
    rw [List.mem_range] at other_mem
    rw [toInt32_of_bounds (by omega) (by omega), toInt32_of_bounds (by omega) (by omega)]
    exact Nat.cast_lt.mpr less

/-! ### Runs -/

/-- A call keeps the order of all traces unless it is an event too many. -/
theorem Journal.Adds.increases_iff (adds : Adds calls next sent id built) :
    (∀ id, ((positions id (sent ++ built)).map toInt32).Pairwise (· < ·)) ↔
      (∀ id, ((positions id sent).map toInt32).Pairwise (· < ·)) ∧
        (spellOf next.threadId calls).resume.events + 1 ≤ 2 ^ 31 := by
  have mine := pairwise_toInt32_iff (spellOf next.threadId calls).resume.events
  have more := pairwise_toInt32_iff ((spellOf next.threadId calls).resume.events + 1)
  rw [← adds.numbered] at mine
  rw [← adds.positions_self] at more
  constructor
  · intro increases
    have few := more.mp (increases id)
    refine ⟨?_, few⟩
    intro otherId
    by_cases same : otherId = id
    · subst same
      exact mine.mpr (Nat.le_of_succ_le few)
    · have kept := increases otherId
      rw [positions, adds.other same] at kept
      exact kept
  · rintro ⟨increases, few⟩ otherId
    by_cases same : otherId = id
    · subst same
      exact more.mpr few
    · rw [positions, adds.other same]
      exact increases otherId

theorem spellsFit_concat : SpellsFit (calls ++ [next]) ↔
    SpellsFit calls ∧ (spellOf next.threadId calls).resume.events + 1 ≤ 2 ^ 31 := by
  have last := congrArg Spell.events (spellOf_concat_self calls (Eq.refl next.threadId))
  rw [Spell.events_next] at last
  constructor
  · intro fit
    refine ⟨fun front leads => fit front (leads.trans (List.prefix_append _ _)), ?_⟩
    rw [← last]
    exact fit _ List.prefix_rfl _
  · rintro ⟨fit, few⟩ front leads threadId
    rcases List.prefix_concat_iff.mp leads with rfl | earlier
    · by_cases mine : next.threadId = threadId
      · rw [← mine, last]
        exact few
      · rw [spellOf_concat_other calls mine]
        exact fit calls List.prefix_rfl threadId
    · exact fit front earlier threadId

theorem Journal.increases_iff (idle : start.Idle known hostname)
    (noTraces : start.registry.traces = [])
    (done : Journal.run kernel calls (Journal.start start) = some journal) :
    (∀ id, ((positions id journal.sent).map toInt32).Pairwise (· < ·)) ↔ SpellsFit calls := by
  induction calls using List.reverseRecOn generalizing journal with
  | nil =>
      cases done
      refine ⟨fun _ front leads threadId => ?_, fun _ id => List.Pairwise.nil⟩
      rw [List.prefix_nil.mp leads]
      exact Nat.zero_le _
  | append_singleton calls next ih =>
      rw [Journal.run_concat, Option.bind_eq_some_iff] at done
      rcases done with ⟨middle, earlier, called⟩
      rcases Journal.Kept.of_run idle noTraces earlier with ⟨middleKnown, kept⟩
      rcases Journal.call_eq_some.mp called with ⟨after, -, rfl⟩
      rw [(kept.adds kernel next).increases_iff, ih earlier, spellsFit_concat]

/--
In every run of the plain probes, nested or not, the order indices of every trace,
read from the stream as 32-bit numbers, strictly increase exactly if no spell has
more than `2 ^ 31` events. In a nested run the spells are the outermost operations.
-/
theorem order_increases_iff (idle : start.Idle known hostname)
    (noTraces : start.registry.traces = [])
    (done : Journal.run kernel calls (Journal.start start) = some journal) :
    ∃ made table, journal.library.channel.world.log = start.channel.world.log ++ made ∧
      journal.library.channel.lookup.Holds table ∧
      Carries table start.channel.controller.socket made journal.sent ∧
      (IncreasesOnStream start.channel.controller.socket made journal.sent ↔ SpellsFit calls) := by
  rcases Journal.Kept.of_run idle noTraces done with ⟨finalKnown, kept⟩
  rcases kept.carries with ⟨made, logEq, carries⟩
  refine ⟨made, finalKnown, logEq, kept.idle.ready.holds, carries, ?_⟩
  rw [increasesOnStream_iff carries, Journal.increases_iff idle noTraces done]

/-! ### A long operation -/

/-- A program that calls a function over and over. -/
def callsInLoop (count : ℕ) : List PlainCall :=
  .before 7 (.literal "Main") (.literal "int main()") ::
    (List.replicate count [.before 7 (.literal "Worker") (.literal "void work()"),
      PlainCall.after 7 (.literal "Worker") (.literal "void work()")]).flatten

theorem spellOf_callsInLoop (count : ℕ) :
    spellOf (threadIdOf 7) (callsInLoop count) = ⟨1, 2 * count + 1, false⟩ := by
  induction count with
  | zero => simp [callsInLoop, spellOf, Spell.next, Spell.resume, Spell.none, PlainCall.threadId,
      PlainCall.self]
  | succ count ih =>
      have longer : callsInLoop (count + 1) = callsInLoop count ++
          [.before 7 (.literal "Worker") (.literal "void work()")] ++
          [.after 7 (.literal "Worker") (.literal "void work()")] := by
        simp [callsInLoop, List.replicate_succ']
      have enters : (PlainCall.before 7 (.literal "Worker") (.literal "void work()")).threadId =
          threadIdOf 7 := rfl
      have leaves : (PlainCall.after 7 (.literal "Worker") (.literal "void work()")).threadId =
          threadIdOf 7 := rfl
      rw [longer, spellOf_concat_self _ leaves, spellOf_concat_self _ enters, ih]
      simp [Spell.next, Spell.resume]
      omega

theorem fits_callsInLoop {count : ℕ} {call : PlainCall} (call_mem : call ∈ callsInLoop count) :
    ∀ signature ∈ call.signatures, signature.Fits := by
  have operations : ∀ operation ∈ [PlainCall.before 7 (.literal "Main") (.literal "int main()"),
      .before 7 (.literal "Worker") (.literal "void work()"),
      .after 7 (.literal "Worker") (.literal "void work()")],
      ∀ signature ∈ operation.signatures, signature.Fits := by decide
  apply operations
  rcases List.mem_cons.mp call_mem with rfl | inLoop
  · exact List.mem_cons_self
  · rcases List.mem_flatten.mp inLoop with ⟨turn, turn_mem, isCall⟩
    rw [List.eq_of_mem_replicate turn_mem] at isCall
    exact List.mem_cons_of_mem _ isCall

theorem exists_callsInLoop (count : ℕ) :
    ∃ initialized journal known,
      controllerInitialize Kernel.accepting StartUp.smooth Library.initial = some initialized ∧
      initialized.Idle known (.literal "host") ∧ initialized.registry.traces = [] ∧
      Journal.run Kernel.accepting (callsInLoop count) (Journal.start initialized) =
        some journal := by
  rcases exists_idle Kernel.accepting with ⟨initialized, done, idle, noTraces⟩
  rcases Journal.Kept.exists_run Kernel.accepting idle noTraces (by decide) (callsInLoop count)
    fun _ call_mem => fits_callsInLoop call_mem with ⟨journal, ran⟩
  exact ⟨initialized, journal, _, done, idle, noTraces, ran⟩

theorem events_spellOf_le (threadId : ℤ) (calls : List PlainCall) :
    (spellOf threadId calls).events ≤ calls.length := by
  induction calls using List.reverseRecOn with
  | nil => exact Nat.le_refl _
  | append_singleton calls call ih =>
      rw [List.length_append, List.length_singleton]
      by_cases mine : call.threadId = threadId
      · rw [spellOf_concat_self calls mine, Spell.events_next, Spell.resume]
        split
        · exact Nat.succ_le_succ (Nat.zero_le _)
        · exact Nat.succ_le_succ ih
      · rw [spellOf_concat_other calls mine]
        exact Nat.le_succ_of_le ih

/-- The function is called once. -/
theorem order_increases_once :
    ∃ initialized journal made,
      controllerInitialize Kernel.accepting StartUp.smooth Library.initial = some initialized ∧
      Journal.run Kernel.accepting (callsInLoop 1) (Journal.start initialized) = some journal ∧
      journal.library.channel.world.log = initialized.channel.world.log ++ made ∧
      IncreasesOnStream initialized.channel.controller.socket made journal.sent := by
  rcases exists_callsInLoop 1 with ⟨initialized, journal, known, done, idle, noTraces, ran⟩
  rcases order_increases_iff idle noTraces ran with ⟨made, table, logEq, -, -, increases⟩
  refine ⟨initialized, journal, made, done, ran, logEq, increases.mpr ?_⟩
  intro front leads threadId
  have few : front.length ≤ 3 := leads.length_le
  exact (events_spellOf_le threadId front).trans (few.trans (by norm_num))

/-- The function is called `2 ^ 30` times: the last order index is read as `-2 ^ 31`. -/
theorem order_wraps_in_loop :
    ∃ initialized journal made,
      controllerInitialize Kernel.accepting StartUp.smooth Library.initial = some initialized ∧
      Journal.run Kernel.accepting (callsInLoop (2 ^ 30)) (Journal.start initialized) =
        some journal ∧
      journal.library.channel.world.log = initialized.channel.world.log ++ made ∧
      ¬IncreasesOnStream initialized.channel.controller.socket made journal.sent := by
  rcases exists_callsInLoop (2 ^ 30) with
    ⟨initialized, journal, known, done, idle, noTraces, ran⟩
  rcases Journal.Kept.of_run idle noTraces ran with ⟨finalKnown, kept⟩
  rcases kept.carries with ⟨made, logEq, carries⟩
  refine ⟨initialized, journal, made, done, ran, logEq, ?_⟩
  rw [increasesOnStream_iff carries, Journal.increases_iff idle noTraces ran]
  intro fit
  have tooMany := fit _ List.prefix_rfl (threadIdOf 7)
  rw [spellOf_callsInLoop] at tooMany
  norm_num at tooMany

end Kieker
