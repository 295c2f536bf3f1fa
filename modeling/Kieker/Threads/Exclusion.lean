import Kieker.Channel.Uses
import Kieker.Library.Steps
import Kieker.Model.Adaptive
import Kieker.Threads.Drafts
import Mathlib.Data.Fintype.Basic

/-!
# Threads in the shared buffer

All calls build their records from the front of the one buffer. As long as no
thread serialises while another one is between its first serialisation and its
send, what a thread sends is what it has serialised itself. Nothing in the probes
makes a thread wait for that: two calls that enter an operation at the same time
overwrite each other's records.
-/

namespace Kieker

namespace Machine

variable {Thread : Type} [DecidableEq Thread] {kernel : Kernel} {library : Library}
  {machine after : Machine Thread} {known : List CString} {hostname : CString}
  {thread : Thread} {turn : Turn Thread}

/-- A turn that serialises a value is taken while no other thread is drafting. -/
def Exclusive (machine : Machine Thread) : Turn Thread → Prop
  | .begin _ _ => True
  | .resume thread => ∀ locals ∈ machine.running thread, locals.pending ≠ [] →
      ∀ other ≠ thread, ∀ theirs ∈ machine.running other, ¬theirs.IsDrafting

instance [Fintype Thread] (machine : Machine Thread) (turn : Turn Thread) :
    Decidable (machine.Exclusive turn) :=
  match turn with
  | .begin _ _ => isTrue trivial
  | .resume thread => inferInstanceAs (Decidable (∀ locals ∈ machine.running thread,
      locals.pending ≠ [] → ∀ other ≠ thread, ∀ theirs ∈ machine.running other,
        ¬theirs.IsDrafting))

/--
A turn that sends offers what the call has serialised, which are complete records,
and every byte of it was stored by the thread that sends.
-/
def SendsOwn (before : Machine Thread) (turn : Turn Thread) (after : Machine Thread) : Prop :=
  ∀ thread locals leaves, turn = .resume thread → before.running thread = some locals →
    locals.pending = [] → locals.stage = .send leaves →
      (∃ result, after.library.channel.world.log = before.library.channel.world.log ++
        [.write before.library.channel.controller.socket locals.written result]) ∧
      (∃ entries, Entry.codec.encodeAll entries = locals.written ∧
        ∀ entry ∈ entries, entry.isRecord = true) ∧
      ∀ index < locals.position, before.author index = some thread

/-- A thread that is drafting finds its draft at the front of the buffer, as it stored it. -/
def OwnsFront (machine : Machine Thread) (thread : Thread) (locals : ProbeLocals) : Prop :=
  locals.InBuffer machine.library ∧ ∀ index < locals.position, machine.author index = some thread

/-- The drafts of different threads do not mix. -/
structure Separated (machine : Machine Thread) (known : List CString) (hostname : CString) :
    Prop where
  idle : machine.library.Idle known hostname
  drafted : ∀ thread, ∀ locals ∈ machine.running thread, locals.Drafted known
  front : ∀ thread, ∀ locals ∈ machine.running thread, locals.IsDrafting →
    machine.OwnsFront thread locals

omit [DecidableEq Thread] in
theorem separated_idle (idle : library.Idle known hostname) :
    (Machine.idle library : Machine Thread).Separated known hostname where
  idle := idle
  drafted := by simp [Machine.idle]
  front := by simp [Machine.idle]

theorem turn_begin {call : PlainCall}
    (done : machine.turn kernel (.begin thread call) = some after) :
    after.library = (call.begin kernel machine.library).1 ∧
      after.running =
        Function.update machine.running thread (some (call.begin kernel machine.library).2) ∧
      after.author = machine.author := by
  cases running : machine.running thread with
  | some locals => simp [Machine.turn, running] at done
  | none =>
      simp only [Machine.turn, running, Option.some.injEq] at done
      subst done
      exact ⟨rfl, rfl, rfl⟩

theorem turn_resume {locals : ProbeLocals} (running : machine.running thread = some locals)
    (done : machine.turn kernel (.resume thread) = some after) :
    ∃ reached, locals.resume kernel machine.library = some (after.library, reached) ∧
      after.running = Function.update machine.running thread reached ∧
      ∀ index, after.author index =
        if locals.position ≤ index ∧
            index < (reached.map ProbeLocals.position).getD locals.position then some thread
        else machine.author index := by
  simp only [Machine.turn, running, Option.bind_eq_bind, Option.bind_some,
    Option.bind_eq_some_iff, Option.some.injEq] at done
  rcases done with ⟨⟨library, reached⟩, resumed, rfl⟩
  exact ⟨reached, resumed, rfl, fun _ => rfl⟩

namespace Separated

/-- A turn of one thread keeps the drafts apart if it does so for that thread and for the others. -/
theorem of_update (idle : after.library.Idle known hostname) {reached : Option ProbeLocals}
    (running : after.running = Function.update machine.running thread reached)
    (own : ∀ next ∈ reached, next.Drafted known ∧
      (next.IsDrafting → after.OwnsFront thread next))
    (others : ∀ other ≠ thread, ∀ theirs ∈ machine.running other, theirs.Drafted known ∧
      (theirs.IsDrafting → after.OwnsFront other theirs)) : after.Separated known hostname := by
  have all : ∀ other, ∀ theirs ∈ after.running other, theirs.Drafted known ∧
      (theirs.IsDrafting → after.OwnsFront other theirs) := by
    rw [running]
    exact (Function.forall_update_iff machine.running fun other state => ∀ theirs ∈ state,
      theirs.Drafted known ∧ (theirs.IsDrafting → after.OwnsFront other theirs)).mpr ⟨own, others⟩
  exact ⟨idle, fun other theirs running => (all other theirs running).1,
    fun other theirs running => (all other theirs running).2⟩

omit [DecidableEq Thread] in
/-- A thread with bytes in the buffer to come or to send has its draft there. -/
theorem ownsFront (separated : machine.Separated known hostname) {locals : ProbeLocals}
    (running : machine.running thread = some locals) (notReleased : locals.stage ≠ .release) :
    machine.OwnsFront thread locals := by
  by_cases start : locals.position = 0
  · refine ⟨(separated.drafted thread locals running).inBuffer separated.idle start, ?_⟩
    intro index below
    omega
  · exact separated.front thread locals running ⟨start, notReleased⟩

/-- A call that begins has no draft yet. -/
theorem begin (separated : machine.Separated known hostname) {call : PlainCall}
    (done : machine.turn kernel (.begin thread call) = some after) :
    after.Separated known hostname := by
  rcases turn_begin done with ⟨afterLibrary, afterRunning, afterAuthor⟩
  rcases ProbeLocals.begin_eq kernel call separated.idle with
    ⟨idle, sameChannel, drafted, notDrafting⟩
  rw [← afterLibrary] at idle sameChannel
  refine of_update idle afterRunning ?_ ?_
  · rintro next ⟨⟩
    exact ⟨drafted, fun drafting => absurd drafting notDrafting⟩
  · intro other _ theirs running
    refine ⟨separated.drafted other theirs running, ?_⟩
    rw [OwnsFront, ProbeLocals.InBuffer, sameChannel, afterAuthor]
    exact separated.front other theirs running

/-- A thread that serialises while no other one is drafting is the only one that is. -/
theorem serialize (separated : machine.Separated known hostname) {locals : ProbeLocals}
    {value : Pending} {rest : List Pending} (running : machine.running thread = some locals)
    (pending : locals.pending = value :: rest) (exclusive : machine.Exclusive (.resume thread))
    (done : machine.turn kernel (.resume thread) = some after) :
    ∃ later, after.Separated later hostname := by
  have drafted := separated.drafted thread locals running
  have alone := exclusive locals running (by simp [pending])
  have notReleased : locals.stage ≠ .release := by
    intro released
    rw [drafted.released released] at pending
    cases pending
  rcases separated.ownsFront running notReleased with ⟨inBuffer, own⟩
  rcases turn_resume running done with ⟨reached, resumed, afterRunning, afterAuthor⟩
  rw [ProbeLocals.resume, pending] at resumed
  rcases ProbeLocals.serialize_eq_some separated.idle drafted pending resumed with
    ⟨next, later, rfl, grows, idle, nextDrafted, front⟩
  refine ⟨later, of_update idle afterRunning ?_ ?_⟩
  · rintro next ⟨⟩
    refine ⟨nextDrafted, fun _ => ⟨front inBuffer, ?_⟩⟩
    intro index below
    rw [afterAuthor]
    by_cases old : index < locals.position
    · rw [if_neg (by omega)]
      exact own index old
    · exact if_pos ⟨not_lt.mp old, below⟩
  · intro other different theirs theirsRunning
    refine ⟨(separated.drafted other theirs theirsRunning).mono grows, ?_⟩
    intro drafting
    exact absurd drafting (alone other different theirs theirsRunning)

/-- A turn that serialises nothing leaves the buffer to the threads that are drafting. -/
theorem proceed (separated : machine.Separated known hostname) {locals : ProbeLocals}
    (running : machine.running thread = some locals) (nothing : locals.pending = [])
    (done : machine.turn kernel (.resume thread) = some after) :
    after.Separated known hostname := by
  have drafted := separated.drafted thread locals running
  rcases turn_resume running done with ⟨reached, resumed, afterRunning, afterAuthor⟩
  rw [ProbeLocals.resume, nothing] at resumed
  have proceeds := ProbeLocals.proceed_eq_some separated.idle drafted nothing resumed
  have sameAuthor : after.author = machine.author := by
    funext index
    rw [afterAuthor, if_neg]
    cases reached with
    | none => simp
    | some next => simp [(proceeds.next next rfl).1]
  refine of_update proceeds.idle afterRunning ?_ ?_
  · intro next isReached
    rcases proceeds.next next isReached with ⟨position, written, nextDrafted, wasDrafting⟩
    refine ⟨nextDrafted, fun drafting => ?_⟩
    rw [OwnsFront, ProbeLocals.InBuffer, sameAuthor, proceeds.buffer, position, written]
    exact separated.front thread locals running (wasDrafting drafting)
  · intro other _ theirs theirsRunning
    refine ⟨separated.drafted other theirs theirsRunning, ?_⟩
    rw [OwnsFront, ProbeLocals.InBuffer, sameAuthor, proceeds.buffer]
    exact separated.front other theirs theirsRunning

theorem step (separated : machine.Separated known hostname) (exclusive : machine.Exclusive turn)
    (done : machine.turn kernel turn = some after) : ∃ later, after.Separated later hostname := by
  cases turn with
  | begin thread call => exact ⟨known, separated.begin done⟩
  | resume thread =>
      cases running : machine.running thread with
      | none => simp [Machine.turn, running] at done
      | some locals =>
          cases pending : locals.pending with
          | nil => exact ⟨known, separated.proceed running pending done⟩
          | cons value rest => exact separated.serialize running pending exclusive done

/-- While the drafts do not mix, a turn that sends offers what its thread has serialised. -/
theorem sendsOwn (separated : machine.Separated known hostname)
    (done : machine.turn kernel turn = some after) : machine.SendsOwn turn after := by
  rintro thread locals leaves rfl running nothing stage
  have drafted := separated.drafted thread locals running
  rcases separated.ownsFront running (by simp [stage]) with ⟨⟨block, allocated, inFront⟩, own⟩
  rcases turn_resume running done with ⟨reached, resumed, -, -⟩
  simp only [ProbeLocals.resume, nothing, ProbeLocals.proceed, stage, Option.bind_eq_bind,
    Option.bind_eq_some_iff, Option.some.injEq, Prod.mk.injEq] at resumed
  rcases resumed with ⟨channel, sends, sentLibrary, -⟩
  rcases controllerSend_eq_some sends with ⟨sent, sentEq, -, rfl⟩
  rw [allocated, Option.some.injEq] at sentEq
  have logEq : after.library.channel.world.log = kernel.offer
      machine.library.channel.controller.socket machine.library.channel.world.log
      locals.written := by
    rw [← sentLibrary, ← inFront, sentEq, Channel.world_transmit]
  exact ⟨⟨_, logEq⟩, drafted.entries nothing, own⟩

end Separated

/--
If threads serialise only while no other thread is drafting, every turn that sends
offers exactly the complete records that its call has serialised.
-/
theorem exclusive_turns_send_own {schedule : List (Turn Thread)}
    (idle : library.Idle known hostname)
    (run : Steps (fun before turn after =>
      before.Exclusive turn ∧ before.turn kernel turn = some after)
      (Machine.idle library) schedule machine) :
    Steps (fun before turn after =>
      before.turn kernel turn = some after ∧ before.SendsOwn turn after)
      (Machine.idle library) schedule machine := by
  have kept : (∃ later, machine.Separated later hostname) ∧
      Steps (fun before turn after =>
        before.turn kernel turn = some after ∧ before.SendsOwn turn after)
        (Machine.idle library) schedule machine := by
    induction run with
    | nil => exact ⟨⟨known, separated_idle idle⟩, .nil _⟩
    | snoc run last ih =>
        rcases ih with ⟨⟨later, separated⟩, sends⟩
        exact ⟨separated.step last.1 last.2, sends.snoc ⟨last.2, separated.sendsOwn last.2⟩⟩
  exact kept.2

/-! ### Two threads that enter an operation -/

/-- A library with an open connection, nothing in its table, and no traces. -/
def unusedLibrary : Library where
  channel := unusedChannel
  registry := TraceRegistry.initial
  filter := AdaptiveFilter.initial

theorem idle_unusedLibrary : unusedLibrary.Idle [] (.literal "host") where
  ready := ⟨serves_unusedChannel, _, rfl, rfl⟩
  named := rfl
  wellFormed := TraceRegistry.wellFormed_initial

/-- A thread enters the main function. -/
def enterMain (self : PthreadSelf) : PlainCall :=
  .before self (.literal "Main") (.literal "int main()")

/-- Both threads look for their traces, and then one after the other sends its records. -/
def oneAfterTheOther : List (Turn Bool) :=
  .begin false (enterMain 1) :: .begin true (enterMain 2) ::
    List.replicate 19 (.resume false) ++ List.replicate 19 (.resume true)

theorem one_after_the_other_sends_own :
    ∃ machine, Steps (fun before turn after =>
      before.turn Kernel.accepting turn = some after ∧ before.SendsOwn turn after)
      (Machine.idle unusedLibrary) oneAfterTheOther machine := by
  have ran : (oneAfterTheOther.foldlM (fun (before : Machine Bool) turn =>
      if before.Exclusive turn then before.turn Kernel.accepting turn else none)
      (Machine.idle unusedLibrary)).isSome = true := by decide +kernel
  rcases Option.isSome_iff_exists.mp ran with ⟨machine, done⟩
  refine ⟨machine, exclusive_turns_send_own idle_unusedLibrary ((Steps.of_foldlM done).mono ?_)⟩
  intro before turn after stepped
  split at stepped
  · exact ⟨by assumption, stepped⟩
  · cases stepped

/--
One thread has serialised its records but not sent them yet, when the other one
serialises the beginning of its own.
-/
def overlapping : List (Turn Bool) :=
  .begin false (enterMain 1) :: List.replicate 18 (.resume false) ++
    .begin true (enterMain 2) :: List.replicate 4 (.resume true)

/-- The first thread then sends the trace id of the second one. -/
theorem overlapping_threads_mix_records :
    ∃ before after, Steps (fun before turn after => before.turn Kernel.accepting turn = some after)
        (Machine.idle unusedLibrary) overlapping before ∧
      before.turn Kernel.accepting (.resume false) = some after ∧
      ¬before.SendsOwn (.resume false) after := by
  have ran : ((Machine.turns Kernel.accepting (Machine.idle unusedLibrary) overlapping).bind
      fun before => (before.running false).bind fun locals =>
        (before.turn Kernel.accepting (.resume false)).map fun after =>
          (locals.pending, locals.stage, before.library.channel.controller.socket,
            decide (offeredTo 3 after.library.channel.world.log =
              offeredTo 3 before.library.channel.world.log ++ locals.written))) =
      some ([], .send false, 3, false) := by decide +kernel
  simp only [Option.bind_eq_some_iff, Option.map_eq_some_iff, Prod.mk.injEq,
    decide_eq_false_iff_not] at ran
  rcases ran with ⟨before, done, locals, running, after, sends, nothing, stage, socket,
    differs⟩
  refine ⟨before, after, Steps.of_foldlM done, sends, ?_⟩
  intro own
  rcases own false locals false rfl running nothing stage with ⟨⟨result, logEq⟩, -, -⟩
  apply differs
  rw [logEq, offeredTo_append, socket]
  simp [offeredTo]

end Machine

end Kieker
