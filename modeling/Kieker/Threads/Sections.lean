import Kieker.Channel.Sending
import Kieker.Library.Steps
import Kieker.Model.Sections
import Kieker.Trace.Registry
import Mathlib.Data.Set.Function

/-!
# Threads and their traces

Under any interleaving of the sections, every thread keeps the trace that it
created, as long as no two live threads have the same `(int) pthread_self()`. Two
threads that do share a trace as soon as the second one looks for its own.
-/

namespace Kieker

namespace LookupMachine

variable {kernel : Kernel} {live : Set PthreadSelf} {machine before after : LookupMachine}
  {self other : PthreadSelf} {turn : LookupTurn} {address : ℕ} {data : KiekerTrace}

/-- A turn of a live thread. -/
def Step (kernel : Kernel) (live : Set PthreadSelf) (before : LookupMachine) (turn : LookupTurn)
    (after : LookupMachine) : Prop :=
  turn.self ∈ live ∧ before.turn kernel turn = some after

/-- The turn does not let two threads share a trace or take one away from another. -/
structure KeepsApart (before : LookupMachine) (turn : LookupTurn) (after : LookupMachine) :
    Prop where
  /-- What a thread was given, it created itself. -/
  own : ∀ self address, after.held self = some address → after.creator address = some self
  /-- What a thread was given, no other thread was given. -/
  alone : ∀ self other address,
    after.held self = some address → after.held other = some address → self = other
  /-- What a thread was given before, it is given again. -/
  same : ∀ self address given,
    before.held self = some address → after.held self = some given → given = address
  /-- Only the thread that created an object takes it out of the map. -/
  stays : ∀ trace ∈ before.registry.traces, trace ∉ after.registry.traces →
    ∃ self, turn = .remove self ∧ before.creator trace.address = some self

/-- Every trace in the map belongs to the live thread that created it. -/
structure Orderly (live : Set PthreadSelf) (machine : LookupMachine) : Prop where
  wellFormed : machine.registry.WellFormed
  owned : ∀ trace ∈ machine.registry.traces, ∃ self ∈ live,
    machine.held self = some trace.address ∧ trace.threadId = threadIdOf self ∧
      machine.place self = .outside
  held : ∀ self address, machine.held self = some address →
    machine.creator address = some self ∧
      ∃ trace ∈ machine.registry.traces,
        trace.address = address ∧ trace.threadId = threadIdOf self
  created : ∀ self data, machine.place self = .created data →
    machine.creator data.address = some self ∧ data.threadId = threadIdOf self ∧
      data.address < machine.registry.allocated ∧
        ∀ trace ∈ machine.registry.traces, trace.address ≠ data.address

/-! ### Single turns -/

namespace Orderly

theorem start (live : Set PthreadSelf) (currentId : ℤ) :
    Orderly live (LookupMachine.start currentId) where
  wellFormed := ⟨List.nodup_nil, List.nodup_nil, fun _ inMap => absurd inMap List.not_mem_nil⟩
  owned := fun _ inMap => absurd inMap List.not_mem_nil
  held := by simp [LookupMachine.start]
  created := by simp [LookupMachine.start]

/-- A trace with the id of a live thread is held by that thread, which is not looking for one. -/
theorem owner (orderly : Orderly live machine) (different : Set.InjOn threadIdOf live)
    (selfLive : self ∈ live) {trace : KiekerTrace} (inMap : trace ∈ machine.registry.traces)
    (mine : trace.threadId = threadIdOf self) :
    machine.held self = some trace.address ∧ machine.place self = .outside := by
  rcases orderly.owned trace inMap with ⟨owner, ownerLive, holds, theirs, outside⟩
  have same : owner = self := different ownerLive selfLive (theirs.symm.trans mine)
  subst same
  exact ⟨holds, outside⟩

/-- A thread that holds a trace is not looking for one. -/
theorem outside_of_held (orderly : Orderly live machine) (different : Set.InjOn threadIdOf live)
    (selfLive : self ∈ live) (holds : machine.held self = some address) :
    machine.place self = .outside := by
  rcases (orderly.held self address holds).2 with ⟨trace, inMap, -, mine⟩
  exact (orderly.owner different selfLive inMap mine).2

theorem eq_of_held (orderly : Orderly live machine) (holds : machine.held self = some address)
    (otherHolds : machine.held other = some address) : self = other := by
  have creator := (orderly.held self address holds).1
  rw [(orderly.held other address otherHolds).1] at creator
  exact (Option.some.inj creator).symm

/-- In an orderly state the first two parts of the specification hold. -/
theorem keepsApart (orderly : Orderly live after)
    (same : ∀ self address given,
      before.held self = some address → after.held self = some given → given = address)
    (stays : ∀ trace ∈ before.registry.traces, trace ∉ after.registry.traces →
      ∃ self, turn = .remove self ∧ before.creator trace.address = some self) :
    KeepsApart before turn after where
  own self address holds := (orderly.held self address holds).1
  alone _ _ _ holds otherHolds := orderly.eq_of_held holds otherHolds
  same := same
  stays := stays

/-- A lookup that succeeds gives a thread what it holds already. -/
theorem find (orderly : Orderly live machine) (different : Set.InjOn threadIdOf live)
    (selfLive : self ∈ live) (done : machine.find self = some after) :
    Orderly live after ∧ after.held = machine.held ∧ after.registry = machine.registry := by
  unfold LookupMachine.find at done
  split at done
  case h_1 outside =>
    cases found : machine.registry.traceFind (threadIdOf self) with
    | some data =>
        rcases TraceRegistry.mem_of_traceFind found with ⟨inMap, mine⟩
        rw [found, Option.some.injEq,
          ← (orderly.owner different selfLive inMap mine).1, Function.update_eq_self] at done
        rw [← done]
        exact ⟨orderly, rfl, rfl⟩
    | none =>
        rw [found, Option.some.injEq] at done
        subst done
        refine ⟨⟨orderly.wellFormed, ?_, orderly.held, ?_⟩, rfl, rfl⟩
        · intro trace inMap
          rcases orderly.owned trace inMap with ⟨owner, ownerLive, holds, theirs, outside⟩
          have notSelf : owner ≠ self := by
            rintro rfl
            exact TraceRegistry.threadId_ne_of_traceFind found inMap theirs
          refine ⟨owner, ownerLive, holds, theirs, ?_⟩
          simp only [Function.update_of_ne notSelf, outside]
        · intro thread data creates
          by_cases isSelf : thread = self
          · subst isSelf
            simp at creates
          · simp only [Function.update_of_ne isSelf] at creates
            exact orderly.created thread data creates
  case h_2 => cases done

theorem create (orderly : Orderly live machine)
    (done : machine.create kernel self = some after) :
    Orderly live after ∧ after.held = machine.held ∧
      after.registry.traces = machine.registry.traces := by
  unfold LookupMachine.create at done
  split at done
  case h_1 missed =>
    simp only [Option.some.injEq] at done
    subst done
    have unused : ∀ trace ∈ machine.registry.traces,
        trace.address ≠ machine.registry.allocated :=
      fun trace inMap => (orderly.wellFormed.allocated trace inMap).ne
    refine ⟨⟨?_, ?_, ?_, ?_⟩, rfl, rfl⟩
    · exact ⟨orderly.wellFormed.addresses, orderly.wellFormed.threads, fun trace inMap =>
        (orderly.wellFormed.allocated trace inMap).trans (Nat.lt_succ_self _)⟩
    · intro trace inMap
      rcases orderly.owned trace inMap with ⟨owner, ownerLive, holds, theirs, outside⟩
      have notSelf : owner ≠ self := by
        rintro rfl
        rw [missed] at outside
        cases outside
      refine ⟨owner, ownerLive, holds, theirs, ?_⟩
      simp only [Function.update_of_ne notSelf, outside]
    · intro thread address holds
      rcases orderly.held thread address holds with ⟨creator, trace, inMap, rfl, mine⟩
      refine ⟨?_, trace, inMap, rfl, mine⟩
      simp only [Function.update_of_ne (unused trace inMap), creator]
    · intro thread data creates
      by_cases isSelf : thread = self
      · subst isSelf
        simp only [Function.update_self, LookupPlace.created.injEq] at creates
        subst creates
        refine ⟨Function.update_self .., rfl, Nat.lt_succ_self _, unused⟩
      · simp only [Function.update_of_ne isSelf] at creates
        rcases orderly.created thread data creates with ⟨creator, theirs, below, new⟩
        refine ⟨?_, theirs, below.trans (Nat.lt_succ_self _), new⟩
        simp only [Function.update_of_ne below.ne, creator]
  case h_2 => cases done

/-- An object is added by the thread that created it, for which nothing else is in the map. -/
theorem add (orderly : Orderly live machine) (different : Set.InjOn threadIdOf live)
    (selfLive : self ∈ live) (done : machine.add self = some after) :
    Orderly live after ∧ machine.held self = none ∧
      (∀ other ≠ self, after.held other = machine.held other) ∧
      ∀ trace ∈ machine.registry.traces, trace ∈ after.registry.traces := by
  unfold LookupMachine.add at done
  split at done
  case h_1 data creates =>
    simp only [Option.some.injEq] at done
    subst done
    rcases orderly.created self data creates with ⟨creator, mine, below, new⟩
    have looking : machine.place self ≠ .outside := by
      rw [creates]
      exact fun outside => by cases outside
    refine ⟨⟨?_, ?_, ?_, ?_⟩, ?_, ?_, ?_⟩
    · refine ⟨List.nodup_cons.mpr ⟨?_, orderly.wellFormed.addresses⟩,
        List.nodup_cons.mpr ⟨?_, orderly.wellFormed.threads⟩, ?_⟩
      · intro used
        rcases List.mem_map.mp used with ⟨trace, inMap, same⟩
        exact new trace inMap same
      · intro used
        rcases List.mem_map.mp used with ⟨trace, inMap, same⟩
        exact looking (orderly.owner different selfLive inMap (same.trans mine)).2
      · intro trace inMap
        rcases List.mem_cons.mp inMap with rfl | old
        · exact below
        · exact orderly.wellFormed.allocated trace old
    · intro trace inMap
      rcases List.mem_cons.mp inMap with rfl | old
      · exact ⟨self, selfLive, Function.update_self .., mine, Function.update_self ..⟩
      · rcases orderly.owned trace old with ⟨owner, ownerLive, holds, theirs, outside⟩
        have notSelf : owner ≠ self := by
          rintro rfl
          exact looking outside
        refine ⟨owner, ownerLive, ?_, theirs, ?_⟩
        · simp only [Function.update_of_ne notSelf, holds]
        · simp only [Function.update_of_ne notSelf, outside]
    · intro thread address holds
      by_cases isSelf : thread = self
      · subst isSelf
        simp only [Function.update_self, Option.some.injEq] at holds
        subst holds
        exact ⟨creator, data, List.mem_cons_self, rfl, mine⟩
      · simp only [Function.update_of_ne isSelf] at holds
        rcases orderly.held thread address holds with ⟨theirs, trace, inMap, same⟩
        exact ⟨theirs, trace, List.mem_cons_of_mem _ inMap, same⟩
    · intro thread otherData otherCreates
      by_cases isSelf : thread = self
      · subst isSelf
        simp at otherCreates
      · simp only [Function.update_of_ne isSelf] at otherCreates
        rcases orderly.created thread otherData otherCreates with
          ⟨theirs, otherMine, otherBelow, otherNew⟩
        refine ⟨theirs, otherMine, otherBelow, ?_⟩
        intro trace inMap
        rcases List.mem_cons.mp inMap with rfl | old
        · intro same
          rw [same, theirs] at creator
          exact isSelf (Option.some.inj creator)
        · exact otherNew trace old
    · cases holds : machine.held self with
      | none => rfl
      | some address => exact absurd (orderly.outside_of_held different selfLive holds) looking
    · intro other notSelf
      exact Function.update_of_ne notSelf _ _
    · intro trace inMap
      exact List.mem_cons_of_mem _ inMap
  case h_2 => cases done

/-- A thread removes the object that it created, and no other one. -/
theorem remove (orderly : Orderly live machine) (done : machine.remove self = some after) :
    Orderly live after ∧ after.held self = none ∧
      (∀ other ≠ self, after.held other = machine.held other) ∧
      ∀ trace ∈ machine.registry.traces, trace ∉ after.registry.traces →
        machine.creator trace.address = some self := by
  unfold LookupMachine.remove at done
  split at done
  case h_1 =>
    simp only [Option.bind_eq_bind, Option.bind_eq_some_iff, Option.some.injEq] at done
    rcases done with ⟨address, holds, -, -, rfl⟩
    refine ⟨⟨orderly.wellFormed.traceRemove, ?_, ?_, ?_⟩, Function.update_self .., ?_, ?_⟩
    · intro trace inMap
      rcases TraceRegistry.mem_traceRemove.mp inMap with ⟨old, notRemoved⟩
      rcases orderly.owned trace old with ⟨owner, ownerLive, ownerHolds, theirs, outside⟩
      have notSelf : owner ≠ self := by
        rintro rfl
        rw [holds, Option.some.injEq] at ownerHolds
        exact notRemoved ownerHolds.symm
      refine ⟨owner, ownerLive, ?_, theirs, outside⟩
      simp only [Function.update_of_ne notSelf, ownerHolds]
    · intro thread otherAddress otherHolds
      by_cases isSelf : thread = self
      · subst isSelf
        simp at otherHolds
      · simp only [Function.update_of_ne isSelf] at otherHolds
        rcases orderly.held thread otherAddress otherHolds with ⟨theirs, trace, inMap, rfl, mine⟩
        refine ⟨theirs, trace, TraceRegistry.mem_traceRemove.mpr ⟨inMap, ?_⟩, rfl, mine⟩
        intro removed
        rw [← removed] at holds
        exact isSelf (orderly.eq_of_held otherHolds holds)
    · intro thread data creates
      rcases orderly.created thread data creates with ⟨theirs, mine, below, new⟩
      exact ⟨theirs, mine, below, fun trace inMap =>
        new trace (TraceRegistry.mem_traceRemove.mp inMap).1⟩
    · intro other notSelf
      exact Function.update_of_ne notSelf _ _
    · intro trace inMap gone
      have removed : trace.address = address := by
        by_contra kept
        exact gone (TraceRegistry.mem_traceRemove.mpr ⟨inMap, kept⟩)
      rw [removed]
      exact (orderly.held self address holds).1
  case h_2 => cases done

/-! ### Runs -/

/-- Every turn of a live thread keeps the order, and keeps the threads apart. -/
theorem step (orderly : Orderly live before) (different : Set.InjOn threadIdOf live)
    (taken : Step kernel live before turn after) :
    Orderly live after ∧ KeepsApart before turn after := by
  rcases taken with ⟨selfLive, done⟩
  cases turn with
  | find self =>
      rcases orderly.find different selfLive done with ⟨orderlyAfter, held, registry⟩
      refine ⟨orderlyAfter, orderlyAfter.keepsApart ?_ ?_⟩
      · intro thread address given holds gives
        rw [held, holds] at gives
        exact (Option.some.inj gives).symm
      · intro trace inMap gone
        rw [registry] at gone
        exact absurd inMap gone
  | create self =>
      rcases orderly.create done with ⟨orderlyAfter, held, traces⟩
      refine ⟨orderlyAfter, orderlyAfter.keepsApart ?_ ?_⟩
      · intro thread address given holds gives
        rw [held, holds] at gives
        exact (Option.some.inj gives).symm
      · intro trace inMap gone
        rw [traces] at gone
        exact absurd inMap gone
  | add self =>
      rcases orderly.add different selfLive done with ⟨orderlyAfter, heldNothing, others, kept⟩
      refine ⟨orderlyAfter, orderlyAfter.keepsApart ?_ ?_⟩
      · intro thread address given holds gives
        have notSelf : thread ≠ self := by
          rintro rfl
          cases heldNothing.symm.trans holds
        rw [others thread notSelf, holds] at gives
        exact (Option.some.inj gives).symm
      · intro trace inMap gone
        exact absurd (kept trace inMap) gone
  | remove self =>
      rcases orderly.remove done with ⟨orderlyAfter, holdsNothing, others, owner⟩
      refine ⟨orderlyAfter, orderlyAfter.keepsApart ?_ ?_⟩
      · intro thread address given holds gives
        have notSelf : thread ≠ self := by
          rintro rfl
          cases holdsNothing.symm.trans gives
        rw [others thread notSelf, holds] at gives
        exact (Option.some.inj gives).symm
      · intro trace inMap gone
        exact ⟨self, rfl, owner trace inMap gone⟩

theorem of_run {turns : List LookupTurn} {currentId : ℤ} (different : Set.InjOn threadIdOf live)
    (run : Steps (Step kernel live) (LookupMachine.start currentId) turns machine) :
    Orderly live machine := by
  refine run.invariant ?_ (start live currentId)
  intro before turn after orderly taken
  exact (orderly.step different taken).1

end Orderly

/-! ### A thread alone -/

theorem find_of_some (outside : machine.place self = .outside)
    (found : machine.registry.traceFind (threadIdOf self) = some data) :
    machine.find self =
      some { machine with held := Function.update machine.held self (some data.address) } := by
  simp only [find, outside, found]

theorem find_of_none (outside : machine.place self = .outside)
    (missing : machine.registry.traceFind (threadIdOf self) = none) :
    machine.find self =
      some { machine with place := Function.update machine.place self .missed } := by
  simp only [find, outside, missing]

theorem create_of_missed (kernel : Kernel) (missed : machine.place self = .missed) :
    machine.create kernel self = some { machine with
      registry := { machine.registry with
        currentId := machine.registry.currentId + 1
        allocated := machine.registry.allocated + 1 }
      place := Function.update machine.place self (.created
        (TraceRegistry.traceCreate kernel machine.registry.allocated (threadIdOf self)
          machine.registry.currentId))
      creator := Function.update machine.creator machine.registry.allocated (some self) } := by
  simp only [create, missed]
  rfl

theorem add_of_created (created : machine.place self = .created data) :
    machine.add self = some { machine with
      registry := { machine.registry with traces := data :: machine.registry.traces }
      place := Function.update machine.place self .outside
      held := Function.update machine.held self (some data.address) } := by
  simp only [add, created]

/-- The sections of one lookup, with nothing in between, are `kieker_trace_get` as one step. -/
theorem get_alone (kernel : Kernel) (selfLive : self ∈ live)
    (outside : machine.place self = .outside) :
    ∃ turns after, Steps (Step kernel live) machine turns after ∧
      after.registry = (machine.registry.traceGet kernel self).2 ∧
      after.held =
        Function.update machine.held self (some (machine.registry.traceGet kernel self).1) ∧
      after.place = machine.place := by
  cases found : machine.registry.traceFind (threadIdOf self) with
  | some data =>
      refine ⟨[.find self], { machine with held := _ },
        .single ⟨selfLive, find_of_some outside found⟩, ?_⟩
      simp [TraceRegistry.traceGet_eq, TraceRegistry.current, found]
  | none =>
      refine ⟨[.find self, .create self, .add self], _,
        .snoc (.snoc (.single ⟨selfLive, find_of_none outside found⟩)
          ⟨selfLive, create_of_missed kernel (Function.update_self ..)⟩)
          ⟨selfLive, add_of_created (Function.update_self ..)⟩, ?_⟩
      simp [TraceRegistry.traceGet, found, TraceRegistry.traceGetNextId, ← outside,
        TraceRegistry.traceCreate]

/-- The second of two threads with one id is given what the first one created. -/
theorem find_of_same_id (kernel : Kernel) (currentId : ℤ) (selfLive : self ∈ live)
    (otherLive : other ∈ live) (sameId : threadIdOf other = threadIdOf self)
    (different : other ≠ self) :
    ∃ turns before after address,
      Steps (Step kernel live) (start currentId) turns before ∧
      Step kernel live before (.find other) after ∧
      after.held self = some address ∧ after.held other = some address := by
  have atStart : (start currentId).place self = .outside := rfl
  rcases get_alone kernel selfLive atStart with
    ⟨turns, before, run, registry, held, place⟩
  have outside : before.place other = .outside := by
    rw [place]
    rfl
  have found : before.registry.traceFind (threadIdOf other) = some (TraceRegistry.traceCreate
      kernel 0 (threadIdOf self) currentId) := by
    rw [registry, sameId]
    simp [TraceRegistry.traceGet, start, TraceRegistry.initial, TraceRegistry.traceFind,
      TraceRegistry.traceGetNextId, TraceRegistry.traceCreate]
  refine ⟨turns, before, { before with held := _ }, 0, run,
    ⟨otherLive, find_of_some outside found⟩, ?_, ?_⟩
  · simp only [Function.update_of_ne (Ne.symm different), held, Function.update_self]
    rfl
  · exact Function.update_self ..

end LookupMachine

/--
Whatever the live threads do in whatever order, they never share a trace, exactly
if the thread ids `(int) pthread_self()` of the live threads are different.
-/
theorem traces_never_shared_iff (kernel : Kernel) (live : Set PthreadSelf) (currentId : ℤ) :
    (∀ turns before turn after,
      Steps (LookupMachine.Step kernel live) (.start currentId) turns before →
        LookupMachine.Step kernel live before turn after →
          LookupMachine.KeepsApart before turn after) ↔
      Set.InjOn threadIdOf live := by
  constructor
  · intro keepsApart self selfLive other otherLive sameId
    by_contra different
    rcases LookupMachine.find_of_same_id kernel currentId selfLive otherLive sameId.symm
      (Ne.symm different) with ⟨turns, before, after, address, run, last, holds, otherHolds⟩
    exact different
      ((keepsApart turns before _ after run last).alone self other address holds otherHolds)
  · intro different turns before turn after run last
    exact ((LookupMachine.Orderly.of_run different run).step different last).2

/-- Two threads whose `pthread_self()` differ in the high half only have one trace. -/
theorem same_low_half_share_trace :
    ∃ turns before after,
      Steps (LookupMachine.Step Kernel.accepting {0x7f0100000700, 0x7f0200000700}) (.start 0)
        turns before ∧
      LookupMachine.Step Kernel.accepting {0x7f0100000700, 0x7f0200000700} before
        (.find 0x7f0200000700) after ∧
      ¬LookupMachine.KeepsApart before (.find 0x7f0200000700) after := by
  have sameId : threadIdOf 0x7f0200000700 = threadIdOf 0x7f0100000700 := by
    simp [threadIdOf, toInt32]
  have selfLive : 0x7f0100000700 ∈ ({0x7f0100000700, 0x7f0200000700} : Set PthreadSelf) :=
    Or.inl rfl
  rcases LookupMachine.find_of_same_id Kernel.accepting 0 selfLive (Or.inr rfl) sameId
    (by decide) with ⟨turns, before, after, address, run, last, holds, otherHolds⟩
  refine ⟨turns, before, after, run, last, ?_⟩
  intro keepsApart
  exact absurd (keepsApart.alone _ _ address holds otherHolds) (by decide)

end Kieker
