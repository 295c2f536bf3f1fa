import Kieker.Hash.Clients
import Kieker.Model.HashedSections
import Kieker.Threads.Sections

/-!
# The hash table stands for the trace map

As long as no two live threads have the same `(int) pthread_self()`, the sections
of `kieker_trace.c` on the hash table do turn by turn what they do on the list of
`LookupMachine`: a thread is given the same object, and the same objects are there.
-/

namespace Kieker

/-! ### Keys -/

/-- The bytes of an `int` tell what it is. -/
theorem toInt32_eq_of_intKey {value other : ℤ} (sameKey : intKey value = intKey other) :
    toInt32 value = toInt32 other := by
  have same := congrArg ByteOrder.ofLittleEndian sameKey
  rw [intKey, intKey, ByteOrder.ofLittleEndian_littleEndian,
    ByteOrder.ofLittleEndian_littleEndian] at same
  simp only [toUInt32] at same
  have remainders : value % ((2 ^ 32 : ℕ) : ℤ) = other % ((2 ^ 32 : ℕ) : ℤ) := by omega
  rw [toInt32, toInt32, ← Int.emod_bmod, remainders, Int.emod_bmod]

theorem toInt32_threadIdOf (self : PthreadSelf) : toInt32 (threadIdOf self) = threadIdOf self := by
  simp only [threadIdOf, toInt32, Int.bmod_bmod]

theorem threadIdOf_eq_of_intKey {self other : PthreadSelf}
    (sameKey : intKey (threadIdOf self) = intKey (threadIdOf other)) :
    threadIdOf self = threadIdOf other := by
  rw [← toInt32_threadIdOf self, ← toInt32_threadIdOf other]
  exact toInt32_eq_of_intKey sameKey

namespace HashedMachine

/-- The element of the hash table that a trace object is. -/
def entryOf (trace : KiekerTrace) : HashEntry where
  address := trace.address
  key := intKey trace.threadId

/-- The hash table stands for the list of a lookup machine. -/
structure Mirrors (hashed : HashedMachine) (machine : LookupMachine) (chained : HashTable) :
    Prop where
  represents : hashed.hash.Represents hashJen hashed.kiekerTraces chained
  order : chained.order = machine.registry.traces.reverse.map entryOf
  inMap : ∀ trace ∈ machine.registry.traces, hashed.object trace.address = some trace
  created : ∀ self data, machine.place self = .created data →
    hashed.object data.address = some data
  present : ∀ address, hashed.hash.Present address ↔ (hashed.object address).isSome
  noOther : ∀ address trace, hashed.object address = some trace →
    trace.address = address ∧ (trace ∈ machine.registry.traces ∨
      ∃ self, machine.place self = .created trace)
  currentId : hashed.currentId = machine.registry.currentId
  allocated : hashed.allocated = machine.registry.allocated
  place : hashed.place = machine.place
  held : hashed.held = machine.held

variable {kernel : Kernel} {leftover : ℕ → UTHashHandle} {live : Set PthreadSelf}
  {machine after : LookupMachine} {hashed : HashedMachine} {chained : HashTable} {fuel : ℕ}
  {self : PthreadSelf}

theorem mirrors_start (currentId : ℤ) : (HashedMachine.start currentId).Mirrors
    (LookupMachine.start currentId) (Chained.initial hashInitialNumBucketsLog2) where
  represents := .empty fun _ => rfl
  order := rfl
  inMap := fun _ inMap => absurd inMap List.not_mem_nil
  created := by simp [LookupMachine.start]
  present := by simp [HashedMachine.start, HashMemory.Present, HashMemory.empty]
  noOther := by simp [HashedMachine.start]
  currentId := rfl
  allocated := rfl
  place := rfl
  held := rfl

/-- A thread that goes elsewhere creates no object any more; the others do what they did. -/
theorem creates_update_iff {place : PthreadSelf → LookupPlace} {next : LookupPlace}
    {thread : PthreadSelf} {data : KiekerTrace} (elsewhere : ∀ data, next ≠ .created data) :
    Function.update place self next thread = .created data ↔
      thread ≠ self ∧ place thread = .created data := by
  by_cases isSelf : thread = self
  · subst isSelf
    simp [elsewhere data]
  · simp [isSelf]

namespace Mirrors

theorem mem_order (mirrors : hashed.Mirrors machine chained) {entry : HashEntry} :
    entry ∈ chained.order ↔ ∃ trace ∈ machine.registry.traces, entryOf trace = entry := by
  rw [mirrors.order, List.mem_map]
  simp only [List.mem_reverse]

theorem mem_addresses (mirrors : hashed.Mirrors machine chained) {address : ℕ} :
    address ∈ addresses chained.order ↔
      ∃ trace ∈ machine.registry.traces, trace.address = address := by
  rw [addresses, List.mem_map]
  constructor
  · rintro ⟨entry, inOrder, rfl⟩
    rcases mirrors.mem_order.mp inOrder with ⟨trace, inMap, rfl⟩
    exact ⟨trace, inMap, rfl⟩
  · rintro ⟨trace, inMap, rfl⟩
    exact ⟨entryOf trace, mirrors.mem_order.mpr ⟨trace, inMap, rfl⟩, rfl⟩

theorem length_order (mirrors : hashed.Mirrors machine chained) :
    chained.order.length = machine.registry.traces.length := by
  rw [mirrors.order, List.length_map, List.length_reverse]

/-- What the table finds for a thread is what the list finds. -/
theorem lookup_eq (mirrors : hashed.Mirrors machine chained)
    (orderly : machine.Orderly live) (self : PthreadSelf) :
    chained.lookup hashJen (intKey (threadIdOf self)) =
      (machine.registry.traceFind (threadIdOf self)).map entryOf := by
  have wellFormed := mirrors.represents.wellFormed
  have sameThread : ∀ trace ∈ machine.registry.traces,
      intKey trace.threadId = intKey (threadIdOf self) → trace.threadId = threadIdOf self := by
    intro trace inMap sameKey
    rcases orderly.owned trace inMap with ⟨owner, -, -, theirs, -⟩
    rw [theirs] at sameKey ⊢
    exact threadIdOf_eq_of_intKey sameKey
  cases looked : chained.lookup hashJen (intKey (threadIdOf self)) with
  | none =>
      have missing : machine.registry.traceFind (threadIdOf self) = none := by
        rw [TraceRegistry.traceFind, List.find?_eq_none]
        intro trace inMap mine
        have isMine : trace.threadId = threadIdOf self := by simpa using mine
        have inOrder := mirrors.mem_order.mpr ⟨trace, inMap, rfl⟩
        exact (Chained.find_eq_none_iff wellFormed).mp looked _ inOrder
          (congrArg intKey isMine)
      rw [missing]
      rfl
  | some entry =>
      rcases Chained.mem_of_find wellFormed looked with ⟨inOrder, sameKey⟩
      rcases mirrors.mem_order.mp inOrder with ⟨trace, inMap, rfl⟩
      have found := orderly.wellFormed.traceFind_of_mem inMap
      rw [sameThread trace inMap sameKey] at found
      rw [found]
      rfl

/-- The section of a lookup. -/
theorem find (mirrors : hashed.Mirrors machine chained) (orderly : machine.Orderly live)
    (enough : machine.registry.traces.length ≤ fuel) (done : machine.find self = some after) :
    ∃ later, hashed.find fuel self = some later ∧ later.Mirrors after chained := by
  have looked := mirrors.represents.find (intKey (threadIdOf self))
    (mirrors.length_order.trans_le enough)
  rw [mirrors.lookup_eq orderly] at looked
  unfold LookupMachine.find at done
  split at done
  case h_1 outside =>
    have place : hashed.place self = .outside := by rw [mirrors.place, outside]
    cases found : machine.registry.traceFind (threadIdOf self) with
    | some data =>
        rw [found, Option.some.injEq] at done
        subst done
        rw [found] at looked
        refine ⟨{ hashed with held := Function.update hashed.held self (some data.address) }, ?_, ?_⟩
        · simp only [HashedMachine.find, place, looked, Option.map_some, Option.bind_eq_bind,
            Option.bind_some]
          rfl
        · exact { mirrors with held := by rw [mirrors.held] }
    | none =>
        rw [found, Option.some.injEq] at done
        subst done
        rw [found] at looked
        refine ⟨{ hashed with place := Function.update hashed.place self .missed }, ?_, ?_⟩
        · simp only [HashedMachine.find, place, looked, Option.map_none, Option.bind_eq_bind,
            Option.bind_some]
        · refine { mirrors with
            created := ?_
            noOther := ?_
            place := by rw [mirrors.place] }
          · intro thread data creates
            exact mirrors.created thread data ((creates_update_iff (by simp)).mp creates).2
          · intro address trace isObject
            rcases mirrors.noOther address trace isObject with ⟨here, inMap | ⟨thread, creates⟩⟩
            · exact ⟨here, Or.inl inMap⟩
            · have notSelf : thread ≠ self := by
                rintro rfl
                rw [outside] at creates
                cases creates
              exact ⟨here, Or.inr ⟨thread, (creates_update_iff (by simp)).mpr ⟨notSelf, creates⟩⟩⟩
  case h_2 => cases done

/-- The statements between the two sections. -/
theorem create (mirrors : hashed.Mirrors machine chained) (orderly : machine.Orderly live)
    (done : machine.create kernel self = some after) :
    ∃ later, hashed.create kernel leftover self = some later ∧ later.Mirrors after chained := by
  unfold LookupMachine.create at done
  split at done
  case h_1 missed =>
    simp only [Option.some.injEq] at done
    subst done
    have place : hashed.place self = .missed := by rw [mirrors.place, missed]
    have unused : ∀ trace ∈ machine.registry.traces, trace.address ≠ hashed.allocated := by
      intro trace inMap
      rw [mirrors.allocated]
      exact (orderly.wellFormed.allocated trace inMap).ne
    have notIn : hashed.allocated ∉ addresses chained.order := by
      intro isIn
      rcases mirrors.mem_addresses.mp isIn with ⟨trace, inMap, same⟩
      exact unused trace inMap same
    -- An object that another thread has created but not added yet is not in the map.
    have notCreated : ∀ thread data, machine.place thread = .created data →
        data.address ≠ hashed.allocated := by
      intro thread data creates
      rw [mirrors.allocated]
      exact (orderly.created thread data creates).2.2.1.ne
    refine ⟨_, by simp only [HashedMachine.create, place]; rfl, ?_⟩
    refine {
      represents := mirrors.represents.malloc notIn _
      order := mirrors.order
      inMap := ?_
      created := ?_
      present := ?_
      noOther := ?_
      currentId := congrArg (· + 1) mirrors.currentId
      allocated := congrArg (· + 1) mirrors.allocated
      place := by rw [mirrors.place, mirrors.allocated, mirrors.currentId]; rfl
      held := mirrors.held }
    · intro trace inMap
      simp only [Function.update_of_ne (unused trace inMap)]
      exact mirrors.inMap trace inMap
    · intro thread data creates
      by_cases isSelf : thread = self
      · subst isSelf
        simp only [Function.update_self, LookupPlace.created.injEq] at creates
        have isNew : data = TraceRegistry.traceCreate kernel hashed.allocated (threadIdOf thread)
            hashed.currentId := by
          rw [← creates, mirrors.allocated, mirrors.currentId]
          rfl
        rw [isNew]
        exact Function.update_self ..
      · simp only [Function.update_of_ne isSelf] at creates
        simp only [Function.update_of_ne (notCreated thread data creates)]
        exact mirrors.created thread data creates
    · intro address
      rw [HashMemory.present_malloc, mirrors.present]
      by_cases isNew : address = hashed.allocated
      · subst isNew
        simp
      · simp [isNew]
    · intro address trace isObject
      by_cases isNew : address = hashed.allocated
      · subst isNew
        simp only [Function.update_self, Option.some.injEq] at isObject
        subst isObject
        refine ⟨rfl, Or.inr ⟨self, ?_⟩⟩
        simp only [Function.update_self, mirrors.allocated, mirrors.currentId]
        rfl
      · simp only [Function.update_of_ne isNew] at isObject
        rcases mirrors.noOther address trace isObject with ⟨here, inMap | ⟨thread, creates⟩⟩
        · exact ⟨here, Or.inl inMap⟩
        · have notSelf : thread ≠ self := by
            rintro rfl
            rw [missed] at creates
            cases creates
          refine ⟨here, Or.inr ⟨thread, ?_⟩⟩
          simp only [Function.update_of_ne notSelf, creates]
  case h_2 => cases done

/-- The section that adds a new object. -/
theorem add (mirrors : hashed.Mirrors machine chained) (orderly : machine.Orderly live)
    (enough : machine.registry.traces.length + 1 ≤ fuel) (done : machine.add self = some after) :
    ∃ later laterChained, hashed.add fuel self = some later ∧
      later.Mirrors after laterChained := by
  unfold LookupMachine.add at done
  split at done
  case h_1 data creates =>
    simp only [Option.some.injEq] at done
    subst done
    have place : hashed.place self = .created data := by rw [mirrors.place, creates]
    rcases orderly.created self data creates with ⟨creator, -, -, new⟩
    have fresh : (entryOf data).address ∉ addresses chained.order := by
      intro isIn
      rcases mirrors.mem_addresses.mp isIn with ⟨trace, inMap, same⟩
      exact new trace inMap same
    -- The object was allocated by an earlier turn, so it is in memory but not in the table.
    have isObject := mirrors.created self data creates
    have present : hashed.hash.Present (entryOf data).address :=
      (mirrors.present _).mpr (Option.isSome_iff_exists.mpr ⟨data, isObject⟩)
    rw [← mirrors.length_order] at enough
    rcases mirrors.represents.add fresh present enough with
      ⟨first, later, added, represents, laterPresent⟩
    simp only [entryOf] at added
    refine ⟨{ hashed with
      kiekerTraces := some first
      hash := later
      place := Function.update hashed.place self .outside
      held := Function.update hashed.held self (some data.address) },
      chained.insert hashJen (entryOf data), ?_, ?_⟩
    · simp only [HashedMachine.add, place, added, Option.bind_eq_bind, Option.bind_some]
    · refine {
        represents := represents
        order := ?_
        inMap := ?_
        created := ?_
        present := fun address => (laterPresent address).trans (mirrors.present address)
        noOther := ?_
        currentId := mirrors.currentId
        allocated := mirrors.allocated
        place := by rw [mirrors.place]
        held := by rw [mirrors.held] }
      · rw [HashMemory.order_insert, mirrors.order, List.reverse_cons, List.map_append]
        rfl
      · intro trace inMap
        rcases List.mem_cons.mp inMap with rfl | old
        · exact isObject
        · exact mirrors.inMap trace old
      · intro thread other otherCreates
        exact mirrors.created thread other ((creates_update_iff (by simp)).mp otherCreates).2
      · intro address trace isOther
        rcases mirrors.noOther address trace isOther with ⟨here, inMap | ⟨thread, traceCreates⟩⟩
        · exact ⟨here, Or.inl (List.mem_cons_of_mem _ inMap)⟩
        · by_cases isSelf : thread = self
          · subst isSelf
            rw [creates, LookupPlace.created.injEq] at traceCreates
            exact ⟨here, Or.inl (traceCreates ▸ List.mem_cons_self)⟩
          · exact ⟨here, Or.inr ⟨thread, (creates_update_iff (by simp)).mpr ⟨isSelf, traceCreates⟩⟩⟩
  case h_2 => cases done

/-- The section that removes an object. -/
theorem remove (mirrors : hashed.Mirrors machine chained) (orderly : machine.Orderly live)
    (done : machine.remove self = some after) :
    ∃ later laterChained, hashed.remove self = some later ∧
      later.Mirrors after laterChained := by
  unfold LookupMachine.remove at done
  split at done
  case h_1 outside =>
    simp only [Option.bind_eq_bind, Option.bind_eq_some_iff, Option.some.injEq] at done
    rcases done with ⟨address, holds, trace, derefs, rfl⟩
    rcases TraceRegistry.mem_of_deref derefs with ⟨inMap, rfl⟩
    have place : hashed.place self = .outside := by rw [mirrors.place, outside]
    have heldHere : hashed.held self = some trace.address := by rw [mirrors.held, holds]
    have inOrder := mirrors.mem_order.mpr ⟨trace, inMap, rfl⟩
    rcases mirrors.represents.delete inOrder with
      ⟨rest, later, deleted, represents, laterPresent⟩
    have laterOrder : (chained.delete hashJen (entryOf trace)).order =
        chained.order.filter fun other => other.address ≠ trace.address :=
      HashMemory.order_delete mirrors.represents.apart inOrder
    have notIn : trace.address ∉ addresses (chained.delete hashJen (entryOf trace)).order := by
      rw [laterOrder]
      intro isIn
      rcases List.mem_map.mp isIn with ⟨entry, isLeft, same⟩
      simpa [entryOf, same] using (List.mem_filter.mp isLeft).2
    refine ⟨{ hashed with
      kiekerTraces := rest
      hash := later.free trace.address
      object := Function.update hashed.object trace.address none
      held := Function.update hashed.held self none },
      chained.delete hashJen (entryOf trace), ?_, ?_⟩
    · have removed : hashDelete hashed.hash hashed.kiekerTraces trace.address = some (rest, later) :=
        deleted
      simp only [HashedMachine.remove, place, heldHere, removed, Option.bind_eq_bind,
        Option.bind_some]
    · refine {
        represents := represents.free notIn
        order := ?_
        inMap := ?_
        created := ?_
        present := ?_
        noOther := ?_
        currentId := mirrors.currentId
        allocated := mirrors.allocated
        place := mirrors.place
        held := by rw [mirrors.held] }
      · rw [laterOrder, mirrors.order, List.filter_map, List.filter_reverse]
        rfl
      · intro other otherInMap
        rcases TraceRegistry.mem_traceRemove.mp otherInMap with ⟨old, different⟩
        simp only [Function.update_of_ne different]
        exact mirrors.inMap other old
      · intro thread data creates
        -- What another thread is about to add survives the removal.
        have different : data.address ≠ trace.address := fun same =>
          (orderly.created thread data creates).2.2.2 trace inMap same.symm
        simp only [Function.update_of_ne different]
        exact mirrors.created thread data creates
      · intro address
        rw [HashMemory.present_free, laterPresent, mirrors.present]
        by_cases isFreed : address = trace.address
        · subst isFreed
          simp
        · simp [isFreed]
      · intro address other isObject
        by_cases isFreed : address = trace.address
        · subst isFreed
          simp at isObject
        · simp only [Function.update_of_ne isFreed] at isObject
          rcases mirrors.noOther address other isObject with ⟨here, otherInMap | creates⟩
          · refine ⟨here, Or.inl (TraceRegistry.mem_traceRemove.mpr ⟨otherInMap, ?_⟩)⟩
            rw [here]
            exact isFreed
          · exact ⟨here, Or.inr creates⟩
  case h_2 => cases done

/-- A turn that the list allows does the same on the table. -/
theorem turn {turn : LookupTurn} (mirrors : hashed.Mirrors machine chained)
    (orderly : machine.Orderly live) (enough : machine.registry.traces.length + 1 ≤ fuel)
    (done : machine.turn kernel turn = some after) :
    ∃ later laterChained, hashed.turn kernel leftover fuel turn = some later ∧
      later.Mirrors after laterChained := by
  cases turn with
  | find self =>
      rcases mirrors.find orderly (Nat.le_of_succ_le enough) done with ⟨later, found, laterMirrors⟩
      exact ⟨later, chained, found, laterMirrors⟩
  | create self =>
      rcases mirrors.create orderly done with ⟨later, created, laterMirrors⟩
      exact ⟨later, chained, created, laterMirrors⟩
  | add self => exact mirrors.add orderly enough done
  | remove self => exact mirrors.remove orderly done

/-- A turn that the list does not allow is not possible on the table either. -/
theorem turn_eq_none {turn : LookupTurn} (mirrors : hashed.Mirrors machine chained)
    (orderly : machine.Orderly live) (stuck : machine.turn kernel turn = none) :
    hashed.turn kernel leftover fuel turn = none := by
  cases turn with
  | find self =>
      simp only [LookupMachine.turn, LookupMachine.find, ← mirrors.place] at stuck
      simp only [HashedMachine.turn, HashedMachine.find]
      revert stuck
      cases hashed.place self with
      | outside =>
          intro stuck
          dsimp only at stuck
          split at stuck <;> cases stuck
      | missed => exact fun _ => rfl
      | created => exact fun _ => rfl
  | create self =>
      simp only [LookupMachine.turn, LookupMachine.create, ← mirrors.place] at stuck
      simp only [HashedMachine.turn, HashedMachine.create]
      revert stuck
      cases hashed.place self with
      | outside => exact fun _ => rfl
      | missed =>
          intro stuck
          cases stuck
      | created => exact fun _ => rfl
  | add self =>
      simp only [LookupMachine.turn, LookupMachine.add, ← mirrors.place] at stuck
      simp only [HashedMachine.turn, HashedMachine.add]
      revert stuck
      cases hashed.place self with
      | outside => exact fun _ => rfl
      | missed => exact fun _ => rfl
      | created =>
          intro stuck
          cases stuck
  | remove self =>
      simp only [LookupMachine.turn, LookupMachine.remove, ← mirrors.place] at stuck
      simp only [HashedMachine.turn, HashedMachine.remove]
      revert stuck
      cases hashed.place self with
      | outside =>
          intro stuck
          simp only [mirrors.held]
          cases holds : machine.held self with
          | none => rfl
          | some address =>
              rcases (orderly.held self address holds).2 with ⟨trace, inMap, rfl, -⟩
              simp [holds, orderly.wellFormed.deref_of_mem inMap] at stuck
      | missed => exact fun _ => rfl
      | created => exact fun _ => rfl

end Mirrors

theorem length_traces_turn {turn : LookupTurn} (done : machine.turn kernel turn = some after) :
    after.registry.traces.length ≤ machine.registry.traces.length + 1 := by
  cases turn with
  | find self =>
      simp only [LookupMachine.turn, LookupMachine.find] at done
      split at done
      · split at done
        · cases done
          exact Nat.le_succ _
        · cases done
          exact Nat.le_succ _
      · cases done
  | create self =>
      simp only [LookupMachine.turn, LookupMachine.create] at done
      split at done
      · cases done
        exact Nat.le_succ _
      · cases done
  | add self =>
      simp only [LookupMachine.turn, LookupMachine.add] at done
      split at done
      · cases done
        exact le_refl _
      · cases done
  | remove self =>
      simp only [LookupMachine.turn, LookupMachine.remove] at done
      split at done
      · simp only [Option.bind_eq_bind, Option.bind_eq_some_iff, Option.some.injEq] at done
        rcases done with ⟨address, -, -, -, rfl⟩
        exact (List.length_filter_le _ _).trans (Nat.le_succ _)
      · cases done

/-- Turns of live threads lead to machines that mirror each other, or to none on both sides. -/
theorem run_mirrors {turns : List LookupTurn} (different : Set.InjOn threadIdOf live)
    (taken : ∀ turn ∈ turns, turn.self ∈ live) (orderly : machine.Orderly live)
    (mirrors : hashed.Mirrors machine chained)
    (enough : machine.registry.traces.length + turns.length ≤ fuel) :
    Option.Rel (fun later after => after.Orderly live ∧ ∃ chained, later.Mirrors after chained ∧
        chained.order.length ≤ fuel)
      (turns.foldlM (HashedMachine.turn kernel leftover fuel) hashed)
      (turns.foldlM (LookupMachine.turn kernel) machine) := by
  induction turns generalizing hashed machine chained with
  | nil => exact .some ⟨orderly, chained, mirrors, mirrors.length_order.trans_le enough⟩
  | cons turn turns ih =>
      rw [List.length_cons] at enough
      rw [List.foldlM_cons, List.foldlM_cons]
      cases done : machine.turn kernel turn with
      | none =>
          rw [mirrors.turn_eq_none orderly done]
          exact .none
      | some after =>
          have selfLive := taken turn List.mem_cons_self
          have room : machine.registry.traces.length + 1 ≤ fuel := by omega
          rcases mirrors.turn orderly room done with ⟨later, laterChained, turned, laterMirrors⟩
          rw [turned]
          have bound := length_traces_turn done
          exact ih (fun other isLater => taken other (List.mem_cons_of_mem _ isLater))
            (orderly.step different ⟨selfLive, done⟩).1 laterMirrors (by omega)

/--
The sections of `kieker_trace.c` on the hash table do what they do on a list, in
every interleaving: a run is possible on both or on neither, threads are given the
same objects, each with its own thread id, no object is lost, and the table passes
its integrity check.
-/
theorem hashed_sections_refine (kernel : Kernel) (leftover : ℕ → UTHashHandle)
    (live : Set PthreadSelf) (different : Set.InjOn threadIdOf live) (currentId : ℤ)
    (turns : List LookupTurn) (taken : ∀ turn ∈ turns, turn.self ∈ live) (fuel : ℕ)
    (enough : turns.length ≤ fuel) :
    Option.Rel (fun hashed machine =>
        hashed.held = machine.held ∧ hashed.place = machine.place ∧
        (∀ self address, machine.held self = some address → ∃ data,
          hashed.object address = some data ∧ machine.registry.deref address = some data ∧
            data.threadId = threadIdOf self) ∧
        (∀ address data, hashed.object address = some data →
          ∃ self, machine.held self = some address ∨ machine.place self = .created data) ∧
        hashFsck fuel hashed.hash hashed.kiekerTraces = some true)
      (turns.foldlM (HashedMachine.turn kernel leftover fuel) (HashedMachine.start currentId))
      (turns.foldlM (LookupMachine.turn kernel) (LookupMachine.start currentId)) := by
  have start : (LookupMachine.start currentId).Orderly live :=
    LookupMachine.Orderly.start live currentId
  have short : (LookupMachine.start currentId).registry.traces.length + turns.length ≤ fuel := by
    simpa [LookupMachine.start, TraceRegistry.initial] using enough
  have run : Option.Rel _ (turns.foldlM (HashedMachine.turn kernel leftover fuel)
      (HashedMachine.start currentId)) _ :=
    run_mirrors different taken start (mirrors_start currentId) short
  revert run
  generalize turns.foldlM (HashedMachine.turn kernel leftover fuel) _ = hashedEnd
  generalize turns.foldlM (LookupMachine.turn kernel) _ = listEnd
  rintro (⟨orderly, chained, mirrors, few⟩ | _)
  · refine .some ⟨mirrors.held, mirrors.place, ?_, ?_, mirrors.represents.hashFsck few⟩
    · intro self address holds
      rcases (orderly.held self address holds).2 with ⟨trace, inMap, rfl, mine⟩
      exact ⟨trace, mirrors.inMap trace inMap, orderly.wellFormed.deref_of_mem inMap, mine⟩
    · intro address data isObject
      rcases mirrors.noOther address data isObject with ⟨rfl, inMap | ⟨self, creates⟩⟩
      · rcases orderly.owned data inMap with ⟨self, -, holds, -⟩
        exact ⟨self, Or.inl holds⟩
      · exact ⟨self, Or.inr creates⟩
  · exact .none

/-- A handle as `malloc` may leave it. -/
def unsetHandle : UTHashHandle :=
  ⟨none, none, none, none, none, [], 0, 0⟩

/-- Two threads look for their traces at the same time. -/
def twoTurns : List LookupTurn :=
  [.find 1, .find 2, .create 1, .create 2, .add 2, .add 1, .remove 2, .find 1]

/-- The run of the two threads is possible. -/
theorem two_hashed_sections_refine :
    (twoTurns.foldlM (HashedMachine.turn .accepting (fun _ => unsetHandle) 8)
      (HashedMachine.start 256)).isSome ∧
    Option.Rel (fun hashed machine =>
        hashed.held = machine.held ∧ hashed.place = machine.place ∧
        (∀ self address, machine.held self = some address → ∃ data,
          hashed.object address = some data ∧ machine.registry.deref address = some data ∧
            data.threadId = threadIdOf self) ∧
        (∀ address data, hashed.object address = some data →
          ∃ self, machine.held self = some address ∨ machine.place self = .created data) ∧
        hashFsck 8 hashed.hash hashed.kiekerTraces = some true)
      (twoTurns.foldlM (HashedMachine.turn .accepting (fun _ => unsetHandle) 8)
        (HashedMachine.start 256))
      (twoTurns.foldlM (LookupMachine.turn .accepting) (LookupMachine.start 256)) := by
  refine ⟨by decide +kernel, hashed_sections_refine .accepting (fun _ => unsetHandle) {1, 2} ?_ 256
    twoTurns ?_ 8 (by decide)⟩
  · intro self isLive other otherLive same
    rcases isLive with rfl | rfl <;> rcases otherLive with rfl | rfl
    · rfl
    · simp [threadIdOf, toInt32] at same
    · simp [threadIdOf, toInt32] at same
    · rfl
  · simp [twoTurns, LookupTurn.self]

end HashedMachine

end Kieker
