import Kieker.Connection.Failures
import Kieker.Probes.Plain
import Kieker.Wire.Offers

/-!
# Short writes

`kieker_controller_send` is to send all data in the buffer, and
`kieker_controller_send_string` a whole registry entry, but both only tell `-1`
from all other results of `write`. The stream stays readable exactly as long as
no count stops inside an entry, or nothing is accepted from then on.
-/

namespace Kieker

/-- Between two lengths of the log only offers were made on a descriptor, namely these. -/
structure OffersOnly (descriptor : ℤ) (before after : List Syscall) (offers : List Offer) :
    Prop where
  log : after = before ++ offers.map (Offer.call descriptor)
  bounded : ∀ offer ∈ offers, offer.result ≤ (Entry.codec.encodeAll offer.entries).length

namespace OffersOnly

variable {kernel : Kernel} {descriptor : ℤ} {before middle after : List Syscall}
  {offers more : List Offer}

theorem refl (descriptor : ℤ) (log : List Syscall) : OffersOnly descriptor log log [] :=
  ⟨(List.append_nil log).symm, by simp⟩

theorem trans (first : OffersOnly descriptor before middle offers)
    (second : OffersOnly descriptor middle after more) :
    OffersOnly descriptor before after (offers ++ more) := by
  refine ⟨?_, ?_⟩
  · rw [second.log, first.log, List.append_assoc, List.map_append]
  · intro offer offer_mem
    rcases List.mem_append.mp offer_mem with here | later
    · exact first.bounded offer here
    · exact second.bounded offer later

/-- Pieces that are entries are offers of these entries, as the kernel answers them. -/
theorem of_offerAll {pieces : List (List UInt8)} {offered : List (List Entry)}
    (log : after = kernel.offerAll descriptor before pieces)
    (encoded : offered.map Entry.codec.encodeAll = pieces) :
    OffersOnly descriptor before after (kernel.answers descriptor before.length offered) where
  log := by rw [log, Kernel.offerAll_eq_append, Kernel.calls_answers, encoded]
  bounded := Kernel.bounded_answers

end OffersOnly

variable {kernel : Kernel} {startUp : StartUp} {library initialized final after : Library}
  {known : List CString} {hostname : CString} {calls : List PlainCall} {descriptor : ℤ}

theorem Library.Initializes.offersOnly
    (initializes : library.Initializes kernel startUp hostname after known) :
    OffersOnly startUp.socketResult
      (library.channel.world.log ++ (startUp.openCalls ++ startUp.closeCalls))
      after.channel.world.log
      (kernel.answers startUp.socketResult
        (library.channel.world.log ++ (startUp.openCalls ++ startUp.closeCalls)).length
        ((registryEntries known eventTypes).map fun entry => [entry])) := by
  apply OffersOnly.of_offerAll initializes.log
  rw [map_encodeAll_singletons, map_encode_registryEntries (usable_eventTypes known)]

theorem PlainCall.offersOnly {call : PlainCall} (idle : library.Idle known hostname)
    (done : call.run kernel library = some after) :
    OffersOnly library.channel.controller.socket library.channel.world.log
      after.channel.world.log
      (kernel.answers library.channel.controller.socket library.channel.world.log.length
        ((call.emission kernel hostname library).offered known)) := by
  have emits := (call.calls idle done).emits
  exact .of_offerAll emits.log (Emission.map_encodeAll_offered emits.usable)

/-- Plain probe calls, in any order, only offer entries. -/
theorem PlainCall.runAll_offersOnly (idle : library.Idle known hostname)
    (ran : runAll kernel calls library = some final) :
    ∃ laterKnown, final.Idle laterKnown hostname ∧
      final.channel.controller.socket = library.channel.controller.socket ∧
      ∃ offers, OffersOnly library.channel.controller.socket library.channel.world.log
        final.channel.world.log offers := by
  induction calls using List.reverseRecOn generalizing final with
  | nil =>
      have same : library = final := Option.some.inj ran
      subst same
      exact ⟨known, idle, rfl, [], .refl _ _⟩
  | append_singleton calls last ih =>
      rw [runAll_concat, Option.bind_eq_some_iff] at ran
      rcases ran with ⟨middle, ran, done⟩
      rcases ih ran with ⟨middleKnown, middleIdle, onSocket, offers, offered⟩
      have emits := (last.calls middleIdle done).emits
      have more := last.offersOnly middleIdle done
      rw [onSocket] at more
      exact ⟨_, last.idle middleIdle done, emits.socket.trans onSocket, _, offered.trans more⟩

/-- After an initialisation and plain probe calls there is one way to read the log as offers. -/
theorem keepsFraming_iff_of_offersOnly {before log : List Syscall} {offers : List Offer}
    (only : OffersOnly descriptor before log offers) :
    (∀ others, log = before ++ others.map (Offer.call descriptor) ↔ others = offers) ∧
      (KeepsFraming (writtenTo descriptor (offers.map (Offer.call descriptor))) offers ↔
        StopsWhenSevered offers) := by
  refine ⟨?_, keepsFraming_iff only.bounded⟩
  intro others
  rw [only.log, List.append_cancel_left_eq]
  constructor
  · intro same
    exact (List.map_injective_iff.mpr (Offer.call_injective descriptor) same).symm
  · intro same
    rw [same]

/--
Whatever `write` returns: after an initialisation that connected, plain probe
calls in any order offer whole entries, and what the collector receives keeps the
framing exactly if nothing is accepted after a count that stops inside an entry.
-/
theorem plain_calls_keep_framing_iff (connects : startUp.Connects hostname)
    (unconfigured : library.channel.controller.initState = .unconfigured)
    (holds : library.channel.lookup.Holds known) (wellFormed : library.registry.WellFormed)
    (done : controllerInitialize kernel startUp library = some initialized)
    (ran : PlainCall.runAll kernel calls initialized = some final) :
    ∃ offers,
      (∀ others, final.channel.world.log = library.channel.world.log ++ startUp.openCalls ++
        others.map (Offer.call startUp.socket) ↔ others = offers) ∧
      (KeepsFraming (writtenTo startUp.socket (offers.map (Offer.call startUp.socket))) offers ↔
        StopsWhenSevered offers) := by
  rcases controllerInitialize_of_unconfigured kernel startUp library holds unconfigured
    connects.named connects.rwlockInit with ⟨after, initialization, initializes⟩
  rw [initialization, Option.some.injEq] at done
  subst done
  have registered := initializes.offersOnly
  rw [connects.closeCalls_eq, List.append_nil, connects.socketResult_eq] at registered
  have onSocket := initializes.socket.trans connects.socketResult_eq
  rcases PlainCall.runAll_offersOnly (initializes.idle wellFormed) ran with
    ⟨_, -, -, offers, sent⟩
  rw [onSocket] at sent
  exact ⟨_, keepsFraming_iff_of_offersOnly (registered.trans sent)⟩

/-- A thread that enters and leaves one operation. -/
def oneOperation : List PlainCall :=
  [.before 0 (.literal "Main") (.literal "int main()"),
    .after 0 (.literal "Main") (.literal "int main()")]

theorem oneOperation_fits : ∀ call ∈ oneOperation, ∀ signature ∈ call.signatures,
    signature.Fits := by
  decide

theorem one_operation_keeps_framing_iff :
    ∃ initialized final offers,
      controllerInitialize Kernel.accepting StartUp.smooth Library.initial = some initialized ∧
      PlainCall.runAll Kernel.accepting oneOperation initialized = some final ∧
      (∀ others, final.channel.world.log = Library.initial.channel.world.log ++
        StartUp.smooth.openCalls ++ others.map (Offer.call StartUp.smooth.socket) ↔
          others = offers) ∧
      (KeepsFraming (writtenTo StartUp.smooth.socket
          (offers.map (Offer.call StartUp.smooth.socket))) offers ↔ StopsWhenSevered offers) := by
  rcases exists_initialized Kernel.accepting with ⟨initialized, done, initializes⟩
  rcases PlainCall.runAll_isSome Kernel.accepting
    (initializes.idle TraceRegistry.wellFormed_initial) (by decide) oneOperation_fits with
    ⟨final, ran⟩
  rcases plain_calls_keep_framing_iff StartUp.connects_smooth rfl LookupTable.holds_initial
    TraceRegistry.wellFormed_initial done ran with ⟨offers, framing⟩
  exact ⟨initialized, final, offers, done, ran, framing⟩

/-- Of every 88 bytes the first 50 are accepted. -/
def Kernel.writeShort (_ : ℕ) (descriptor : ℤ) (count : ℕ) : ℤ :=
  if descriptor < 0 then -1 else if count = 88 then 50 else count

theorem Kernel.neg_one_le_writeShort (index : ℕ) (descriptor : ℤ) (count : ℕ) :
    -1 ≤ Kernel.writeShort index descriptor count := by
  rw [Kernel.writeShort]
  split
  · omega
  · split <;> omega

theorem Kernel.writeShort_le (index : ℕ) (descriptor : ℤ) (count : ℕ) :
    Kernel.writeShort index descriptor count ≤ count := by
  rw [Kernel.writeShort]
  split
  · omega
  · split <;> omega

theorem Kernel.writeShort_of_neg (index : ℕ) (descriptor : ℤ) (count : ℕ)
    (negative : descriptor < 0) : Kernel.writeShort index descriptor count = -1 :=
  if_pos negative

/-- A kernel on which the first 50 bytes of every write of 88 bytes are accepted. -/
def Kernel.short : Kernel :=
  { Kernel.accepting with
    write := Kernel.writeShort
    neg_one_le_write := Kernel.neg_one_le_writeShort
    write_le := Kernel.writeShort_le
    write_of_neg := Kernel.writeShort_of_neg }

/-- A count that stops inside the second record of a write. -/
theorem severs_second {table : List CString} {first second : Logged} {result : ℤ}
    (inside : Field.widthAll first.members < result.toNat)
    (short : result.toNat < Field.widthAll first.members + Field.widthAll second.members) :
    Offer.Severs ⟨[first, second].map (Logged.entry table), result⟩ := by
  have width : ∀ logged : Logged, (Entry.codec.encode (logged.entry table)).length =
      Field.widthAll logged.members := by
    intro logged
    rw [Logged.encode_entry, Field.length_bytesAll]
  have firstWidth := width first
  have secondWidth := width second
  change Fragment.Severs Entry.codec.encode [first.entry table, second.entry table] result.toNat
  rw [Fragment.severs_cons_of_le (by omega), Fragment.severs_cons_of_lt (by omega)]
  omega

section NewTrace

variable {self : PthreadSelf} {classSignature operationSignature : CString}

/-- The write of the first event of a trace offers 88 bytes, the first 48 of them metadata. -/
theorem widthAll_beforeEmission (new : (library.registry.current kernel self).orderIndex = -1) :
    Field.widthAll (Logged.membersAll
      (beforeEmission kernel hostname self classSignature operationSignature library).built) =
        88 := by
  have metadata : ∀ reading trace, Field.widthAll
      (metadataLogged kernel hostname reading trace).members = 48 := fun _ _ => rfl
  have event : ∀ reading trace, Field.widthAll
      (beforeLogged kernel reading trace classSignature operationSignature).members = 40 :=
    fun _ _ => rfl
  rw [beforeEmission, openingLogged, if_pos new]
  simp [Logged.membersAll, Field.widthAll_append, metadata, event]

theorem severs_beforeEmission {table : List CString} {result : ℤ}
    (new : (library.registry.current kernel self).orderIndex = -1) (inside : 48 < result.toNat)
    (short : result.toNat < 88) :
    Offer.Severs ⟨(beforeEmission kernel hostname self classSignature operationSignature
      library).built.map (Logged.entry table), result⟩ := by
  rw [beforeEmission, openingLogged, if_pos new]
  exact severs_second inside short

end NewTrace

/--
The write of the metadata and the first event is cut after 50 of 88 bytes, and
the next event follows.
-/
theorem short_write_breaks_framing :
    ∃ initialized final offers,
      controllerInitialize Kernel.short StartUp.smooth Library.initial = some initialized ∧
      PlainCall.runAll Kernel.short oneOperation initialized = some final ∧
      final.channel.world.log = Library.initial.channel.world.log ++
        StartUp.smooth.openCalls ++ offers.map (Offer.call StartUp.smooth.socket) ∧
      ¬KeepsFraming (writtenTo StartUp.smooth.socket
        (offers.map (Offer.call StartUp.smooth.socket))) offers := by
  rcases exists_initialized Kernel.short with ⟨initialized, done, initializes⟩
  have registered := initializes.offersOnly
  have idle := initializes.idle TraceRegistry.wellFormed_initial
  rcases PlainCall.run_isSome Kernel.short idle (by decide)
    (oneOperation_fits _ List.mem_cons_self) with ⟨entered, enters⟩
  have entering := PlainCall.offersOnly idle enters
  have enteredIdle := PlainCall.idle idle enters
  rcases PlainCall.run_isSome Kernel.short enteredIdle (by decide)
    (oneOperation_fits _ (List.mem_cons_of_mem _ List.mem_cons_self)) with ⟨left, leaves⟩
  have leaving := PlainCall.offersOnly enteredIdle leaves
  have onSocket : initialized.channel.controller.socket = 3 := initializes.socket
  have stillOnSocket : entered.channel.controller.socket = 3 :=
    (PlainCall.calls idle enters).emits.socket.trans onSocket
  rw [onSocket] at entering
  rw [stillOnSocket] at leaving
  have only := (registered.trans entering).trans leaving
  refine ⟨initialized, left, _, done, ?_, only.log, ?_⟩
  · simp only [oneOperation, PlainCall.runAll, List.foldlM_cons, List.foldlM_nil, enters, leaves,
      Option.bind_eq_bind, Option.bind_some]
    rfl
  · rw [keepsFraming_iff only.bounded, StopsWhenSevered, List.pairwise_append]
    intro stops
    have noTrace : ∀ trace ∈ initialized.registry.traces, trace.threadId ≠ threadIdOf 0 := by
      rw [initializes.registry]
      exact fun _ none => absurd none List.not_mem_nil
    have new : (initialized.registry.current Kernel.short 0).orderIndex = -1 := by
      rw [TraceRegistry.current_of_notMem noTrace]
      rfl
    have firstSent : (beforeEmission Kernel.short (.literal "host") 0 (.literal "Main")
      (.literal "int main()") initialized).isSent = true := rfl
    have secondWidth : Field.widthAll (Logged.membersAll (afterEmission Kernel.short 0
      (.literal "Main") (.literal "int main()") entered).built) = 40 := rfl
    have secondSent : (afterEmission Kernel.short 0 (.literal "Main") (.literal "int main()")
      entered).isSent = true := rfl
    rcases Kernel.short.mem_answers_built 3 initialized.channel.world.log.length
      (Interning.internAll [] eventTypes) firstSent (widthAll_beforeEmission new) with
      ⟨place, cut⟩
    rcases Kernel.short.mem_answers_built 3 entered.channel.world.log.length _ secondSent
      secondWidth with ⟨later, next⟩
    have accepted : Kernel.short.write place 3 88 = 50 := rfl
    have passed : Kernel.short.write later 3 40 = 40 := rfl
    rw [accepted] at cut
    rw [passed] at next
    have nothing := stops.2.2 _ (List.mem_append_right _ cut) _ next
      (severs_beforeEmission new (by decide) (by decide))
    exact absurd nothing (by norm_num)

end Kieker
