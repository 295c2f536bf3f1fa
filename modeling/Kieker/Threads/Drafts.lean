import Kieker.Model.Threads
import Kieker.Probes.Calls
import Kieker.Wire.Entries

/-!
# Drafts of records

A running call has a draft: the members that it has serialised, which together
with the values that are still pending make up complete records. One turn of the
call either adds a member to the draft, or leaves the draft and the buffer alone.
-/

namespace Kieker

/-! ### Pending values -/

/-- The members that can come of a pending value: the time is not known before its turn. -/
inductive Pending.Becomes : Pending → Field → Prop
  | member (field : Field) : Becomes (.member field) field
  | now (time : ℤ) : Becomes .now (.int64 time)

theorem Pending.becomes_resolve (kernel : Kernel) (channel : Channel) (next : Pending) :
    next.Becomes (next.resolve kernel channel).1 := by
  cases next with
  | member field => exact .member field
  | now => exact .now _

/-- Whatever the pending values become, they complete the members to whole records. -/
def Completes (done : List Field) (pending : List Pending) : Prop :=
  ∀ rest, List.Forall₂ Pending.Becomes pending rest → ∃ built, Logged.membersAll built = done ++ rest

namespace Completes

variable {done : List Field} {next : Pending} {pending : List Pending} {field : Field}

theorem nil : Completes [] [] := by
  intro rest others
  cases others
  exact ⟨[], rfl⟩

theorem records (completes : Completes done []) : ∃ built, Logged.membersAll built = done := by
  rcases completes [] .nil with ⟨built, members⟩
  exact ⟨built, by rw [members, List.append_nil]⟩

theorem serialize (completes : Completes done (next :: pending)) (becomes : next.Becomes field) :
    Completes (done ++ [field]) pending := by
  intro rest others
  rcases completes (field :: rest) (.cons becomes others) with ⟨built, members⟩
  exact ⟨built, by rw [members, List.append_assoc, List.singleton_append]⟩

theorem becomes_members {fields rest : List Field}
    (others : List.Forall₂ Pending.Becomes (fields.map .member) rest) : rest = fields := by
  induction fields generalizing rest with
  | nil =>
      cases others
      rfl
  | cons field fields ih =>
      cases others with
      | cons first others =>
          cases first
          rw [ih others]

/-- One more record is planned when all records so far are complete. -/
theorem planned (completes : Completes done []) (record : Record) :
    Completes done (planned record.flowId record.fields) := by
  rcases completes.records with ⟨built, members⟩
  intro rest others
  cases others with
  | cons first others =>
      cases first
      cases others with
      | cons second others =>
          cases second with
          | now time =>
              refine ⟨built ++ [⟨time, record⟩], ?_⟩
              rw [Logged.membersAll_append, members, becomes_members others]
              simp [Logged.membersAll, Logged.members]

end Completes

/-! ### The draft of a call -/

namespace ProbeLocals

/-- The call is between its first serialisation and its send. -/
def IsDrafting (locals : ProbeLocals) : Prop :=
  locals.position ≠ 0 ∧ locals.stage ≠ .release

instance (locals : ProbeLocals) : Decidable locals.IsDrafting :=
  inferInstanceAs (Decidable (_ ∧ _))

/-- The call has serialised some members, which the pending values complete to records. -/
structure Drafted (locals : ProbeLocals) (known : List CString) : Prop where
  position : locals.position = locals.written.length
  released : locals.stage = .release → locals.pending = []
  draft : ∃ done, locals.written = Field.bytesAll known done ∧
    (∀ string ∈ Field.stringsAll done, string ∈ known) ∧ Completes done locals.pending

variable {kernel : Kernel} {library after : Library} {known later : List CString}
  {hostname : CString} {locals next : ProbeLocals}

theorem Drafted.mono (drafted : locals.Drafted known) (grows : known <+: later) :
    locals.Drafted later where
  position := drafted.position
  released := drafted.released
  draft := by
    rcases drafted.draft with ⟨done, written, inTable, completes⟩
    refine ⟨done, ?_, fun string string_mem => grows.subset (inTable string string_mem), completes⟩
    rw [written, Field.bytesAll_of_prefix grows inTable]

/-- A call that has nothing left to serialise has serialised complete records. -/
theorem Drafted.entries (drafted : locals.Drafted known) (nothing : locals.pending = []) :
    ∃ entries, Entry.codec.encodeAll entries = locals.written ∧
      ∀ entry ∈ entries, entry.isRecord = true := by
  rcases drafted.draft with ⟨done, written, -, completes⟩
  rw [nothing] at completes
  rcases completes.records with ⟨built, rfl⟩
  refine ⟨built.map (Logged.entry known), ?_, ?_⟩
  · rw [Logged.encodeAll_entries, written, Logged.bytesAll]
  · intro entry entry_mem
    rcases List.mem_map.mp entry_mem with ⟨logged, -, rfl⟩
    rfl

/-- A call that begins has an empty draft, and only the trace map has changed. -/
theorem begin_eq (kernel : Kernel) (call : PlainCall) (idle : library.Idle known hostname) :
    (call.begin kernel library).1.Idle known hostname ∧
      (call.begin kernel library).1.channel = library.channel ∧
      (call.begin kernel library).2.Drafted known ∧
      ¬(call.begin kernel library).2.IsDrafting := by
  cases call with
  | before self classSignature operationSignature =>
      exact ⟨⟨idle.ready, idle.named, idle.wellFormed.traceGet⟩, rfl,
        ⟨rfl, by simp [PlainCall.begin], [], rfl, by simp [Field.stringsAll], .nil⟩,
        fun drafting => drafting.1 rfl⟩
  | after self classSignature operationSignature =>
      exact ⟨⟨idle.ready, idle.named, idle.wellFormed.traceGet⟩, rfl,
        ⟨rfl, by simp [PlainCall.begin], [], rfl, by simp [Field.stringsAll], .nil⟩,
        fun drafting => drafting.1 rfl⟩

/-! ### Turns of a call -/

/-- What a call has serialised stands at the front of the buffer. -/
def InBuffer (locals : ProbeLocals) (library : Library) : Prop :=
  ∃ block, library.channel.controller.buffer = some block ∧
    block.bytesFrom 0 locals.position = locals.written

theorem Drafted.inBuffer (drafted : locals.Drafted known) (idle : library.Idle known hostname)
    (start : locals.position = 0) : locals.InBuffer library := by
  rcases idle.ready.buffer with ⟨block, allocated, -⟩
  have nothing : locals.written = [] := List.length_eq_zero_iff.mp (drafted.position ▸ start)
  exact ⟨block, allocated, by rw [start, nothing, Block.bytesFrom_zero]⟩

/-- A look at the clock does not change the table or the controller. -/
theorem resolve_keeps (kernel : Kernel) (channel : Channel) (value : Pending) :
    (value.resolve kernel channel).2.lookup = channel.lookup ∧
      (value.resolve kernel channel).2.controller = channel.controller := by
  cases value <;> exact ⟨rfl, rfl⟩

/-- A turn that serialises a value adds one member to the draft, behind what stands there. -/
theorem serialize_eq_some {value : Pending} {rest : List Pending} {reached : Option ProbeLocals}
    (idle : library.Idle known hostname) (drafted : locals.Drafted known)
    (pending : locals.pending = value :: rest)
    (done : locals.serialize kernel library value rest = some (after, reached)) :
    ∃ next later, reached = some next ∧ known <+: later ∧ after.Idle later hostname ∧
      next.Drafted later ∧ (locals.InBuffer library → next.InBuffer after) := by
  rcases resolve_keeps kernel library.channel value with ⟨sameLookup, sameController⟩
  have becomes := value.becomes_resolve kernel library.channel
  have ready := idle.ready
  simp only [serialize, Option.bind_eq_bind, Option.bind_eq_some_iff, Option.some.injEq,
    Prod.mk.injEq] at done
  generalize value.resolve kernel library.channel = resolved at *
  rcases resolved with ⟨field, channel⟩
  simp only at sameLookup sameController becomes done
  rcases done with ⟨block, allocated, ⟨size, stored, sent⟩, serialised, rfl, rfl⟩
  have serves : channel.Serves known := by
    refine ⟨?_, ?_⟩
    · rw [sameLookup]
      exact ready.holds
    · rw [sameController]
      exact ready.ready
  rcases serializeField_eq_some serves serialised with ⟨sizeEq, -, interns, grown⟩
  have blockSize : block.size = bufferSize := by
    rcases ready.buffer with ⟨other, otherEq, size⟩
    rw [sameController, otherEq, Option.some.injEq] at allocated
    rw [← allocated, size]
  have grows : known <+: Interning.internAll known field.strings :=
    Interning.prefix_internAll known field.strings
  have inTable : ∀ string ∈ field.strings, string ∈ Interning.internAll known field.strings :=
    fun string string_mem => Interning.mem_internAll.mpr (Or.inr string_mem)
  have added : stored.bytesFrom locals.position size =
      field.bytes (Interning.internAll known field.strings) := by
    have parts := grown.parts.2
    rwa [Field.length_bytes, ← sizeEq] at parts
  refine ⟨_, _, rfl, grows, ⟨⟨⟨interns.serves.holds, interns.serves.ready⟩, stored, rfl,
    grown.size.trans blockSize⟩, ?_, idle.wellFormed⟩, ⟨?_, ?_, ?_⟩, ?_⟩
  · simp only [Channel.setBuffer]
    rw [interns.localHostname, sameController]
    exact idle.named
  · simp [drafted.position]
  · intro released
    rw [drafted.released released] at pending
    cases pending
  · rcases drafted.draft with ⟨members, written, known_mem, completes⟩
    rw [pending] at completes
    refine ⟨members ++ [field], ?_, ?_, completes.serialize becomes⟩
    · simp only
      rw [added, written, Field.bytesAll, Field.bytesAll, List.flatMap_append,
        ← Field.bytesAll, ← Field.bytesAll, Field.bytesAll_of_prefix grows known_mem]
      simp [Field.bytesAll]
    · intro string string_mem
      simp only [Field.stringsAll, List.flatMap_append, List.mem_append, List.flatMap_singleton]
        at string_mem
      rcases string_mem with old | new
      · exact grows.subset (known_mem string old)
      · exact inTable string new
  · rintro ⟨other, otherEq, front⟩
    rw [← sameController, allocated, Option.some.injEq] at otherEq
    subst otherEq
    refine ⟨stored, rfl, ?_⟩
    simp only
    rw [Block.bytesFrom_add, grown.parts.1, front, Nat.zero_add]

/-- What a turn of a call with nothing to serialise leaves as it is. -/
structure Proceeds (before after : Library) (locals : ProbeLocals) (reached : Option ProbeLocals)
    (known : List CString) (hostname : CString) : Prop where
  idle : after.Idle known hostname
  buffer : after.channel.controller.buffer = before.channel.controller.buffer
  next : ∀ next ∈ reached, next.position = locals.position ∧ next.written = locals.written ∧
    next.Drafted known ∧ (next.IsDrafting → locals.IsDrafting)

/-- The call goes on with the same draft, and plans nothing or one more record. -/
theorem Drafted.proceed (drafted : locals.Drafted known) (nothing : locals.pending = [])
    (running : locals.stage ≠ .release) (position : next.position = locals.position)
    (written : next.written = locals.written)
    (plan : next.pending = [] ∨ next.stage ≠ .release ∧
      ∃ record : Record, next.pending = planned record.flowId record.fields) :
    next.position = locals.position ∧ next.written = locals.written ∧
      next.Drafted known ∧ (next.IsDrafting → locals.IsDrafting) := by
  refine ⟨position, written, ⟨?_, ?_, ?_⟩, ?_⟩
  · rw [position, written, drafted.position]
  · intro released
    rcases plan with empty | ⟨notReleased, -⟩
    · exact empty
    · exact absurd released notReleased
  · rcases drafted.draft with ⟨done, bytes, inTable, completes⟩
    rw [nothing] at completes
    refine ⟨done, by rw [written, bytes], inTable, ?_⟩
    rcases plan with empty | ⟨-, record, pending⟩
    · rw [empty]
      exact completes
    · rw [pending]
      exact completes.planned record
  · rintro ⟨started, -⟩
    rw [position] at started
    exact ⟨started, running⟩

/-- Only the trace map is assigned to. -/
theorem idle_of_registry (idle : library.Idle known hostname) {registry : TraceRegistry}
    (wellFormed : registry.WellFormed) : Library.Idle { library with registry := registry } known
      hostname :=
  ⟨idle.ready, idle.named, wellFormed⟩

/-- What has been built is passed on. -/
theorem idle_transmit (idle : library.Idle known hostname) (kernel : Kernel) (bytes : List UInt8) :
    Library.Idle { library with channel := library.channel.transmit kernel bytes } known
      hostname := by
  refine ⟨⟨⟨?_, ?_⟩, ?_⟩, ?_, idle.wellFormed⟩
  · simp only [Channel.lookup_transmit]
    exact idle.ready.holds
  · rw [Channel.controller_transmit]
    exact idle.ready.ready
  · rw [Channel.controller_transmit]
    exact idle.ready.buffer
  · simp only
    rw [Channel.controller_transmit]
    exact idle.named

theorem proceed_eq_some {reached : Option ProbeLocals} (idle : library.Idle known hostname)
    (drafted : locals.Drafted known) (nothing : locals.pending = [])
    (done : locals.proceed kernel library = some (after, reached)) :
    Proceeds library after locals reached known hostname := by
  cases stage : locals.stage with
  | test classSignature operationSignature =>
      simp only [proceed, stage, Option.bind_eq_bind, Option.bind_eq_some_iff] at done
      rcases done with ⟨data, -, done⟩
      have running : locals.stage ≠ .release := by simp [stage]
      by_cases new : data.orderIndex = -1
      · simp only [new, if_true, Option.bind_eq_some_iff, Option.some.injEq, Prod.mk.injEq] at done
        rcases done with ⟨hostname, -, rfl, rfl⟩
        refine ⟨idle, rfl, ?_⟩
        rintro next ⟨⟩
        exact drafted.proceed nothing running rfl rfl
          (Or.inr ⟨by simp, .traceMetadata (traceMetadataOf hostname data), rfl⟩)
      · simp only [new, if_false, Option.some.injEq, Prod.mk.injEq] at done
        rcases done with ⟨rfl, rfl⟩
        refine ⟨idle, rfl, ?_⟩
        rintro next ⟨⟩
        exact drafted.proceed nothing running rfl rfl (Or.inl nothing)
  | enter classSignature operationSignature =>
      simp only [proceed, stage, Option.some.injEq, Prod.mk.injEq] at done
      rcases done with ⟨rfl, rfl⟩
      refine ⟨idle_of_registry idle
        (idle.wellFormed.assign _ TraceRegistry.keepsIdentity_enter), rfl, ?_⟩
      rintro next ⟨⟩
      exact drafted.proceed nothing (by simp [stage]) rfl rfl (Or.inl nothing)
  | leave classSignature operationSignature =>
      simp only [proceed, stage, Option.some.injEq, Prod.mk.injEq] at done
      rcases done with ⟨rfl, rfl⟩
      refine ⟨idle_of_registry idle
        (idle.wellFormed.assign _ TraceRegistry.keepsIdentity_leave), rfl, ?_⟩
      rintro next ⟨⟩
      exact drafted.proceed nothing (by simp [stage]) rfl rfl (Or.inl nothing)
  | createBefore classSignature operationSignature =>
      simp only [proceed, stage, controllerGetTimeMs, Option.bind_eq_bind, Option.bind_eq_some_iff,
        Option.some.injEq, Prod.mk.injEq] at done
      rcases done with ⟨data, -, rfl, rfl⟩
      refine ⟨⟨⟨⟨idle.ready.holds, idle.ready.ready⟩, idle.ready.buffer⟩, idle.named,
        idle.wellFormed⟩, rfl, ?_⟩
      rintro next ⟨⟩
      exact drafted.proceed nothing (by simp [stage]) rfl rfl
        (Or.inr ⟨by simp, .beforeOperationEvent _, rfl⟩)
  | createAfter classSignature operationSignature =>
      simp only [proceed, stage, controllerGetTimeMs, Option.bind_eq_bind, Option.bind_eq_some_iff,
        Option.some.injEq, Prod.mk.injEq] at done
      rcases done with ⟨data, -, rfl, rfl⟩
      refine ⟨⟨⟨⟨idle.ready.holds, idle.ready.ready⟩, idle.ready.buffer⟩, idle.named,
        idle.wellFormed⟩, rfl, ?_⟩
      rintro next ⟨⟩
      exact drafted.proceed nothing (by simp [stage]) rfl rfl
        (Or.inr ⟨by simp, .afterOperationEvent _, rfl⟩)
  | send leaves =>
      simp only [proceed, stage, Option.bind_eq_bind, Option.bind_eq_some_iff, Option.some.injEq,
        Prod.mk.injEq] at done
      rcases done with ⟨channel, sends, rfl, rfl⟩
      rcases controllerSend_eq_some sends with ⟨block, -, -, rfl⟩
      refine ⟨idle_transmit idle kernel _, ?_, ?_⟩
      · simp only
        rw [Channel.controller_transmit]
      · cases leaves with
        | false => simp
        | true =>
            rintro next ⟨⟩
            exact drafted.proceed nothing (by simp [stage]) rfl rfl (Or.inl nothing)
  | release =>
      simp only [proceed, stage, Option.bind_eq_bind, Option.bind_eq_some_iff, Option.some.injEq,
        Prod.mk.injEq] at done
      rcases done with ⟨data, -, rfl, rfl⟩
      refine ⟨idle_of_registry idle ?_, rfl, by simp⟩
      by_cases last : data.stack = 0
      · rw [if_pos last]
        exact idle.wellFormed.traceRemove
      · rw [if_neg last]
        exact idle.wellFormed

end ProbeLocals

end Kieker
