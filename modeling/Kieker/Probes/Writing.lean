import Kieker.Channel.Emitting
import Kieker.Channel.Writing

/-!
# What any probe call writes

All calls of probes and aspects, with arbitrary arguments and in any state, nested
or not, write on the descriptor in the socket field only.
-/

namespace Kieker

/-- A call of a function that instrumented code calls. -/
inductive ProbeCall where
  | before (classSignature operationSignature : CString)
  | after (classSignature operationSignature : CString)
  | eventBefore (operationSignature classSignature : CString)
  | eventAfter (trace : ℕ) (operationSignature classSignature : CString)
  | controlflowBefore
  | controlflowAfter (trace : ℕ)
  | controlflowAfter2 (trace : ℕ) (record : OperationExecutionRecord)

/-- What a call does to the library. -/
def ProbeCall.run (kernel : Kernel) (self : PthreadSelf) (library : Library) :
    ProbeCall → Option Library
  | .before classSignature operationSignature =>
      probeBeforeOperationEvent kernel self classSignature operationSignature library
  | .after classSignature operationSignature =>
      probeAfterOperationEvent kernel self classSignature operationSignature library
  | .eventBefore operationSignature classSignature =>
      (probeAspectEventBeforeOperation kernel self operationSignature classSignature library).map
        fun result => result.2
  | .eventAfter trace operationSignature classSignature =>
      probeAspectEventAfterOperation kernel trace operationSignature classSignature library
  | .controlflowBefore =>
      (probeAspectControlflowBefore kernel self library).map fun result => result.2.2
  | .controlflowAfter trace =>
      (probeAspectControlflowAfter kernel trace library).map fun result => result.2
  | .controlflowAfter2 trace record => probeAspectControlflowAfter2 kernel trace record library

variable {kernel : Kernel} {self : PthreadSelf} {channel sent : Channel} {library later : Library}
  {trace : KiekerTrace} {position next address : ℕ} {classSignature operationSignature : CString}

theorem probeCreateTraceMetadata_onlyWrites
    (done : probeCreateTraceMetadata kernel position trace channel = some (next, sent)) :
    channel.OnlyWrites kernel sent := by
  cases named : channel.controller.localHostname with
  | none => simp [probeCreateTraceMetadata, named] at done
  | some hostname =>
      rw [probeCreateTraceMetadata_eq named] at done
      exact buildRecord_onlyWrites done

theorem probeCreateBeforeOperationEvent_onlyWrites
    (done : probeCreateBeforeOperationEvent kernel position trace classSignature
      operationSignature channel = some (next, sent)) : channel.OnlyWrites kernel sent :=
  (controllerGetTimeMs_onlyWrites kernel channel).trans (buildRecord_onlyWrites done)

theorem probeCreateAfterOperationEvent_onlyWrites
    (done : probeCreateAfterOperationEvent kernel position trace classSignature
      operationSignature channel = some (next, sent)) : channel.OnlyWrites kernel sent :=
  (controllerGetTimeMs_onlyWrites kernel channel).trans (buildRecord_onlyWrites done)

theorem probeOpenTrace_onlyWrites
    (done : probeOpenTrace kernel trace channel = some (next, sent)) :
    channel.OnlyWrites kernel sent := by
  unfold probeOpenTrace at done
  split at done
  · exact probeCreateTraceMetadata_onlyWrites done
  · simp only [Option.some.injEq, Prod.mk.injEq] at done
    rw [← done.2]
    exact .refl channel

theorem probeBeforeOperationEvent_onlyWrites
    (done : probeBeforeOperationEvent kernel self classSignature operationSignature library =
      some later) : library.channel.OnlyWrites kernel later.channel := by
  simp only [probeBeforeOperationEvent, Option.bind_eq_bind, Option.bind_eq_some_iff,
    Option.some.injEq] at done
  rcases done with ⟨_, -, ⟨_, middle⟩, opened, _, -, ⟨_, built⟩, created, sent, sends, rfl⟩
  exact (probeOpenTrace_onlyWrites opened).trans
    ((probeCreateBeforeOperationEvent_onlyWrites created).trans (controllerSend_onlyWrites sends))

theorem probeAfterOperationEvent_onlyWrites
    (done : probeAfterOperationEvent kernel self classSignature operationSignature library =
      some later) : library.channel.OnlyWrites kernel later.channel := by
  simp only [probeAfterOperationEvent, Option.bind_eq_bind, Option.bind_eq_some_iff,
    Option.some.injEq] at done
  rcases done with ⟨_, -, ⟨_, built⟩, created, sent, sends, _, -, rfl⟩
  exact (probeCreateAfterOperationEvent_onlyWrites created).trans (controllerSend_onlyWrites sends)

theorem probeAspectEventBeforeOperation_onlyWrites
    (done : probeAspectEventBeforeOperation kernel self operationSignature classSignature library =
      some (address, later)) : library.channel.OnlyWrites kernel later.channel := by
  simp only [probeAspectEventBeforeOperation, Option.bind_eq_bind, Option.bind_eq_some_iff] at done
  rcases done with ⟨_, -, ⟨_, middle⟩, opened, done⟩
  have opens := probeOpenTrace_onlyWrites opened
  split at done
  · simp only [Option.bind_eq_some_iff, Option.some.injEq, Prod.mk.injEq] at done
    rcases done with ⟨_, -, ⟨_, built⟩, created, sent, sends, -, rfl⟩
    exact opens.trans ((probeCreateBeforeOperationEvent_onlyWrites created).trans
      (controllerSend_onlyWrites sends))
  · simp only [Option.some.injEq, Prod.mk.injEq] at done
    rw [← done.2]
    exact opens

theorem probeAspectEventAfterOperation_onlyWrites
    (done : probeAspectEventAfterOperation kernel address operationSignature classSignature library =
      some later) : library.channel.OnlyWrites kernel later.channel := by
  by_cases excluded : library.filter.isClassExcluded classSignature = true
  · simp only [probeAspectEventAfterOperation, excluded, reduceCtorEq, if_false,
      Option.bind_eq_bind, Option.bind_some, Option.bind_eq_some_iff, Option.some.injEq] at done
    rcases done with ⟨_, -, rfl⟩
    exact .refl library.channel
  · simp only [probeAspectEventAfterOperation, excluded, if_true, Option.bind_eq_bind,
      Option.bind_eq_some_iff, Option.some.injEq, Prod.exists, Prod.mk.injEq] at done
    rcases done with ⟨_, -, _, built, created, sent, sends, _, _, ⟨-, rfl⟩, _, -, rfl⟩
    exact (probeCreateAfterOperationEvent_onlyWrites created).trans (controllerSend_onlyWrites sends)

theorem probeAspectControlflowAfter2_onlyWrites {record : OperationExecutionRecord}
    (done : probeAspectControlflowAfter2 kernel address record library = some later) :
    library.channel.OnlyWrites kernel later.channel := by
  simp only [probeAspectControlflowAfter2, probeAspectControlflowSend,
    operationExecutionRecordSerialize, Option.bind_eq_bind, Option.bind_eq_some_iff,
    Option.some.injEq] at done
  rcases done with ⟨_, -, _, ⟨⟨_, _, built⟩, serialized, sent, sends, rfl⟩, _, -, rfl⟩
  exact (serializeFields_onlyWrites serialized).trans (controllerSend_onlyWrites sends)

/-- Every call writes on the socket only. -/
theorem ProbeCall.onlyWrites (call : ProbeCall) (done : call.run kernel self library = some later) :
    library.channel.OnlyWrites kernel later.channel := by
  cases call with
  | before classSignature operationSignature => exact probeBeforeOperationEvent_onlyWrites done
  | after classSignature operationSignature => exact probeAfterOperationEvent_onlyWrites done
  | eventBefore operationSignature classSignature =>
      rcases Option.map_eq_some_iff.mp done with ⟨⟨trace, after⟩, entered, rfl⟩
      exact probeAspectEventBeforeOperation_onlyWrites entered
  | eventAfter trace operationSignature classSignature =>
      exact probeAspectEventAfterOperation_onlyWrites done
  | controlflowBefore =>
      rcases Option.map_eq_some_iff.mp done with ⟨⟨trace, execution, after⟩, entered, rfl⟩
      simp only [probeAspectControlflowBefore, Option.bind_eq_bind, Option.bind_eq_some_iff,
        Option.some.injEq, Prod.mk.injEq] at entered
      rcases entered with ⟨_, -, -, -, rfl⟩
      exact controllerGetTimeMs_onlyWrites kernel library.channel
  | controlflowAfter trace =>
      rcases Option.map_eq_some_iff.mp done with ⟨⟨tout, after⟩, left, rfl⟩
      simp only [probeAspectControlflowAfter, Option.bind_eq_bind, Option.bind_eq_some_iff,
        Option.some.injEq, Prod.mk.injEq] at left
      rcases left with ⟨_, -, -, rfl⟩
      exact controllerGetTimeMs_onlyWrites kernel library.channel
  | controlflowAfter2 trace record => exact probeAspectControlflowAfter2_onlyWrites done

/-! ### Calls that write nothing -/

/--
The call has nothing to send: the event aspect leaves out an excluded class, the
controlflow aspect keeps its record to itself, and no string has to be announced
for the metadata of a new trace.
-/
def ProbeCall.Silent (kernel : Kernel) (self : PthreadSelf) (library : Library) :
    ProbeCall → Prop
  | .eventBefore _ classSignature =>
      library.filter.isClassExcluded classSignature = true ∧
        ∀ trace hostname,
          (library.registry.traceGet kernel self).2.deref
            (library.registry.traceGet kernel self).1 = some trace →
          library.channel.controller.localHostname = some hostname → trace.orderIndex = -1 →
          library.channel.Finds [.literal "<no-session>", hostname]
  | .eventAfter _ _ classSignature => library.filter.isClassExcluded classSignature = true
  | .controlflowBefore => True
  | .controlflowAfter _ => True
  | _ => False

theorem buildRecord_log_of_finds {id : ℤ} {fields : List Field}
    (finds : channel.Finds (Field.stringsAll fields))
    (done : buildRecord kernel id fields position channel = some (next, sent)) :
    sent.world.log = channel.world.log := by
  simp only [buildRecord, controllerPrefixSerialize, controllerGetTimeMs, Option.bind_eq_bind,
    Option.bind_eq_some_iff, Option.some.injEq, Prod.mk.injEq] at done
  rcases done with ⟨⟨_, between⟩, ⟨_, -, _, -, _, -, -, rfl⟩, block, -, ⟨_, stored, after⟩,
    wroteFields, -, rfl⟩
  rw [serializeFields_of_finds ?_ wroteFields]
  · rfl
  · exact finds

theorem probeOpenTrace_log_of_finds
    (finds : ∀ hostname, channel.controller.localHostname = some hostname →
      trace.orderIndex = -1 → channel.Finds [.literal "<no-session>", hostname])
    (done : probeOpenTrace kernel trace channel = some (next, sent)) :
    sent.world.log = channel.world.log := by
  unfold probeOpenTrace at done
  split at done
  · rename_i new
    cases named : channel.controller.localHostname with
    | none => simp [probeCreateTraceMetadata, named] at done
    | some hostname =>
        rw [probeCreateTraceMetadata_eq named] at done
        have known : channel.Finds (Field.stringsAll (traceMetadataOf hostname trace).fields) :=
          finds hostname named new
        exact buildRecord_log_of_finds known done
  · simp only [Option.some.injEq, Prod.mk.injEq] at done
    rw [← done.2]

theorem ProbeCall.log_of_silent {call : ProbeCall} (silent : call.Silent kernel self library)
    (done : call.run kernel self library = some later) :
    later.channel.world.log = library.channel.world.log := by
  cases call with
  | before classSignature operationSignature => exact absurd silent id
  | after classSignature operationSignature => exact absurd silent id
  | controlflowAfter2 trace record => exact absurd silent id
  | eventBefore operationSignature classSignature =>
      rcases silent with ⟨excluded, finds⟩
      rcases Option.map_eq_some_iff.mp done with ⟨⟨trace, after⟩, entered, rfl⟩
      simp only [probeAspectEventBeforeOperation, excluded, reduceCtorEq, if_false,
        Option.bind_eq_bind, Option.bind_eq_some_iff, Option.some.injEq, Prod.mk.injEq] at entered
      rcases entered with ⟨data, found, ⟨_, middle⟩, opened, -, rfl⟩
      exact probeOpenTrace_log_of_finds (fun hostname => finds data hostname found) opened
  | eventAfter trace operationSignature classSignature =>
      have excluded : library.filter.isClassExcluded classSignature = true := silent
      simp only [ProbeCall.run, probeAspectEventAfterOperation, excluded, reduceCtorEq, if_false,
        Option.bind_eq_bind, Option.bind_some, Option.bind_eq_some_iff, Option.some.injEq] at done
      rcases done with ⟨_, -, rfl⟩
      rfl
  | controlflowBefore =>
      rcases Option.map_eq_some_iff.mp done with ⟨⟨trace, execution, after⟩, entered, rfl⟩
      simp only [probeAspectControlflowBefore, Option.bind_eq_bind, Option.bind_eq_some_iff,
        Option.some.injEq, Prod.mk.injEq] at entered
      rcases entered with ⟨_, -, -, -, rfl⟩
      rfl
  | controlflowAfter trace =>
      rcases Option.map_eq_some_iff.mp done with ⟨⟨tout, after⟩, left, rfl⟩
      simp only [probeAspectControlflowAfter, Option.bind_eq_bind, Option.bind_eq_some_iff,
        Option.some.injEq, Prod.mk.injEq] at left
      rcases left with ⟨_, -, -, rfl⟩
      rfl

end Kieker
