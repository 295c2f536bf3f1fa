import Kieker.Channel.Building

/-!
# What any call writes

A coarse specification that holds of every function of the library that sends, in
every state and for all arguments: whatever else it does, it only offers bytes on
the descriptor in the socket field, and it keeps that field.
-/

namespace Kieker

/--
Nothing but offers on the socket passed to the outside, and the controller was
given up only if the socket does not accept everything.
-/
structure Channel.OnlyWrites (kernel : Kernel) (before after : Channel) : Prop where
  socket : after.controller.socket = before.controller.socket
  initState : after.controller.initState = before.controller.initState ∨
    after.controller.initState = .failed ∧ ¬kernel.CompleteOn before.controller.socket
  log : ∃ pieces, after.world.log =
    kernel.offerAll before.controller.socket before.world.log pieces

namespace Channel.OnlyWrites

variable {kernel : Kernel} {before middle after : Channel}

theorem refl (channel : Channel) : channel.OnlyWrites kernel channel :=
  ⟨rfl, Or.inl rfl, [], rfl⟩

theorem trans (first : before.OnlyWrites kernel middle) (second : middle.OnlyWrites kernel after) :
    before.OnlyWrites kernel after := by
  rcases first.log with ⟨pieces, logEq⟩
  rcases second.log with ⟨more, moreEq⟩
  refine ⟨second.socket.trans first.socket, ?_, pieces ++ more, ?_⟩
  · rcases second.initState with same | ⟨failed, refused⟩
    · rw [same]
      exact first.initState
    · rw [first.socket] at refused
      exact Or.inr ⟨failed, refused⟩
  · rw [moreEq, first.socket, logEq, Kernel.offerAll_append]

theorem of_same (socket : after.controller.socket = before.controller.socket)
    (initState : after.controller.initState = before.controller.initState)
    (log : after.world.log = before.world.log) : before.OnlyWrites kernel after :=
  ⟨socket, Or.inl initState, [], log⟩

/-- What happens on the inside before and afterwards does not matter. -/
theorem framed {between : Channel} (writes : middle.OnlyWrites kernel between)
    (socket : middle.controller.socket = before.controller.socket)
    (initState : middle.controller.initState = before.controller.initState)
    (log : middle.world.log = before.world.log)
    (laterSocket : after.controller.socket = between.controller.socket)
    (laterInitState : after.controller.initState = between.controller.initState)
    (laterLog : after.world.log = between.world.log) : before.OnlyWrites kernel after :=
  .trans (.of_same socket initState log)
    (.trans writes (.of_same laterSocket laterInitState laterLog))

theorem transmit (channel : Channel) (bytes : List UInt8) :
    channel.OnlyWrites kernel (channel.transmit kernel bytes) := by
  refine ⟨?_, Or.inl ?_, [bytes], ?_⟩
  · rw [controller_transmit]
  · rw [controller_transmit]
  · rw [world_transmit]
    rfl

end Channel.OnlyWrites

variable {kernel : Kernel} {channel after : Channel}

theorem controllerSend_onlyWrites {length : ℕ}
    (done : controllerSend kernel length channel = some after) :
    channel.OnlyWrites kernel after := by
  rcases controllerSend_eq_some done with ⟨block, -, -, rfl⟩
  exact .transmit channel _

theorem controllerSendString_onlyWrites {string : CString} {id : ℤ}
    (done : controllerSendString kernel string id channel = some after) :
    channel.OnlyWrites kernel after := by
  simp only [controllerSendString, Option.bind_eq_bind, Option.bind_eq_some_iff] at done
  rcases done with ⟨block, -, _, -, _, -, _, -, stored, -, bytes, -, sent⟩
  split at sent
  · rename_i refused
    rw [← Option.some.inj sent]
    refine ⟨rfl, Or.inr ⟨rfl, fun complete => ?_⟩, [bytes], rfl⟩
    have accepted := complete channel.world.log.length bytes.length
    have result : kernel.write channel.world.log.length channel.controller.socket bytes.length =
        -1 := refused
    omega
  · rw [← Option.some.inj sent]
    exact ⟨rfl, Or.inl rfl, [bytes], rfl⟩

theorem lookupStringListAddValue_onlyWrites {string : CString}
    (done : lookupStringListAddValue kernel string channel = some after) :
    channel.OnlyWrites kernel after := by
  simp only [lookupStringListAddValue, Option.bind_eq_bind, Option.bind_eq_some_iff,
    Option.some.injEq] at done
  rcases done with ⟨value, -, middle, sent, lookup, -, rfl⟩
  have writes := controllerSendString_onlyWrites sent
  exact writes.framed rfl rfl rfl rfl rfl rfl

theorem lookupFindKeyByString_onlyWrites {string : CString} {key : ℕ}
    (found : lookupFindKeyByString kernel string channel = some (key, after)) :
    channel.OnlyWrites kernel after := by
  simp only [lookupFindKeyByString, Option.bind_eq_bind, Option.bind_eq_some_iff] at found
  rcases found with ⟨scanned, -, found⟩
  cases scanned with
  | some index =>
      simp only [Option.some.injEq, Prod.mk.injEq] at found
      rcases found with ⟨-, rfl⟩
      exact .refl channel
  | none =>
      simp only [Option.bind_eq_some_iff, Option.some.injEq, Prod.mk.injEq] at found
      rcases found with ⟨middle, added, -, rfl⟩
      exact lookupStringListAddValue_onlyWrites added

theorem serializeField_onlyWrites {buffer stored : Block} {offset size : ℕ} {field : Field}
    (done : serializeField kernel buffer offset field channel = some (size, stored, after)) :
    channel.OnlyWrites kernel after := by
  cases field with
  | string value =>
      simp only [serializeField, serializeString_eq, Option.bind_eq_some_iff,
        Option.map_eq_some_iff, Prod.mk.injEq] at done
      rcases done with ⟨⟨key, found⟩, lookedUp, _, -, -, -, rfl⟩
      exact lookupFindKeyByString_onlyWrites lookedUp
  | boolean value =>
      simp only [serializeField, Option.bind_eq_bind, Option.bind_eq_some_iff, Option.some.injEq,
        Prod.mk.injEq] at done
      rcases done with ⟨_, -, -, -, rfl⟩
      exact .refl channel
  | int32 value =>
      simp only [serializeField, Option.bind_eq_bind, Option.bind_eq_some_iff, Option.some.injEq,
        Prod.mk.injEq] at done
      rcases done with ⟨_, -, -, -, rfl⟩
      exact .refl channel
  | int64 value =>
      simp only [serializeField, Option.bind_eq_bind, Option.bind_eq_some_iff, Option.some.injEq,
        Prod.mk.injEq] at done
      rcases done with ⟨_, -, -, -, rfl⟩
      exact .refl channel

theorem serializeFields_onlyWrites {fields : List Field} {buffer stored : Block}
    {offset position : ℕ}
    (done : serializeFields kernel fields buffer offset channel =
      some (position, stored, after)) : channel.OnlyWrites kernel after := by
  induction fields generalizing channel buffer offset with
  | nil =>
      simp only [serializeFields, Option.some.injEq, Prod.mk.injEq] at done
      rcases done with ⟨-, -, rfl⟩
      exact .refl channel
  | cons field fields ih =>
      simp only [serializeFields, Option.bind_eq_bind, Option.bind_eq_some_iff] at done
      rcases done with ⟨⟨size, written, between⟩, first, rest⟩
      exact (serializeField_onlyWrites first).trans (ih rest)

theorem controllerGetTimeMs_onlyWrites (kernel : Kernel) (channel : Channel) :
    channel.OnlyWrites kernel (controllerGetTimeMs kernel channel).2 :=
  .of_same rfl rfl rfl

theorem buildRecord_onlyWrites {id : ℤ} {fields : List Field} {position next : ℕ}
    (done : buildRecord kernel id fields position channel = some (next, after)) :
    channel.OnlyWrites kernel after := by
  simp only [buildRecord, controllerPrefixSerialize, controllerGetTimeMs, Option.bind_eq_bind,
    Option.bind_eq_some_iff, Option.some.injEq, Prod.mk.injEq] at done
  rcases done with ⟨⟨_, between⟩, ⟨_, -, _, -, _, -, -, rfl⟩, block, -, ⟨_, stored, sent⟩,
    wroteFields, -, rfl⟩
  have writes := serializeFields_onlyWrites wroteFields
  exact writes.framed rfl rfl rfl rfl rfl rfl

/-! ### Calls that write nothing -/

/-- `kieker_lookup_find_key_by_string` finds each of the strings in the table. -/
def Channel.Finds (channel : Channel) (strings : List CString) : Prop :=
  ∀ string ∈ strings, ∃ index,
    lookupScan channel.lookup string 0 channel.lookup.tableTop = some (some index)

theorem serializeField_of_finds {buffer stored : Block} {offset size : ℕ} {field : Field}
    (finds : channel.Finds field.strings)
    (done : serializeField kernel buffer offset field channel = some (size, stored, after)) :
    after = channel := by
  cases field with
  | string value =>
      rcases finds value List.mem_cons_self with ⟨index, scanned⟩
      simp only [serializeField, serializeString, lookupFindKeyByString, scanned,
        Option.bind_eq_bind, Option.bind_some, Option.bind_eq_some_iff, Option.some.injEq,
        Prod.mk.injEq] at done
      rcases done with ⟨_, -, -, -, rfl⟩
      rfl
  | boolean value =>
      simp only [serializeField, Option.bind_eq_bind, Option.bind_eq_some_iff, Option.some.injEq,
        Prod.mk.injEq] at done
      rcases done with ⟨_, -, -, -, rfl⟩
      rfl
  | int32 value =>
      simp only [serializeField, Option.bind_eq_bind, Option.bind_eq_some_iff, Option.some.injEq,
        Prod.mk.injEq] at done
      rcases done with ⟨_, -, -, -, rfl⟩
      rfl
  | int64 value =>
      simp only [serializeField, Option.bind_eq_bind, Option.bind_eq_some_iff, Option.some.injEq,
        Prod.mk.injEq] at done
      rcases done with ⟨_, -, -, -, rfl⟩
      rfl

/-- Members whose strings are all found change the buffer only. -/
theorem serializeFields_of_finds {fields : List Field} {buffer stored : Block}
    {offset position : ℕ} (finds : channel.Finds (Field.stringsAll fields))
    (done : serializeFields kernel fields buffer offset channel =
      some (position, stored, after)) : after = channel := by
  induction fields generalizing buffer offset with
  | nil =>
      simp only [serializeFields, Option.some.injEq, Prod.mk.injEq] at done
      exact done.2.2.symm
  | cons field fields ih =>
      simp only [serializeFields, Option.bind_eq_bind, Option.bind_eq_some_iff] at done
      rcases done with ⟨⟨size, written, between⟩, first, rest⟩
      have same : between = channel := serializeField_of_finds
        (fun string string_mem => finds string (List.mem_append_left _ string_mem)) first
      rw [same] at rest
      exact ih (fun string string_mem => finds string (List.mem_append_right _ string_mem)) rest

end Kieker
