import Kieker.Probes.Plain
import Kieker.Wire.Scope

/-!
# Streams of plain probes

A stream explains the state of the library if it registered every string in the
table and introduced every trace in the map. Plain probes keep that up, and use
nothing that was not declared, as long as a thread that leaves an operation has a
trace: `kieker_probe_after_operation_event` makes a new trace if there is none,
but only `kieker_probe_before_operation_event` introduces one.
-/

namespace Kieker

/-- The entries declare what they use, the strings in a table, and the traces in a map. -/
structure Explains (entries : List Entry) (table : List CString) (registry : TraceRegistry) :
    Prop where
  inOrder : WellScoped Entry.declares Entry.uses entries
  covers : Covers entries table
  introduced : ∀ trace ∈ registry.traces,
    Declared Entry.declares entries (traceName trace.traceId)

variable {kernel : Kernel} {self : PthreadSelf} {library : Library} {registry : TraceRegistry}
  {entries : List Entry} {known table : List CString} {hostname : CString}

/-- The registry entries of some uses keep the stream in order and register the strings. -/
theorem Explains.register (explains : Explains entries known registry)
    (used : List CString) :
    Explains (entries ++ registryEntries known used) (Interning.internAll known used) registry where
  inOrder := by
    apply explains.inOrder.append
    intro entry isEntry name uses
    rw [uses_registryEntries isEntry] at uses
    cases uses
  covers := explains.covers.registryEntries used
  introduced := fun trace inMap => (explains.introduced trace inMap).append_left _

/-- A record whose strings are registered and whose trace is introduced may follow. -/
theorem Explains.record {logged : Logged} (explains : Explains entries table registry)
    (typed : eventTypes <+: table)
    (inTable : ∀ string ∈ Field.stringsAll logged.record.fields, string ∈ table)
    (traces : ∀ name ∈ logged.record.traces, Declared Entry.declares entries name) :
    Explains (entries ++ [logged.entry table]) table registry where
  inOrder := by
    apply explains.inOrder.concat
    intro name used
    rcases Logged.uses_entry typed inTable used with ⟨id, inside, rfl⟩ | ofTrace
    · exact explains.covers id inside
    · exact traces name ofTrace
  covers := explains.covers.append _
  introduced := fun trace inMap => (explains.introduced trace inMap).append_left _

theorem declared_metadataLogged (entries : List Entry) (table : List CString) (reading : ℕ)
    (trace : KiekerTrace) :
    Declared Entry.declares
      (entries ++ [(metadataLogged kernel hostname reading trace).entry table])
      (traceName trace.traceId) :=
  ⟨_, List.mem_append_right _ (List.mem_singleton.mpr rfl), List.mem_singleton.mpr rfl⟩

namespace PlainCall

/-- A thread that leaves an operation has a trace. -/
def HasTrace (registry : TraceRegistry) : PlainCall → Prop
  | .before _ _ _ => True
  | .after self _ _ => (registry.traceFind (threadIdOf self)).isSome

end PlainCall

/-- The first call of a thread introduces the trace that it makes. -/
theorem new_or_declared (explains : Explains entries known registry) :
    (registry.current kernel self).orderIndex = -1 ∨
      Declared Entry.declares entries (traceName (registry.current kernel self).traceId) := by
  cases found : registry.traceFind (threadIdOf self) with
  | some trace =>
      right
      rw [(TraceRegistry.traceGet_of_some kernel found).2]
      exact explains.introduced trace (TraceRegistry.mem_of_traceFind found).1
  | none =>
      left
      simp only [TraceRegistry.current, found, TraceRegistry.traceCreate]

section

variable {classSignature operationSignature : CString}

/-- The strings of the records that are built are in the table when they are written. -/
theorem Emission.inTable {emission : Emission} {logged : Logged}
    (isBuilt : logged ∈ emission.built) :
    ∀ string ∈ Field.stringsAll logged.record.fields,
      string ∈ Interning.internAll known emission.strings :=
  fun _ used => Interning.mem_internAll.mpr (Or.inr (Logged.mem_stringsAll isBuilt used))

theorem Emission.entries_concat {emission : Emission} {opening : List Logged} {event : Logged}
    (sent : emission.isSent = true) (built : emission.built = opening ++ [event]) :
    emission.entries known = registryEntries known emission.strings ++
      opening.map (Logged.entry (Interning.internAll known emission.strings)) ++
        [event.entry (Interning.internAll known emission.strings)] := by
  rw [Emission.entries, Emission.records, if_pos sent, built, List.map_append, List.map_singleton,
    List.append_assoc]

/-- The metadata in front of a new trace introduces it. -/
theorem Explains.opening {reading : ℕ} {trace : KiekerTrace}
    (explains : Explains entries table registry) (typed : eventTypes <+: table)
    (inTable : ∀ logged ∈ openingLogged kernel hostname reading trace,
      ∀ string ∈ Field.stringsAll logged.record.fields, string ∈ table)
    (known : trace.orderIndex = -1 ∨
      Declared Entry.declares entries (traceName trace.traceId)) :
    Explains (entries ++ (openingLogged kernel hostname reading trace).map (Logged.entry table))
        table registry ∧
      Declared Entry.declares
        (entries ++ (openingLogged kernel hostname reading trace).map (Logged.entry table))
        (traceName trace.traceId) := by
  by_cases new : trace.orderIndex = -1
  · rw [openingLogged, if_pos new] at inTable ⊢
    have metadata := explains.record typed (inTable _ (List.mem_singleton.mpr rfl))
      (fun name none => absurd none List.not_mem_nil)
    exact ⟨metadata, declared_metadataLogged entries table reading trace⟩
  · rw [openingLogged, if_neg new, List.map_nil, List.append_nil]
    exact ⟨explains, known.resolve_left new⟩

theorem Explains.beforeCall (explains : Explains entries known library.registry)
    (wellFormed : library.registry.WellFormed) (typed : eventTypes <+: known) :
    Explains
      (entries ++ (beforeEmission kernel hostname self classSignature operationSignature
        library).entries known)
      (Interning.internAll known (beforeEmission kernel hostname self classSignature
        operationSignature library).strings)
      (library.registry.entering kernel self KiekerTrace.enter) := by
  set emission := beforeEmission kernel hostname self classSignature operationSignature library
    with emissionEq
  have typedLater := typed.trans (Interning.prefix_internAll known emission.strings)
  have registered := explains.register emission.strings
  have isKnown := @new_or_declared kernel self _ _ _ registered
  rcases registered.opening typedLater
    (fun logged isOpening => Emission.inTable (List.mem_append_left _ isOpening)) isKnown with
    ⟨opened, declared⟩
  have event := opened.record typedLater
    (Emission.inTable (List.mem_append_right _ (List.mem_singleton.mpr rfl)))
    (fun name ofTrace => by
      rw [List.mem_singleton.mp ofTrace]
      exact declared)
  have sent : emission.isSent = true := rfl
  have built : emission.built = openingLogged kernel hostname library.channel.world.clockReads
    (library.registry.current kernel self) ++ [_] := rfl
  rw [Emission.entries_concat sent built, ← List.append_assoc, ← List.append_assoc]
  refine ⟨event.inOrder, event.covers, ?_⟩
  intro other otherInMap
  rcases (TraceRegistry.mem_entering wellFormed).mp otherInMap with rfl | ⟨old, -⟩
  · exact declared.append_left _
  · exact event.introduced other old

theorem Explains.afterCall (explains : Explains entries known library.registry)
    (wellFormed : library.registry.WellFormed) (typed : eventTypes <+: known)
    (hasTrace : (library.registry.traceFind (threadIdOf self)).isSome) :
    Explains
      (entries ++ (afterEmission kernel self classSignature operationSignature library).entries
        known)
      (Interning.internAll known (afterEmission kernel self classSignature operationSignature
        library).strings)
      ((library.registry.traceGet kernel self).2.leaving
        (library.registry.current kernel self).address KiekerTrace.leave 0
        (library.registry.current kernel self)) := by
  set emission := afterEmission kernel self classSignature operationSignature library
    with emissionEq
  have typedLater := typed.trans (Interning.prefix_internAll known emission.strings)
  have registered := explains.register emission.strings
  rcases Option.isSome_iff_exists.mp hasTrace with ⟨trace, found⟩
  rcases TraceRegistry.traceGet_of_some kernel found with ⟨sameMap, isCurrent⟩
  have inMap := (TraceRegistry.mem_of_traceFind found).1
  have declared := registered.introduced trace inMap
  have sent : emission.records = emission.built := rfl
  rw [sameMap, isCurrent, Emission.entries, sent, ← List.append_assoc]
  have event : Explains (entries ++ registryEntries known emission.strings ++
      emission.built.map (Logged.entry (Interning.internAll known emission.strings)))
      (Interning.internAll known emission.strings) library.registry := by
    apply registered.record typedLater (Emission.inTable List.mem_cons_self)
    intro name ofTrace
    rw [afterLogged, isCurrent] at ofTrace
    rw [List.mem_singleton.mp ofTrace]
    exact declared
  refine ⟨event.inOrder, event.covers, ?_⟩
  intro other otherInMap
  rcases (TraceRegistry.mem_leaving wellFormed TraceRegistry.keepsIdentity_leave inMap).mp
    otherInMap with ⟨rfl, -⟩ | ⟨old, -⟩
  · exact event.introduced trace inMap
  · exact event.introduced other old

end

/-- A plain call keeps up the explanation, if a thread that leaves an operation has a trace. -/
theorem Explains.call {call : PlainCall} (explains : Explains entries known library.registry)
    (wellFormed : library.registry.WellFormed) (typed : eventTypes <+: known)
    (hasTrace : call.HasTrace library.registry) :
    Explains (entries ++ (call.emission kernel hostname library).entries known)
      (Interning.internAll known (call.emission kernel hostname library).strings)
      (call.registry kernel library.registry) := by
  cases call with
  | before self classSignature operationSignature =>
      exact explains.beforeCall wellFormed typed
  | after self classSignature operationSignature =>
      exact explains.afterCall wellFormed typed hasTrace

end Kieker
