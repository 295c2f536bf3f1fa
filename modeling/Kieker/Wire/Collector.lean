import Kieker.Library.Forests
import Kieker.Wire.Receiver
import Mathlib.Data.List.Dedup

/-!
# A collector of traces

A collector reads the bytes of a connection and nothing else. It sorts the records
by their trace, expects the metadata of a trace first and then its events, and grows
the forest of the operations in it. It may check that the events are numbered from
zero, or take them as they arrive. This is what the records are sent for; the
collector itself is not part of the repository.
-/

namespace Kieker

open Nesting

/-- An operation as it is named on the wire: its class signature and its own. -/
abbrev WireOperation := List UInt8 × List UInt8

/-- What a record says about its trace. -/
inductive Told where
  | opened
  | event (event : Event WireOperation) (orderIndex : ℤ)

/-- The trace of a record that was received, and what the record says about it. -/
def ReceivedRecord.told (record : ReceivedRecord) : Option (ℤ × Told) :=
  match record.members with
  | [.int64 traceId, .int64 _, .string _, .string _, .int64 _, .int32 _] =>
      if record.eventType = RecordType.traceMetadata.name.bytes then some (traceId, .opened)
      else none
  | [.int64 _, .int64 traceId, .int32 orderIndex, .string operation, .string classSignature] =>
      if record.eventType = RecordType.beforeOperationEvent.name.bytes then
        some (traceId, .event (.enter (classSignature, operation)) orderIndex)
      else if record.eventType = RecordType.afterOperationEvent.name.bytes then
        some (traceId, .event (.leave (classSignature, operation)) orderIndex)
      else none
  | _ => none

namespace Collector

/-- The events of a trace, which are numbered from `next` on. -/
def numberedEvents : ℤ → List Told → Option (List (Event WireOperation))
  | _, [] => some []
  | _, .opened :: _ => none
  | next, .event event orderIndex :: told =>
      if orderIndex = next then (numberedEvents (next + 1) told).map (event :: ·) else none

/-- The events of a trace, which is opened first. -/
def traceEvents : List Told → Option (List (Event WireOperation))
  | .opened :: told => numberedEvents 0 told
  | _ => none

/-- The events of a trace, whatever their numbers. -/
def arrivedEvents : List Told → Option (List (Event WireOperation))
  | .opened :: told => told.mapM fun one =>
      match one with
      | .opened => none
      | .event event _ => some event
  | _ => none

/-- What is said about a trace, in order. -/
def toldOf (id : ℤ) (told : List (ℤ × Told)) : List Told :=
  (told.filter fun one => one.1 = id).map Prod.snd

/-- The forest of every trace; none as long as the trace has an operation open. -/
def collectTold (read : List Told → Option (List (Event WireOperation)))
    (told : List (ℤ × Told)) : Option (List (ℤ × Option (Forest WireOperation))) :=
  (told.map Prod.fst).dedup.mapM fun id => do
    let events ← read (toldOf id told)
    some (id, Forest.grow events)

/-- The forests of all traces in a stream, with the events of each as `read` reads them. -/
def collect (read : List Told → Option (List (Event WireOperation))) (bytes : List UInt8) :
    Option (List (ℤ × Option (Forest WireOperation))) := do
  let entries ← Entry.codec.decodeAll bytes.length bytes
  let (_, records) ← Registry.empty.receive entries
  let told ← records.mapM ReceivedRecord.told
  collectTold read told

/-! ### Sorting by traces -/

variable {told : List (ℤ × Told)} {read : List Told → Option (List (Event WireOperation))}
  {eventsOf : ℤ → List (Event WireOperation)}

/-- If every trace can be read, the collector has the forest of each. -/
theorem collectTold_eq (reads : ∀ id ∈ told.map Prod.fst,
    read (toldOf id told) = some (eventsOf id)) :
    collectTold read told = some ((told.map Prod.fst).dedup.map fun id =>
      (id, Forest.grow (eventsOf id))) := by
  have each : ∀ ids : List ℤ, (∀ id ∈ ids, id ∈ told.map Prod.fst) →
      (ids.mapM fun id => do
        let events ← read (toldOf id told)
        some (id, Forest.grow events)) =
        some (ids.map fun id => (id, Forest.grow (eventsOf id))) := by
    intro ids inside
    induction ids with
    | nil => rfl
    | cons id ids ih =>
        rw [List.mapM_cons, reads id (inside id List.mem_cons_self),
          ih fun other isLater => inside other (List.mem_cons_of_mem id isLater)]
        rfl
  exact each _ fun id isTold => List.mem_dedup.mp isTold

theorem lookup_map_of_mem {Value : Type} {ids : List ℤ} (value : ℤ → Value) {id : ℤ}
    (isId : id ∈ ids) : (ids.map fun id => (id, value id)).lookup id = some (value id) := by
  induction ids with
  | nil => cases isId
  | cons first ids ih =>
      by_cases same : id = first
      · simp [same]
      · rcases List.mem_cons.mp isId with isFirst | isLater
        · exact absurd isFirst same
        · have notFirst : (id == first) = false := beq_eq_false_iff_ne.mpr same
          rw [List.map_cons, List.lookup_cons, notFirst]
          exact ih isLater

end Collector

end Kieker
