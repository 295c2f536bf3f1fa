import Kieker.Library.Scoping
import Kieker.Wire.Entries

/-!
# What the entries of a stream rely on

A record relies on entries in front of it: its type and its strings are given by
ids that registry entries define, and an operation event belongs to a trace that
a metadata record introduces. A stream on which every such name is declared
before it is used can be read on its own.
-/

namespace Kieker

/-- What an entry can declare or use: the id of a string, or the id of a trace. -/
inductive WireName where
  | string (id : BitVec 32)
  | trace (id : BitVec 64)
  deriving DecidableEq

/-- The ids of strings in a value. -/
def FieldType.stringIds : (type : FieldType) → type.Wire → List (BitVec 32)
  | .boolean, _ => []
  | .int32, _ => []
  | .int64, _ => []
  | .string, id => [id]

/-- The ids of strings in the members of a record. -/
def Payload.stringIds : (types : List FieldType) → Payload types → List (BitVec 32)
  | [], _ => []
  | type :: types, payload => type.stringIds payload.1 ++ stringIds types payload.2

namespace RecordType

/-- The traces that a record introduces. -/
def introduces : (type : RecordType) → Payload type.schema → List WireName
  | .traceMetadata, payload => [.trace payload.1]
  | .beforeOperationEvent, _ => []
  | .afterOperationEvent, _ => []

/-- The traces that a record belongs to. -/
def belongsTo : (type : RecordType) → Payload type.schema → List WireName
  | .traceMetadata, _ => []
  | .beforeOperationEvent, payload => [.trace payload.2.1]
  | .afterOperationEvent, payload => [.trace payload.2.1]

end RecordType

namespace Entry

/-- What an entry declares. -/
def declares : Entry → List WireName
  | ⟨.registry, id, _⟩ => [.string id]
  | ⟨.record type, _, payload⟩ => type.introduces payload

/-- What an entry uses: the id of its type, those of its strings, and its trace. -/
def uses : Entry → List WireName
  | ⟨.registry, _⟩ => []
  | ⟨.record type, _, payload⟩ =>
      (BitVec.ofNat 32 type.id :: payload.stringIds type.schema).map .string ++
        type.belongsTo payload

end Entry

/-- The bytes are entries on which every name is declared before it is used. -/
def SelfContained (bytes : List UInt8) : Prop :=
  ∃ entries, Entry.codec.encodeAll entries = bytes ∧
    WellScoped Entry.declares Entry.uses entries

theorem selfContained_nil : SelfContained [] :=
  ⟨[], rfl, .nil⟩

/-- The only entries that the bytes can stand for decide. -/
theorem selfContained_encodeAll {entries : List Entry} :
    SelfContained (Entry.codec.encodeAll entries) ↔
      WellScoped Entry.declares Entry.uses entries := by
  constructor
  · rintro ⟨others, same, inOrder⟩
    rw [← Entry.encodeAll_injective same]
    exact inOrder
  · intro inOrder
    exact ⟨entries, rfl, inOrder⟩

/-! ### Strings -/

/-- The ids of all strings in a table are declared. -/
def Covers (entries : List Entry) (table : List CString) : Prop :=
  ∀ id < table.length, Declared Entry.declares entries (.string (BitVec.ofNat 32 id))

namespace Covers

variable {entries : List Entry} {known used table : List CString}

theorem nil (entries : List Entry) : Covers entries [] := by
  intro id inside
  simp at inside

theorem append (covers : Covers entries table) (more : List Entry) :
    Covers (entries ++ more) table :=
  fun id inside => (covers id inside).append_left more

/-- With the registry entries of some uses the ids of the later table are declared. -/
theorem registryEntries (covers : Covers entries known) (used : List CString) :
    Covers (entries ++ registryEntries known used) (Interning.internAll known used) := by
  intro id inside
  rcases Nat.lt_or_ge id known.length with earlier | added
  · exact (covers id earlier).append_left _
  · have isAnnounced : ((Interning.internAll known used)[id], id) ∈
        Interning.announcements known used :=
      Interning.mem_announcements.mpr ⟨added, List.getElem?_eq_getElem inside⟩
    exact ⟨registryEntry id (Interning.internAll known used)[id],
      List.mem_append_right _ (List.mem_map_of_mem isAnnounced), List.mem_singleton.mpr rfl⟩

end Covers

theorem uses_registryEntries {known used : List CString} {entry : Entry}
    (isEntry : entry ∈ registryEntries known used) : entry.uses = [] := by
  rcases List.mem_map.mp isEntry with ⟨announced, -, rfl⟩
  rfl

theorem Field.stringIds_payload (table : List CString) (fields : List Field) :
    (Field.payload table fields).stringIds (fields.map Field.type) =
      (Field.stringsAll fields).map fun string => BitVec.ofNat 32 (table.idxOf string) := by
  induction fields with
  | nil => rfl
  | cons field fields ih =>
      have here : field.type.stringIds (field.wire table) =
          field.strings.map fun string => BitVec.ofNat 32 (table.idxOf string) := by
        cases field <;> rfl
      calc (Field.payload table (field :: fields)).stringIds ((field :: fields).map Field.type)
        _ = field.type.stringIds (field.wire table) ++
              (Field.payload table fields).stringIds (fields.map Field.type) := rfl
        _ = (Field.stringsAll (field :: fields)).map
              fun string => BitVec.ofNat 32 (table.idxOf string) := by
            have all : Field.stringsAll (field :: fields) =
                field.strings ++ Field.stringsAll fields := rfl
            rw [here, ih, all, List.map_append]

theorem Record.stringIds_payload (table : List CString) (record : Record) :
    (record.payload table).stringIds record.type.schema =
      (Field.stringsAll record.fields).map fun string =>
        BitVec.ofNat 32 (table.idxOf string) := by
  cases record with
  | traceMetadata value => exact Field.stringIds_payload table value.fields
  | beforeOperationEvent value => exact Field.stringIds_payload table value.fields
  | afterOperationEvent value => exact Field.stringIds_payload table value.fields

/-! ### Records -/

/-- The name of a trace on the wire. -/
def traceName (traceId : ℤ) : WireName := .trace (BitVec.ofInt 64 traceId)

/-- The traces that a record relies on. -/
def Record.traces : Record → List WireName
  | .traceMetadata _ => []
  | .beforeOperationEvent value => [traceName value.traceId]
  | .afterOperationEvent value => [traceName value.traceId]

/-- What a record uses is in a table that begins with the event types, or is its trace. -/
theorem Logged.uses_entry {table : List CString} {logged : Logged} {name : WireName}
    (typed : eventTypes <+: table)
    (inTable : ∀ string ∈ Field.stringsAll logged.record.fields, string ∈ table)
    (used : name ∈ (logged.entry table).uses) :
    (∃ id < table.length, name = .string (BitVec.ofNat 32 id)) ∨ name ∈ logged.record.traces := by
  simp only [Logged.entry, Entry.uses, List.mem_append, List.mem_map, List.mem_cons] at used
  rcases used with ⟨id, rfl | isString, rfl⟩ | ofTrace
  · have few : eventTypes.length = 3 := rfl
    have longer := typed.length_le
    have small := logged.record.type.id_lt
    exact Or.inl ⟨logged.record.type.id, by omega, rfl⟩
  · rw [Record.stringIds_payload, List.mem_map] at isString
    rcases isString with ⟨string, string_mem, rfl⟩
    exact Or.inl ⟨_, List.idxOf_lt_length_iff.mpr (inTable string string_mem), rfl⟩
  · right
    rcases logged with ⟨timestamp, record⟩
    cases record with
    | traceMetadata value => cases ofTrace
    | beforeOperationEvent value => exact ofTrace
    | afterOperationEvent value => exact ofTrace

end Kieker
