import Kieker.Wire.Entries
import Mathlib.Logic.Function.Basic

/-!
# The receiving side

A receiver reads the entries of a stream in order. It remembers the strings that
were registered and looks up the ids in every record; it gives up at an id that
no earlier entry has registered. What it makes of the entries of an emission are
the records that were sent, with integers reduced to the width of their type.
-/

namespace Kieker

/-- The value of a `long long` after a conversion from a wider type. -/
@[irreducible]
def toInt64 (value : ℤ) : ℤ := value.bmod (2 ^ 64)

/-- What a receiver makes of a member. -/
inductive ReceivedMember where
  | boolean (value : UInt8)
  | int32 (value : ℤ)
  | int64 (value : ℤ)
  | string (value : List UInt8)
  deriving DecidableEq

/-- What a receiver makes of a record. -/
structure ReceivedRecord where
  eventType : List UInt8
  timestamp : ℤ
  members : List ReceivedMember
  deriving DecidableEq

/-- The strings that were registered, by id. -/
abbrev Registry : Type := BitVec 32 → Option (List UInt8)

namespace Registry

/-- Nothing was registered. -/
def empty : Registry := fun _ => none

/-- Reads a member; a string is looked up. -/
def receiveMember (registry : Registry) : (type : FieldType) → type.Wire → Option ReceivedMember
  | .boolean, value => some (.boolean value)
  | .int32, value => some (.int32 (BitVec.toInt value))
  | .int64, value => some (.int64 (BitVec.toInt value))
  | .string, id => (registry id).map .string

/-- Reads the members of a record. -/
def receivePayload (registry : Registry) :
    (types : List FieldType) → Payload types → Option (List ReceivedMember)
  | [], _ => some []
  | type :: types, payload => do
      let member ← registry.receiveMember type payload.1
      let members ← receivePayload registry types payload.2
      some (member :: members)

/-- Reads entries in order: the strings registered at the end, and the records. -/
def receive : Registry → List Entry → Option (Registry × List ReceivedRecord)
  | registry, [] => some (registry, [])
  | registry, ⟨.registry, (id, string)⟩ :: entries =>
      receive (Function.update registry id (some string.1)) entries
  | registry, ⟨.record type, (timestamp, payload)⟩ :: entries => do
      let eventType ← registry (BitVec.ofNat 32 type.id)
      let members ← registry.receivePayload type.schema payload
      let (last, records) ← receive registry entries
      some (last, ⟨eventType, timestamp.toInt, members⟩ :: records)

theorem receive_append (registry : Registry) (front back : List Entry) :
    registry.receive (front ++ back) = (registry.receive front).bind fun middle =>
      (middle.1.receive back).map fun last => (last.1, middle.2 ++ last.2) := by
  induction front generalizing registry with
  | nil => simp [receive]
  | cons entry front ih =>
      rcases entry with ⟨type, body⟩
      cases type with
      | registry =>
          rcases body with ⟨id, string⟩
          exact ih _
      | record type =>
          rcases body with ⟨timestamp, payload⟩
          simp only [List.cons_append, receive, ih, Option.bind_eq_bind, Option.bind_assoc,
            Option.bind_some]
          cases registry (BitVec.ofNat 32 type.id) with
          | none => rfl
          | some eventType =>
              cases registry.receivePayload type.schema payload with
              | none => rfl
              | some members =>
                  cases registry.receive front with
                  | none => rfl
                  | some middle =>
                      simp only [Option.bind_some]
                      cases middle.1.receive back <;> rfl

/-- The strings of a table are registered under their numbers. -/
def Holds (registry : Registry) (table : List CString) : Prop :=
  ∀ (id : ℕ) (string : CString), table[id]? = some string →
    registry (BitVec.ofNat 32 id) = some string.bytes

theorem holds_empty : empty.Holds [] := by
  intro id string inTable
  cases inTable

theorem Holds.lookup {registry : Registry} {table : List CString} (holds : registry.Holds table)
    {string : CString} (inTable : string ∈ table) :
    registry (BitVec.ofNat 32 (table.idxOf string)) = some string.bytes :=
  holds _ _ (List.getElem?_idxOf inTable)

end Registry

/-! ### What the receiver makes of records -/

/-- A member as a receiver should see it. -/
def Field.received : Field → ReceivedMember
  | .boolean value => .boolean value
  | .int32 value => .int32 (toInt32 value)
  | .int64 value => .int64 (toInt64 value)
  | .string value => .string value.bytes

/-- A record as a receiver should see it. -/
def Logged.received (logged : Logged) : ReceivedRecord where
  eventType := logged.record.type.name.bytes
  timestamp := toInt64 logged.timestamp
  members := logged.record.fields.map Field.received

theorem toInt_ofInt32 (value : ℤ) : (BitVec.ofInt 32 value).toInt = toInt32 value := by
  rw [BitVec.toInt_ofInt, toInt32]

theorem toInt_ofInt64 (value : ℤ) : (BitVec.ofInt 64 value).toInt = toInt64 value := by
  rw [BitVec.toInt_ofInt, toInt64]

namespace Registry

variable {registry : Registry} {table known used : List CString}

theorem receiveMember_wire (holds : registry.Holds table) {field : Field}
    (inTable : ∀ string ∈ field.strings, string ∈ table) :
    registry.receiveMember field.type (field.wire table) = some field.received := by
  cases field with
  | boolean value => rfl
  | int32 value => exact congrArg (fun number => some (ReceivedMember.int32 number)) (toInt_ofInt32 value)
  | int64 value => exact congrArg (fun number => some (ReceivedMember.int64 number)) (toInt_ofInt64 value)
  | string value =>
      have found := holds.lookup (inTable value (List.mem_singleton.mpr rfl))
      simp only [Field.wire, Field.type, receiveMember, found, Option.map_some, Field.received]

theorem receivePayload_payload (holds : registry.Holds table) {fields : List Field}
    (inTable : ∀ string ∈ Field.stringsAll fields, string ∈ table) :
    registry.receivePayload (fields.map Field.type) (Field.payload table fields) =
      some (fields.map Field.received) := by
  induction fields with
  | nil => rfl
  | cons field fields ih =>
      have here : ∀ string ∈ field.strings, string ∈ table := fun string string_mem =>
        inTable string (by simp [Field.stringsAll, string_mem])
      have later : ∀ string ∈ Field.stringsAll fields, string ∈ table :=
        fun string string_mem => inTable string (by
          rw [Field.stringsAll, List.flatMap_cons]
          exact List.mem_append_right _ string_mem)
      have first := receiveMember_wire holds here
      calc registry.receivePayload ((field :: fields).map Field.type)
            (Field.payload table (field :: fields))
        _ = (registry.receiveMember field.type (field.wire table)).bind fun member =>
              (registry.receivePayload (fields.map Field.type) (Field.payload table fields)).bind
                fun members => some (member :: members) := rfl
        _ = some ((field :: fields).map Field.received) := by
            rw [first, ih later]
            rfl

theorem receivePayload_record (holds : registry.Holds table) (record : Record)
    (inTable : ∀ string ∈ Field.stringsAll record.fields, string ∈ table) :
    registry.receivePayload record.type.schema (record.payload table) =
      some (record.fields.map Field.received) := by
  cases record with
  | traceMetadata value => exact receivePayload_payload holds inTable
  | beforeOperationEvent value => exact receivePayload_payload holds inTable
  | afterOperationEvent value => exact receivePayload_payload holds inTable

/-- Records whose strings are registered are received as they were built. -/
theorem receive_records (holds : registry.Holds table) (typed : eventTypes <+: table)
    {built : List Logged} (inTable : ∀ string ∈ Logged.stringsAll built, string ∈ table) :
    registry.receive (built.map (Logged.entry table)) =
      some (registry, built.map Logged.received) := by
  induction built with
  | nil => rfl
  | cons logged built ih =>
      have stringsEq : Logged.stringsAll (logged :: built) =
          Field.stringsAll logged.record.fields ++ Logged.stringsAll built := by
        simp [Logged.stringsAll, Logged.membersAll, Logged.members, Field.stringsAll,
          Field.strings]
      have name : registry (BitVec.ofNat 32 logged.record.type.id) =
          some logged.record.type.name.bytes := by
        apply holds
        rcases typed with ⟨rest, rfl⟩
        exact (List.getElem?_append_left (logged.record.type.id_lt)).trans
          (RecordType.eventTypes_id logged.record.type)
      have members := receivePayload_record holds logged.record
        fun string string_mem => inTable string (by simp [stringsEq, string_mem])
      have later := ih fun string string_mem => inTable string (by simp [stringsEq, string_mem])
      have timestamp := toInt_ofInt64 logged.timestamp
      simp only [List.map_cons, Logged.entry, receive, name, members, later, timestamp,
        Option.bind_eq_bind, Option.bind_some, Logged.received]

theorem holds_update (holds : registry.Holds table) {string : CString}
    (room : table.length < 2 ^ 31) :
    Registry.Holds (Function.update registry (BitVec.ofNat 32 table.length) (some string.bytes))
      (table ++ [string]) := by
  intro id other inTable
  rcases Nat.lt_trichotomy id table.length with old | rfl | beyond
  · have different : BitVec.ofNat 32 id ≠ BitVec.ofNat 32 table.length := by
      intro same
      have sameNumber := congrArg BitVec.toNat same
      rw [BitVec.toNat_ofNat, BitVec.toNat_ofNat, Nat.mod_eq_of_lt (by omega),
        Nat.mod_eq_of_lt (by omega)] at sameNumber
      omega
    rw [List.getElem?_append_left old] at inTable
    rw [Function.update_of_ne different]
    exact holds id other inTable
  · rw [List.getElem?_append_right (le_refl _), Nat.sub_self] at inTable
    simp only [List.getElem?_cons_zero, Option.some.injEq] at inTable
    rw [Function.update_self, inTable]
  · rw [List.getElem?_eq_none (by simp; omega)] at inTable
    cases inTable

/-- The registry entries of some uses make the receiver's strings those of the later table. -/
theorem receive_registryEntries (holds : registry.Holds known) (usable : Usable known used)
    (few : (Interning.internAll known used).length ≤ 2 ^ 31) :
    ∃ last : Registry, registry.receive (registryEntries known used) = some (last, []) ∧
      last.Holds (Interning.internAll known used) := by
  induction used generalizing registry known with
  | nil => exact ⟨registry, rfl, holds⟩
  | cons string used ih =>
      have rest : Usable known used := fun other other_mem =>
        usable other (List.mem_cons_of_mem string other_mem)
      have laterUsable : Usable (Interning.intern known string) used :=
        @Usable.internAll known used [string] rest
      by_cases old : string ∈ known
      · have sameTable := Interning.intern_of_mem old
        have nothing : registryEntries known (string :: used) = registryEntries known used := by
          simp [registryEntries, Interning.announcements, Interning.announced, old, sameTable]
        rw [sameTable] at laterUsable
        rw [Interning.internAll_cons, sameTable] at few ⊢
        rw [nothing]
        exact ih holds laterUsable few
      · have newTable := Interning.intern_of_notMem old
        have oneEntry : registryEntries known (string :: used) =
            registryEntry known.length string :: registryEntries (known ++ [string]) used := by
          simp [registryEntries, Interning.announcements, Interning.announced, old, newTable]
        have short := ((usable string List.mem_cons_self).resolve_left old).length_le
        have grows := (Interning.prefix_internAll (known ++ [string]) used).length_le
        rw [newTable] at laterUsable
        rw [Interning.internAll_cons, newTable] at few ⊢
        have room : known.length < 2 ^ 31 := by
          rw [List.length_append, List.length_singleton] at grows
          omega
        rw [oneEntry, registryEntry, receive, CString.val_counted (by omega)]
        exact ih (holds_update holds room) laterUsable few

/-- The receiver gets from the entries of an emission the records that were sent. -/
theorem receive_entries (holds : registry.Holds known) (typed : eventTypes <+: known)
    {emission : Emission} (usable : Usable known emission.strings)
    (few : (Interning.internAll known emission.strings).length ≤ 2 ^ 31) :
    ∃ last : Registry, registry.receive (emission.entries known) =
        some (last, emission.records.map Logged.received) ∧
      last.Holds (Interning.internAll known emission.strings) := by
  rcases receive_registryEntries holds usable few with ⟨last, registered, lastHolds⟩
  refine ⟨last, ?_, lastHolds⟩
  have typedLater := typed.trans (Interning.prefix_internAll known emission.strings)
  have records : last.receive (emission.records.map
      (Logged.entry (Interning.internAll known emission.strings))) =
      some (last, emission.records.map Logged.received) := by
    apply receive_records lastHolds typedLater
    intro string string_mem
    apply Interning.mem_internAll.mpr
    right
    unfold Emission.records at string_mem
    split at string_mem
    · exact string_mem
    · cases string_mem
  rw [Emission.entries, receive_append, registered, Option.bind_some, records]
  rfl

end Registry

end Kieker
