import Kieker.Channel.Uses
import Kieker.Model.CommonRecords
import Kieker.Wire.Receiver

/-!
# Round trips of the record serialisers

Every record without doubles is serialised into its own bytes and nothing else, and
what was serialised can be read back with the string table after the call. Records
serialised one behind the other give their encodings in order, whatever the later
ones add to the table. All of this holds as long as every string is in the table or
fits into the string buffer.
-/

namespace Kieker

/-! ### Only their own bytes -/

section Frame

variable {kernel : Kernel} {buffer stored : Block} {offset size position index : ℕ}
  {channel after : Channel}

theorem serializeField_byte {field : Field}
    (done : serializeField kernel buffer offset field channel = some (size, stored, after))
    (outside : index < offset ∨ offset + size ≤ index) :
    stored.byte index = buffer.byte index := by
  cases field with
  | boolean value =>
      simp only [serializeField, serializeBoolean, Option.bind_eq_bind, Option.bind_eq_some_iff,
        Option.some.injEq, Prod.mk.injEq] at done
      rcases done with ⟨_, ⟨_, stores, rfl⟩, rfl, rfl, rfl⟩
      exact Block.byte_store_of_outside stores outside
  | int32 value =>
      simp only [serializeField, serializeInt32_eq, Option.bind_eq_bind, Option.bind_eq_some_iff,
        Option.map_eq_some_iff, Option.some.injEq, Prod.mk.injEq] at done
      rcases done with ⟨_, ⟨_, stores, rfl⟩, rfl, rfl, rfl⟩
      exact Block.byte_store_of_outside stores (by simpa using outside)
  | int64 value =>
      simp only [serializeField, serializeInt64_eq, Option.bind_eq_bind, Option.bind_eq_some_iff,
        Option.map_eq_some_iff, Option.some.injEq, Prod.mk.injEq] at done
      rcases done with ⟨_, ⟨_, stores, rfl⟩, rfl, rfl, rfl⟩
      exact Block.byte_store_of_outside stores (by simpa using outside)
  | string value =>
      simp only [serializeField, serializeString_eq, Option.bind_eq_some_iff,
        Option.map_eq_some_iff, Prod.mk.injEq] at done
      rcases done with ⟨found, _, _, stores, rfl, rfl, rfl⟩
      exact Block.byte_store_of_outside stores (by simpa using outside)

/-- Serialising members changes no byte in front of them or behind them. -/
theorem serializeFields_byte {fields : List Field}
    (done : serializeFields kernel fields buffer offset channel = some (position, stored, after)) :
    offset ≤ position ∧ ∀ index, index < offset ∨ position ≤ index →
      stored.byte index = buffer.byte index := by
  induction fields generalizing buffer offset channel with
  | nil =>
      cases done
      exact ⟨le_rfl, fun _ _ => rfl⟩
  | cons field fields ih =>
      simp only [serializeFields, Option.bind_eq_bind, Option.bind_eq_some_iff] at done
      rcases done with ⟨⟨size, written, between⟩, first, rest⟩
      rcases ih rest with ⟨later, unchanged⟩
      refine ⟨by omega, fun index outside => ?_⟩
      rw [unchanged index (by omega)]
      exact serializeField_byte first (by omega)

theorem serializeFields_append (front back : List Field) :
    serializeFields kernel (front ++ back) buffer offset channel =
      (serializeFields kernel front buffer offset channel).bind fun middle =>
        serializeFields kernel back middle.2.1 middle.1 middle.2.2 := by
  induction front generalizing buffer offset channel with
  | nil => rfl
  | cons field front ih =>
      simp only [List.cons_append, serializeFields, Option.bind_eq_bind, Option.bind_assoc]
      apply Option.bind_congr
      rintro ⟨size, written, between⟩ _
      exact ih

end Frame

/-! ### Decoding -/

/-- The strings of a table by their numbers. -/
def Registry.ofTable (table : List CString) : Registry := fun id =>
  (table[id.toNat]?).map CString.bytes

/-- Reads members of some types from bytes, with the strings of a table. -/
def decodeMembers (table : List CString) (types : List FieldType) (bytes : List UInt8) :
    Option (List ReceivedMember) := do
  let (payload, _) ← (Payload.codec types).decode bytes
  (Registry.ofTable table).receivePayload types payload

namespace Field

/-- An integer is within the width of its type. -/
def Small : Field → Prop
  | .int32 value => -2 ^ 31 ≤ value ∧ value < 2 ^ 31
  | .int64 value => -2 ^ 63 ≤ value ∧ value < 2 ^ 63
  | _ => True

/-- A member with its exact value. -/
def recovered : Field → ReceivedMember
  | .boolean value => .boolean value
  | .int32 value => .int32 value
  | .int64 value => .int64 value
  | .string value => .string value.bytes

theorem received_of_small {field : Field} (small : field.Small) :
    field.received = field.recovered := by
  cases field with
  | boolean value => rfl
  | string value => rfl
  | int32 value =>
      have kept : toInt32 value = value := by
        unfold toInt32
        exact Int.bmod_eq_of_le_mul_two (by have := small.1; omega) (by have := small.2; omega)
      exact congrArg ReceivedMember.int32 kept
  | int64 value =>
      have kept : toInt64 value = value := by
        unfold toInt64
        exact Int.bmod_eq_of_le_mul_two (by have := small.1; omega) (by have := small.2; omega)
      exact congrArg ReceivedMember.int64 kept

end Field

section Decoding

variable {table : List CString} {fields : List Field}

theorem holds_ofTable (few : table.length ≤ 2 ^ 31) : (Registry.ofTable table).Holds table := by
  intro id string inTable
  have inside := (List.getElem?_eq_some_iff.mp inTable).1
  have number : (BitVec.ofNat 32 id).toNat = id := by
    rw [BitVec.toNat_ofNat]
    exact Nat.mod_eq_of_lt (by omega)
  rw [Registry.ofTable, number, inTable]
  rfl

/-- A decoder with the table recovers every member. -/
theorem decodeMembers_bytesAll (few : table.length ≤ 2 ^ 31)
    (inTable : ∀ string ∈ Field.stringsAll fields, string ∈ table)
    (small : ∀ field ∈ fields, field.Small) :
    decodeMembers table (fields.map Field.type) (Field.bytesAll table fields) =
      some (fields.map Field.recovered) := by
  have decoded := (Payload.codec (fields.map Field.type)).decode_encode
    (Field.payload table fields) []
  rw [List.append_nil, Field.encode_payload] at decoded
  rw [decodeMembers, decoded, Option.bind_eq_bind, Option.bind_some]
  refine (Registry.receivePayload_payload (holds_ofTable few) inTable).trans (congrArg some ?_)
  exact List.map_congr_left fun field field_mem => Field.received_of_small (small field field_mem)

end Decoding

/-! ### Records -/

namespace CommonRecord

/-- The strings of a record. -/
def strings (record : CommonRecord) : List CString :=
  Field.stringsAll record.fields

/-- The sum of the widths of the members. -/
def width (record : CommonRecord) : ℕ :=
  Field.widthAll record.fields

/-- The types of the members. -/
def types (record : CommonRecord) : List FieldType :=
  record.fields.map Field.type

/-- The members in network byte order, with strings replaced by their numbers. -/
def encode (table : List CString) (record : CommonRecord) : List UInt8 :=
  Field.bytesAll table record.fields

/-- Serialises records, each at the position that the one before it returned. -/
def serializeAll (kernel : Kernel) : List CommonRecord → Block → ℕ → Channel →
    Option (ℕ × Block × Channel)
  | [], buffer, position, channel => some (position, buffer, channel)
  | record :: records, buffer, position, channel => do
      let (position, buffer, channel) ← record.serialize kernel buffer position channel
      serializeAll kernel records buffer position channel

/-- The strings of records, in order. -/
def stringsAll (records : List CommonRecord) : List CString :=
  records.flatMap strings

/-- The sum of the widths of records. -/
def widthAll (records : List CommonRecord) : ℕ :=
  (records.map width).sum

/-- What records encode to one after another, each with the table after its own call. -/
def encodings (known : List CString) : List CommonRecord → List UInt8
  | [] => []
  | record :: records =>
      record.encode (Interning.internAll known record.strings) ++
        encodings (Interning.internAll known record.strings) records

/-- A record has been serialised into its own bytes, from which it can be read back. -/
structure RoundTrips (record : CommonRecord) (buffer : Block) (offset : ℕ) (position : ℕ)
    (stored : Block) (table : List CString) : Prop where
  /-- The returned position lies the sum of the widths behind the offset. -/
  position_eq : position = offset + record.width
  /-- No other byte is changed. -/
  frame : ∀ index, index < offset ∨ position ≤ index → stored.byte index = buffer.byte index
  /-- The bytes are the members in order. -/
  written : stored.bytesFrom offset record.width = record.encode table
  /-- A decoder with the table recovers every member. -/
  decoded : (∀ field ∈ record.fields, field.Small) →
    decodeMembers table record.types (stored.bytesFrom offset record.width) =
      some (record.fields.map Field.recovered)

/-- Records have been serialised one behind the other. -/
structure Concatenates (records : List CommonRecord) (known : List CString) (buffer : Block)
    (offset : ℕ) (position : ℕ) (stored : Block) (table : List CString) : Prop where
  position_eq : position = offset + widthAll records
  frame : ∀ index, index < offset ∨ position ≤ index → stored.byte index = buffer.byte index
  /-- The bytes are those that each record gets in its own call. -/
  written : stored.bytesFrom offset (widthAll records) = encodings known records
  /-- They are also the encodings with the last table. -/
  stable : encodings known records = records.flatMap (encode table)

/-- A record is serialised into its own bytes, and the table after the call recovers it. -/
def SerializesExactly (kernel : Kernel) (buffer : Block) (offset : ℕ) (record : CommonRecord)
    (channel : Channel) : Prop :=
  ∃ position stored after table,
    record.serialize kernel buffer offset channel = some (position, stored, after) ∧
      after.Serves table ∧ record.RoundTrips buffer offset position stored table

/-- Records are serialised one behind the other, without a change to the earlier ones. -/
def SerializesInOrder (kernel : Kernel) (known : List CString) (buffer : Block) (offset : ℕ)
    (records : List CommonRecord) (channel : Channel) : Prop :=
  ∃ position stored after table,
    serializeAll kernel records buffer offset channel = some (position, stored, after) ∧
      after.Serves table ∧ Concatenates records known buffer offset position stored table

variable {kernel : Kernel} {channel : Channel} {known : List CString} {buffer : Block} {offset : ℕ}

/-- A record is serialised so that it can be read back exactly if its strings can be used. -/
theorem serializesExactly_iff (serves : channel.Serves known) (record : CommonRecord)
    (room : offset + record.width ≤ buffer.size)
    (few : (Interning.internAll known record.strings).length ≤ 2 ^ 31) :
    SerializesExactly kernel buffer offset record channel ↔ Usable known record.strings := by
  constructor
  · rintro ⟨position, stored, after, table, done, -, -⟩
    exact (serializeFields_eq_some serves (by omega) done).2.1
  · intro usable
    rcases serializeFields_isSome kernel record.fields buffer offset serves usable room with
      ⟨⟨position, stored, after⟩, done⟩
    rcases serializeFields_eq_some serves (by omega) done with
      ⟨positionEq, -, interns, extends_⟩
    have written : stored.bytesFrom offset record.width =
        record.encode (Interning.internAll known record.strings) := by
      have parts := extends_.parts.2
      rwa [Field.length_bytesAll] at parts
    refine ⟨position, stored, after, _, done, interns.serves, positionEq,
      (serializeFields_byte done).2, written, fun small => ?_⟩
    rw [written]
    exact decodeMembers_bytesAll few
      (fun string string_mem => Interning.mem_internAll.mpr (Or.inr string_mem)) small

/-- Records one behind the other are members one behind the other. -/
theorem serializeAll_eq (records : List CommonRecord) (buffer : Block) (offset : ℕ)
    (channel : Channel) :
    serializeAll kernel records buffer offset channel =
      serializeFields kernel (records.flatMap CommonRecord.fields) buffer offset channel := by
  induction records generalizing buffer offset channel with
  | nil => rfl
  | cons record records ih =>
      rw [List.flatMap_cons, serializeFields_append, serializeAll, Option.bind_eq_bind, serialize]
      apply Option.bind_congr
      rintro ⟨position, stored, after⟩ _
      exact ih _ _ _

theorem stringsAll_flatMap (records : List CommonRecord) :
    Field.stringsAll (records.flatMap CommonRecord.fields) = stringsAll records := by
  rw [Field.stringsAll, List.flatMap_assoc]
  rfl

theorem widthAll_flatMap (records : List CommonRecord) :
    Field.widthAll (records.flatMap CommonRecord.fields) = widthAll records := by
  induction records with
  | nil => rfl
  | cons record records ih =>
      rw [List.flatMap_cons, Field.widthAll_append, ih]
      rfl

theorem bytesAll_flatMap (table : List CString) (records : List CommonRecord) :
    Field.bytesAll table (records.flatMap CommonRecord.fields) = records.flatMap (encode table) := by
  rw [Field.bytesAll, List.flatMap_assoc]
  rfl

/-- The encodings do not change when later records add to the table. -/
theorem encodings_eq (known : List CString) (records : List CommonRecord) :
    encodings known records =
      records.flatMap (encode (Interning.internAll known (stringsAll records))) := by
  induction records generalizing known with
  | nil => rfl
  | cons record records ih =>
      have split : stringsAll (record :: records) = record.strings ++ stringsAll records := rfl
      have first : record.encode (Interning.internAll known (stringsAll (record :: records))) =
          record.encode (Interning.internAll known record.strings) := by
        rw [split, Interning.internAll_append]
        apply Field.bytesAll_of_prefix (Interning.prefix_internAll _ _)
        intro string string_mem
        exact Interning.mem_internAll.mpr (Or.inr string_mem)
      rw [encodings, ih, List.flatMap_cons, first, split, Interning.internAll_append]

/-- Records are serialised one behind the other exactly if all their strings can be used. -/
theorem serializesInOrder_iff (serves : channel.Serves known) (records : List CommonRecord)
    (room : offset + widthAll records ≤ buffer.size) :
    SerializesInOrder kernel known buffer offset records channel ↔
      Usable known (stringsAll records) := by
  simp only [SerializesInOrder, serializeAll_eq]
  constructor
  · rintro ⟨position, stored, after, table, done, -, -⟩
    have usable := (serializeFields_eq_some serves (by omega) done).2.1
    rwa [stringsAll_flatMap] at usable
  · intro usable
    rw [← stringsAll_flatMap] at usable
    rcases serializeFields_isSome kernel (records.flatMap CommonRecord.fields) buffer offset
        serves usable (by rwa [widthAll_flatMap]) with ⟨⟨position, stored, after⟩, done⟩
    rcases serializeFields_eq_some serves (by omega) done with
      ⟨positionEq, -, interns, extends_⟩
    have written := extends_.parts.2
    rw [Field.length_bytesAll, widthAll_flatMap, bytesAll_flatMap, stringsAll_flatMap,
      ← encodings_eq] at written
    rw [widthAll_flatMap] at positionEq
    have servesAfter := interns.serves
    rw [stringsAll_flatMap] at servesAfter
    exact ⟨position, stored, after, _, done, servesAfter, positionEq,
      (serializeFields_byte done).2, written, encodings_eq known records⟩

/--
With room in the buffer, each record is serialised into its own bytes and can be
read back, and records one behind the other give their encodings in order, exactly
if every string is in the table or fits into the string buffer.
-/
theorem commonRecords_serialize_iff (kernel : Kernel) (serves : channel.Serves known) :
    (∀ (record : CommonRecord) (buffer : Block) (offset : ℕ),
      offset + record.width ≤ buffer.size →
        (Interning.internAll known record.strings).length ≤ 2 ^ 31 →
          (SerializesExactly kernel buffer offset record channel ↔
            ∀ string ∈ record.strings, string ∈ known ∨ string.length ≤ 8180)) ∧
      ∀ (records : List CommonRecord) (buffer : Block) (offset : ℕ),
        offset + widthAll records ≤ buffer.size →
          (SerializesInOrder kernel known buffer offset records channel ↔
            ∀ string ∈ stringsAll records, string ∈ known ∨ string.length ≤ 8180) := by
  have fits : ∀ string : CString, string.Fits ↔ string.length ≤ 8180 := by
    intro string
    unfold CString.Fits bufferSize
    omega
  simp only [← fits]
  exact ⟨fun record buffer offset room few => serializesExactly_iff serves record room few,
    fun records buffer offset room => serializesInOrder_iff serves records room⟩

/-- A record with two strings and negative numbers. -/
def construction : CommonRecord :=
  .constructionEvent 5 1 (-1) (.literal "Worker") (-7)

theorem construction_serialize_iff :
    SerializesExactly .accepting ⟨bufferSize, fun _ => 0⟩ 4 construction unusedChannel ↔
      ∀ string ∈ construction.strings, string ∈ [] ∨ string.length ≤ 8180 :=
  (commonRecords_serialize_iff .accepting serves_unusedChannel).1 construction _ _ (by decide)
    (by decide)

/-- A record with a new string of 8181 bytes is not serialised. -/
theorem not_serializesExactly_overlong :
    ¬∀ (kernel : Kernel) (buffer : Block) (offset : ℕ) (record : CommonRecord) (channel : Channel)
      (known : List CString), channel.Serves known → offset + record.width ≤ buffer.size →
        SerializesExactly kernel buffer offset record channel := by
  intro exactly
  have serializes := exactly .accepting ⟨bufferSize, fun _ => 0⟩ 4 (.activationEvent overlongString)
    unusedChannel [] serves_unusedChannel (by decide)
  rw [serializesExactly_iff serves_unusedChannel _ (by decide) (by decide)] at serializes
  rcases serializes overlongString (List.mem_singleton_self _) with old | fits
  · cases old
  · exact absurd fits (by decide +kernel)

end CommonRecord

end Kieker
