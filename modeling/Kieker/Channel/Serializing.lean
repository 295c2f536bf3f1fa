import Kieker.Channel.Interning
import Kieker.Model.Records

/-!
# What the serialisers do

A member of a record has fixed bytes once the table holds the strings that the
record uses. Serialising members appends those bytes to the buffer, and performs
the uses of strings on the way: the announcements reach the socket while the
record itself is still in the buffer.
-/

namespace Kieker

namespace Field

/-- The strings that a member refers to. -/
def strings : Field → List CString
  | .string value => [value]
  | _ => []

/-- The bytes of a member, given the table that its strings are in. -/
def bytes (table : List CString) : Field → List UInt8
  | .boolean value => [value]
  | .int32 value => int32Bytes value
  | .int64 value => int64Bytes value
  | .string value => int32Bytes (table.idxOf value)

/-- How many bytes a member takes. -/
def width : Field → ℕ
  | .boolean _ => 1
  | .int32 _ => 4
  | .int64 _ => 8
  | .string _ => 4

@[simp]
theorem length_bytes (table : List CString) (field : Field) :
    (field.bytes table).length = field.width := by
  cases field <;> simp [bytes, width]

/-- The bytes do not change when the table grows. -/
theorem bytes_of_prefix {table later : List CString} (grows : table <+: later) {field : Field}
    (known : ∀ string ∈ field.strings, string ∈ table) :
    field.bytes later = field.bytes table := by
  cases field with
  | boolean value => rfl
  | int32 value => rfl
  | int64 value => rfl
  | string value =>
      have inTable : value ∈ table := known value (List.mem_singleton.mpr rfl)
      rw [bytes, bytes, Interning.idxOf_of_prefix grows inTable]

/-- The bytes of members one after another. -/
def bytesAll (table : List CString) (fields : List Field) : List UInt8 :=
  fields.flatMap (bytes table)

/-- The strings of members, in order. -/
def stringsAll (fields : List Field) : List CString :=
  fields.flatMap strings

/-- How many bytes members take. -/
def widthAll (fields : List Field) : ℕ :=
  (fields.map width).sum

theorem widthAll_append (front back : List Field) :
    widthAll (front ++ back) = widthAll front + widthAll back := by
  simp [widthAll]

@[simp]
theorem length_bytesAll (table : List CString) (fields : List Field) :
    (bytesAll table fields).length = widthAll fields := by
  induction fields with
  | nil => rfl
  | cons field fields ih => simp_all [bytesAll, widthAll]

theorem bytesAll_of_prefix {table later : List CString} (grows : table <+: later)
    {fields : List Field} (known : ∀ string ∈ stringsAll fields, string ∈ table) :
    bytesAll later fields = bytesAll table fields := by
  apply List.flatMap_congr
  intro field field_mem
  apply bytes_of_prefix grows
  intro string string_mem
  exact known string (List.mem_flatMap.mpr ⟨field, field_mem, string_mem⟩)

end Field

variable {kernel : Kernel} {channel after : Channel} {known : List CString}

/-! ### One member -/

theorem serializeString_eq (buffer : Block) (offset : ℕ) (string : CString) :
    serializeString kernel buffer offset string channel =
      (lookupFindKeyByString kernel string channel).bind fun found =>
        (buffer.store offset (int32Bytes found.1)).map fun stored => (4, stored, found.2) := by
  simp only [serializeString, littleEndian_htonl, int32Bytes, Option.bind_eq_bind]
  congr 1
  funext found
  cases buffer.store offset (ByteOrder.bigEndian 4 (toUInt32 found.1)) <;> rfl

theorem serializeField_eq_some (serves : channel.Serves known) {buffer stored : Block}
    {offset size : ℕ} {field : Field}
    (done : serializeField kernel buffer offset field channel = some (size, stored, after)) :
    size = field.width ∧ Usable known field.strings ∧
      Channel.Interns kernel channel after known field.strings ∧
      buffer.Extends stored offset
        (field.bytes (Interning.internAll known field.strings)) := by
  cases field with
  | boolean value =>
      simp only [serializeField, serializeBoolean, Option.bind_eq_bind, Option.bind_eq_some_iff,
        Option.some.injEq, Prod.mk.injEq] at done
      rcases done with ⟨_, ⟨_, stores, rfl⟩, rfl, rfl, rfl⟩
      exact ⟨rfl, by simp [Usable, Field.strings], .refl serves, .of_store stores⟩
  | int32 value =>
      simp only [serializeField, serializeInt32_eq, Option.bind_eq_bind, Option.bind_eq_some_iff,
        Option.map_eq_some_iff, Option.some.injEq, Prod.mk.injEq] at done
      rcases done with ⟨_, ⟨_, stores, rfl⟩, rfl, rfl, rfl⟩
      exact ⟨rfl, by simp [Usable, Field.strings], .refl serves, .of_store stores⟩
  | int64 value =>
      simp only [serializeField, serializeInt64_eq, Option.bind_eq_bind, Option.bind_eq_some_iff,
        Option.map_eq_some_iff, Option.some.injEq, Prod.mk.injEq] at done
      rcases done with ⟨_, ⟨_, stores, rfl⟩, rfl, rfl, rfl⟩
      exact ⟨rfl, by simp [Usable, Field.strings], .refl serves, .of_store stores⟩
  | string value =>
      simp only [serializeField, serializeString_eq, Option.bind_eq_some_iff,
        Option.map_eq_some_iff, Prod.mk.injEq] at done
      rcases done with ⟨⟨key, found⟩, lookedUp, _, stores, rfl, rfl, rfl⟩
      rcases lookupFindKeyByString_eq_some serves lookedUp with ⟨usable, rfl, interns⟩
      refine ⟨rfl, ?_, interns, .of_store stores⟩
      intro string string_mem
      rw [Field.strings, List.mem_singleton] at string_mem
      rwa [string_mem]

theorem serializeField_isSome (kernel : Kernel) (buffer : Block) (offset : ℕ) (field : Field)
    (serves : channel.Serves known) (usable : Usable known field.strings)
    (room : offset + field.width ≤ buffer.size) :
    ∃ result, serializeField kernel buffer offset field channel = some result := by
  cases field with
  | boolean value =>
      obtain ⟨stored, stores⟩ := Block.store_isSome buffer offset [value] room
      simp [serializeField, serializeBoolean, stores]
  | int32 value =>
      obtain ⟨stored, stores⟩ := Block.store_isSome buffer offset (int32Bytes value)
        (by simpa [Field.width] using room)
      simp [serializeField, serializeInt32_eq, stores]
  | int64 value =>
      obtain ⟨stored, stores⟩ := Block.store_isSome buffer offset (int64Bytes value)
        (by simpa [Field.width] using room)
      simp [serializeField, serializeInt64_eq, stores]
  | string value =>
      obtain ⟨found, lookedUp, _⟩ := lookupFindKeyByString_of_fits kernel serves
        (usable value (List.mem_singleton.mpr rfl))
      obtain ⟨stored, stores⟩ := Block.store_isSome buffer offset
        (int32Bytes ((Interning.intern known value).idxOf value)) (by simpa [Field.width] using room)
      simp [serializeField, serializeString_eq, lookedUp, stores]

/-! ### All members -/

/-- Serialised members stand in the buffer with the numbers that the final table gives. -/
theorem serializeFields_eq_some (serves : channel.Serves known) {fields : List Field}
    {buffer stored : Block} {offset position : ℕ} (inside : offset ≤ buffer.size)
    (done : serializeFields kernel fields buffer offset channel =
      some (position, stored, after)) :
    position = offset + Field.widthAll fields ∧ Usable known (Field.stringsAll fields) ∧
      Channel.Interns kernel channel after known (Field.stringsAll fields) ∧
      buffer.Extends stored offset
        (Field.bytesAll (Interning.internAll known (Field.stringsAll fields)) fields) := by
  induction fields generalizing channel known buffer offset with
  | nil =>
      simp only [serializeFields, Option.some.injEq, Prod.mk.injEq] at done
      rcases done with ⟨rfl, rfl, rfl⟩
      exact ⟨rfl, by simp [Usable, Field.stringsAll], .refl serves, .refl inside⟩
  | cons field fields ih =>
      simp only [serializeFields, Option.bind_eq_bind, Option.bind_eq_some_iff] at done
      rcases done with ⟨⟨size, written, between⟩, first, rest⟩
      rcases serializeField_eq_some serves first with ⟨rfl, fieldUsable, interns, grown⟩
      have stillInside : offset + field.width ≤ written.size := by
        have room := grown.room
        rw [Field.length_bytes] at room
        rw [grown.size]
        exact room
      rcases ih interns.serves stillInside rest with
        ⟨positionEq, restUsable, restInterns, restExtends⟩
      have stringsEq : Field.stringsAll (field :: fields) =
          field.strings ++ Field.stringsAll fields := rfl
      have firstBytes : field.bytes
          (Interning.internAll known (field.strings ++ Field.stringsAll fields)) =
          field.bytes (Interning.internAll known field.strings) := by
        rw [Interning.internAll_append]
        apply Field.bytes_of_prefix (Interning.prefix_internAll _ _)
        intro string string_mem
        exact Interning.mem_internAll.mpr (Or.inr string_mem)
      refine ⟨?_, ?_, ?_, ?_⟩
      · rw [positionEq, Field.widthAll, Field.widthAll, List.map_cons, List.sum_cons]
        omega
      · rw [stringsEq]
        exact Usable.append fieldUsable restUsable
      · rw [stringsEq]
        exact interns.trans restInterns
      · have joined := grown.trans (by simpa using restExtends)
        rw [stringsEq, Field.bytesAll, List.flatMap_cons, firstBytes, Interning.internAll_append]
        exact joined

theorem serializeFields_isSome (kernel : Kernel) (fields : List Field) (buffer : Block)
    (offset : ℕ) (serves : channel.Serves known) (usable : Usable known (Field.stringsAll fields))
    (room : offset + Field.widthAll fields ≤ buffer.size) :
    ∃ result, serializeFields kernel fields buffer offset channel = some result := by
  induction fields generalizing channel known buffer offset with
  | nil => exact ⟨_, rfl⟩
  | cons field fields ih =>
      have total : Field.widthAll (field :: fields) = field.width + Field.widthAll fields := rfl
      have stringsEq : Field.stringsAll (field :: fields) =
          field.strings ++ Field.stringsAll fields := rfl
      obtain ⟨⟨size, written, between⟩, first⟩ := serializeField_isSome kernel buffer offset field serves
        (fun string string_mem => usable string (by simp [stringsEq, string_mem])) (by omega)
      rcases serializeField_eq_some serves first with ⟨rfl, _, interns, grown⟩
      have restUsable : Usable known (Field.stringsAll fields) :=
        fun string string_mem => usable string (by simp [stringsEq, string_mem])
      obtain ⟨result, rest⟩ := ih written (offset + field.width) interns.serves
        restUsable.internAll (by rw [grown.size]; omega)
      exact ⟨result, by simp [serializeFields, first, rest]⟩

end Kieker
