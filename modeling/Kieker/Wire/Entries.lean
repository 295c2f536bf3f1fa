import Kieker.Channel.Emitting
import Kieker.Wire.Grammar

/-!
# The entries of an emission

The bytes that a probe call offers to the socket are the encodings of entries:
one registry entry for each new string, and one record for each record sent.
-/

namespace Kieker

theorem encode_word32_ofInt (value : ℤ) :
    Codec.word32.encode (BitVec.ofInt 32 value) = int32Bytes value := by
  have sameNumber : (BitVec.ofInt 32 value).toNat = toUInt32 value := BitVec.toNat_ofInt value
  rw [int32Bytes, ← sameNumber]
  rfl

theorem encode_word32_ofNat (value : ℕ) :
    Codec.word32.encode (BitVec.ofNat 32 value) = int32Bytes value := by
  rw [← encode_word32_ofInt, BitVec.ofInt_natCast]

theorem encode_word64_ofInt (value : ℤ) :
    Codec.word64.encode (BitVec.ofInt 64 value) = int64Bytes value := by
  have sameNumber : (BitVec.ofInt 64 value).toNat = toUInt64 value := BitVec.toNat_ofInt value
  rw [int64Bytes, ← sameNumber]
  rfl

namespace Field

/-- The type of a member. -/
def type : Field → FieldType
  | .boolean _ => .boolean
  | .int32 _ => .int32
  | .int64 _ => .int64
  | .string _ => .string

/-- The value of a member on the wire, given the table that its strings are in. -/
def wire (table : List CString) : (field : Field) → field.type.Wire
  | .boolean value => value
  | .int32 value => BitVec.ofInt 32 value
  | .int64 value => BitVec.ofInt 64 value
  | .string value => BitVec.ofNat 32 (table.idxOf value)

theorem encode_wire (table : List CString) (field : Field) :
    field.type.codec.encode (field.wire table) = field.bytes table := by
  cases field with
  | boolean value => rfl
  | int32 value => exact encode_word32_ofInt value
  | int64 value => exact encode_word64_ofInt value
  | string value => exact encode_word32_ofNat (table.idxOf value)

/-- The value does not change when the table grows. -/
theorem wire_of_prefix {table later : List CString} (grows : table <+: later) {field : Field}
    (inTable : ∀ string ∈ field.strings, string ∈ table) : field.wire later = field.wire table := by
  cases field with
  | boolean value => rfl
  | int32 value => rfl
  | int64 value => rfl
  | string value =>
      rw [wire, wire, Interning.idxOf_of_prefix grows (inTable value (List.mem_singleton.mpr rfl))]

/-- The values of members on the wire. -/
def payload (table : List CString) : (fields : List Field) → Payload (fields.map type)
  | [] => ()
  | field :: fields => (field.wire table, payload table fields)

theorem encode_payload (table : List CString) (fields : List Field) :
    (Payload.codec (fields.map type)).encode (payload table fields) = bytesAll table fields := by
  induction fields with
  | nil => rfl
  | cons field fields ih =>
      calc (Payload.codec ((field :: fields).map type)).encode (payload table (field :: fields))
        _ = field.type.codec.encode (field.wire table) ++
              (Payload.codec (fields.map type)).encode (payload table fields) := rfl
        _ = bytesAll table (field :: fields) := by
            rw [encode_wire, ih]
            rfl

theorem payload_of_prefix {table later : List CString} (grows : table <+: later)
    {fields : List Field} (inTable : ∀ string ∈ stringsAll fields, string ∈ table) :
    payload later fields = payload table fields := by
  induction fields with
  | nil => rfl
  | cons field fields ih =>
      have here : field.wire later = field.wire table :=
        wire_of_prefix grows fun string isUsed =>
          inTable string (List.mem_append_left (stringsAll fields) isUsed)
      have rest : payload later fields = payload table fields :=
        ih fun string isUsed => inTable string (List.mem_append_right field.strings isUsed)
      exact congrArg₂ Prod.mk here rest

end Field

namespace Record

/-- The type of a record. -/
def type : Record → RecordType
  | .traceMetadata _ => .traceMetadata
  | .beforeOperationEvent _ => .beforeOperationEvent
  | .afterOperationEvent _ => .afterOperationEvent

theorem flowId_eq (record : Record) : record.flowId = record.type.id := by
  cases record <;> rfl

/-- The members of a record on the wire. -/
def payload (table : List CString) : (record : Record) → Payload record.type.schema
  | .traceMetadata value => Field.payload table value.fields
  | .beforeOperationEvent value => Field.payload table value.fields
  | .afterOperationEvent value => Field.payload table value.fields

theorem encode_payload (table : List CString) (record : Record) :
    (Payload.codec record.type.schema).encode (record.payload table) =
      Field.bytesAll table record.fields := by
  cases record with
  | traceMetadata value => exact Field.encode_payload table value.fields
  | beforeOperationEvent value => exact Field.encode_payload table value.fields
  | afterOperationEvent value => exact Field.encode_payload table value.fields

theorem payload_of_prefix {table later : List CString} (grows : table <+: later) {record : Record}
    (inTable : ∀ string ∈ Field.stringsAll record.fields, string ∈ table) :
    record.payload later = record.payload table := by
  cases record with
  | traceMetadata value => exact Field.payload_of_prefix grows inTable
  | beforeOperationEvent value => exact Field.payload_of_prefix grows inTable
  | afterOperationEvent value => exact Field.payload_of_prefix grows inTable

end Record

namespace Logged

/-- A record as an entry on the wire. -/
def entry (table : List CString) (logged : Logged) : Entry :=
  ⟨.record logged.record.type,
    (BitVec.ofInt 64 logged.timestamp, logged.record.payload table)⟩

theorem encode_entry (table : List CString) (logged : Logged) :
    Entry.codec.encode (logged.entry table) = Field.bytesAll table logged.members := by
  have flow : int32Bytes logged.record.type.id = int32Bytes logged.record.flowId := by
    rw [Record.flowId_eq]
  have payload := Record.encode_payload table logged.record
  calc Entry.codec.encode (logged.entry table)
    _ = Codec.word32.encode (BitVec.ofNat 32 logged.record.type.id) ++
          (Codec.word64.encode (BitVec.ofInt 64 logged.timestamp) ++
            (Payload.codec logged.record.type.schema).encode (logged.record.payload table)) := rfl
    _ = int32Bytes logged.record.flowId ++ (int64Bytes logged.timestamp ++
          Field.bytesAll table logged.record.fields) := by
        rw [encode_word32_ofNat, encode_word64_ofInt, payload, flow]
    _ = Field.bytesAll table logged.members := by
        simp [members, Field.bytesAll, Field.bytes]

theorem encodeAll_entries (table : List CString) (built : List Logged) :
    Entry.codec.encodeAll (built.map (entry table)) = bytesAll table built := by
  induction built with
  | nil => rfl
  | cons logged built ih =>
      rw [List.map_cons, Codec.encodeAll_cons, encode_entry, ih]
      simp [bytesAll, membersAll, Field.bytesAll]

theorem stringsAll_append (front back : List Logged) :
    stringsAll (front ++ back) = stringsAll front ++ stringsAll back := by
  rw [stringsAll, membersAll_append, Field.stringsAll, List.flatMap_append]
  rfl

theorem mem_stringsAll {logged : Logged} {built : List Logged} {string : CString}
    (isBuilt : logged ∈ built) (used : string ∈ Field.stringsAll logged.record.fields) :
    string ∈ stringsAll built := by
  rw [Field.stringsAll, List.mem_flatMap] at used
  rcases used with ⟨field, isMember, string_mem⟩
  refine List.mem_flatMap.mpr ⟨field, List.mem_flatMap.mpr ⟨logged, isBuilt, ?_⟩, string_mem⟩
  exact List.mem_cons_of_mem _ (List.mem_cons_of_mem _ isMember)

/-- Records whose strings have their indices keep their entries when the table grows. -/
theorem map_entry_of_prefix {table later : List CString} (grows : table <+: later)
    {built : List Logged} (inTable : ∀ string ∈ stringsAll built, string ∈ table) :
    built.map (entry later) = built.map (entry table) := by
  apply List.map_congr_left
  intro logged isBuilt
  rw [entry, entry, Record.payload_of_prefix grows fun string used =>
    inTable string (mem_stringsAll isBuilt used)]

end Logged

/-! ### Registry entries -/

/-- The bytes of a string with their number, for a string that is not too long. -/
def CString.counted (string : CString) : Codec.Counted :=
  if short : string.bytes.length < 2 ^ 31 then ⟨string.bytes, short⟩ else ⟨[], by norm_num⟩

theorem CString.val_counted {string : CString} (short : string.length < 2 ^ 31) :
    string.counted.1 = string.bytes := by
  have shortBytes : string.bytes.length < 2 ^ 31 := short
  rw [counted, dif_pos shortBytes]

/-- The registry entry that gives an id to a string. -/
def registryEntry (id : ℕ) (string : CString) : Entry :=
  ⟨.registry, (BitVec.ofNat 32 id, string.counted)⟩

theorem encode_registryEntry {id : ℕ} {string : CString} (short : string.length < 2 ^ 31) :
    Entry.codec.encode (registryEntry id string) = registryBytes id string.bytes := by
  calc Entry.codec.encode (registryEntry id string)
    _ = Codec.word32.encode (BitVec.ofInt 32 (-1)) ++
          (Codec.word32.encode (BitVec.ofNat 32 id) ++
            (Codec.word32.encode (BitVec.ofNat 32 string.counted.1.length) ++
              string.counted.1)) := rfl
    _ = registryBytes id string.bytes := by
        rw [encode_word32_ofInt, encode_word32_ofNat, encode_word32_ofNat,
          CString.val_counted short]
        simp [registryBytes]

/-- The registry entries that some uses of strings add to the stream. -/
def registryEntries (known used : List CString) : List Entry :=
  (Interning.announcements known used).map fun announced =>
    registryEntry announced.2 announced.1

/-- Only strings that are new, and therefore fit, are announced. -/
theorem fits_of_announced {known used : List CString} (usable : Usable known used)
    {announced : CString × ℕ} (isAnnounced : announced ∈ Interning.announcements known used) :
    announced.1.Fits := by
  rcases Interning.mem_of_announced isAnnounced with ⟨new, isUsed⟩
  exact (usable announced.1 isUsed).resolve_left new

theorem map_encode_registryEntries {known used : List CString} (usable : Usable known used) :
    (registryEntries known used).map Entry.codec.encode = registryPieces known used := by
  rw [registryEntries, List.map_map]
  apply List.map_congr_left
  intro announced isAnnounced
  apply encode_registryEntry
  have short := (fits_of_announced usable isAnnounced).length_le
  omega

theorem encodeAll_registryEntries {known used : List CString} (usable : Usable known used) :
    Entry.codec.encodeAll (registryEntries known used) = (registryPieces known used).flatten := by
  rw [← map_encode_registryEntries usable]
  rfl

/-! ### Emissions -/

/-- The entries that an emission adds to the stream. -/
def Emission.entries (known : List CString) (emission : Emission) : List Entry :=
  registryEntries known emission.strings ++
    emission.records.map (Logged.entry (Interning.internAll known emission.strings))

theorem Emission.encodeAll_entries {known : List CString} {emission : Emission}
    (usable : Usable known emission.strings) :
    Entry.codec.encodeAll (emission.entries known) = (emission.pieces known).flatten := by
  rw [entries, pieces, Codec.encodeAll_append, encodeAll_registryEntries usable,
    Logged.encodeAll_entries, List.flatten_append, records]
  by_cases sent : emission.isSent = true <;> simp [sent, Logged.bytesAll, Logged.membersAll,
    Field.bytesAll]

/-! ### Streams of offers -/

/-- Whether an entry is a record. -/
def Entry.isRecord (entry : Entry) : Bool :=
  match entry.1 with
  | .registry => false
  | .record _ => true

/--
What some calls offer on a descriptor are entries. Their records are those sent, and
their strings are the indices that these have in one table.
-/
def Carries (table : List CString) (descriptor : ℤ) (calls : List Syscall) (sent : List Logged) :
    Prop :=
  (∀ string ∈ Logged.stringsAll sent, string ∈ table) ∧
    ∃ entries, Entry.codec.encodeAll entries = offeredTo descriptor calls ∧
      entries.filter Entry.isRecord = sent.map (Logged.entry table)

theorem filter_registryEntries (known used : List CString) :
    (registryEntries known used).filter Entry.isRecord = [] := by
  rw [List.filter_eq_nil_iff]
  intro entry entry_mem
  rcases List.mem_map.mp entry_mem with ⟨announced, -, rfl⟩
  exact Bool.false_ne_true

theorem filter_map_entry (table : List CString) (built : List Logged) :
    (built.map (Logged.entry table)).filter Entry.isRecord = built.map (Logged.entry table) := by
  rw [List.filter_eq_self]
  intro entry entry_mem
  rcases List.mem_map.mp entry_mem with ⟨logged, -, rfl⟩
  rfl

theorem Carries.nil (table : List CString) (descriptor : ℤ) : Carries table descriptor [] [] :=
  ⟨fun _ isUsed => absurd isUsed List.not_mem_nil, [], rfl, rfl⟩

theorem Emission.mem_strings_of_records {emission : Emission} {string : CString}
    (isUsed : string ∈ Logged.stringsAll emission.records) : string ∈ emission.strings := by
  unfold records at isUsed
  split at isUsed
  · exact isUsed
  · exact absurd isUsed List.not_mem_nil

/-- The table grows with an emission, and the entries written before keep their meaning. -/
theorem Carries.emit {descriptor : ℤ} {calls : List Syscall} {sent : List Logged}
    {known : List CString} {emission : Emission} (carries : Carries known descriptor calls sent)
    (usable : Usable known emission.strings) (kernel : Kernel) (index : ℕ) :
    Carries (Interning.internAll known emission.strings) descriptor
      (calls ++ kernel.offers descriptor index (emission.pieces known))
      (sent ++ emission.records) := by
  rcases carries with ⟨inTable, entries, encoded, records⟩
  refine ⟨?_, entries ++ emission.entries known, ?_, ?_⟩
  · intro string isUsed
    rw [Logged.stringsAll_append, List.mem_append] at isUsed
    exact Interning.mem_internAll.mpr
      (isUsed.imp (inTable string) Emission.mem_strings_of_records)
  · rw [Codec.encodeAll_append, encoded, offeredTo_append, Kernel.offeredTo_offers,
      Emission.encodeAll_entries usable]
  · rw [List.filter_append, Emission.entries, List.filter_append, filter_registryEntries,
      filter_map_entry, List.nil_append, records, List.map_append,
      Logged.map_entry_of_prefix (Interning.prefix_internAll known emission.strings) inTable]

/-- An emission goes on with what the log of a channel carries since some start. -/
theorem Channel.Emits.carries {kernel : Kernel} {before after : Channel} {known : List CString}
    {emission : Emission} {log made : List Syscall} {descriptor : ℤ} {sent : List Logged}
    (emits : before.Emits kernel after known emission)
    (socket : before.controller.socket = descriptor) (logEq : before.world.log = log ++ made)
    (carries : Carries known descriptor made sent) :
    ∃ later, after.world.log = log ++ later ∧
      Carries (Interning.internAll known emission.strings) descriptor later
        (sent ++ emission.records) := by
  refine ⟨_, ?_, carries.emit emits.usable kernel before.world.log.length⟩
  rw [emits.log, Kernel.offerAll_eq_append, socket, logEq, List.append_assoc]

end Kieker
