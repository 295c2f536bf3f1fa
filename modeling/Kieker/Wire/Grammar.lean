import Kieker.Library.Codec
import Kieker.Model.Controller
import Kieker.Model.Probes

/-!
# The wire format

A stream is a sequence of entries. An entry begins with a 32-bit word: `-1` for
a registry entry, and the type id for a record. A registry entry gives an id to a
string; a record consists of a logging timestamp and of the members that its type
prescribes, with strings given by their ids.
-/

namespace Kieker

/-- The types of record members. -/
inductive FieldType where
  | boolean
  | int32
  | int64
  | string
  deriving DecidableEq

/-- The values of a type on the wire; a string is an id. -/
def FieldType.Wire : FieldType → Type
  | .boolean => UInt8
  | .int32 => BitVec 32
  | .int64 => BitVec 64
  | .string => BitVec 32

/-- The bytes of a value on the wire. -/
def FieldType.codec : (type : FieldType) → Codec type.Wire
  | .boolean => Codec.byte
  | .int32 => Codec.word32
  | .int64 => Codec.word64
  | .string => Codec.word32

/-- The values of some types, one after another. -/
def Payload : List FieldType → Type
  | [] => Unit
  | type :: types => type.Wire × Payload types

/-- The bytes of values one after another. -/
def Payload.codec : (types : List FieldType) → Codec (Payload types)
  | [] => Codec.unit
  | type :: types => type.codec.pair (Payload.codec types)

/-- The types of records that the probes send. -/
inductive RecordType where
  | traceMetadata
  | beforeOperationEvent
  | afterOperationEvent
  deriving DecidableEq

namespace RecordType

/-- The id in front of a record. -/
def id : RecordType → ℕ
  | .traceMetadata => 0
  | .beforeOperationEvent => 1
  | .afterOperationEvent => 2

/-- The name under which a type is registered. -/
def name : RecordType → CString
  | .traceMetadata => .literal "kieker.common.record.flow.trace.TraceMetadata"
  | .beforeOperationEvent => .literal "kieker.common.record.flow.trace.operation.BeforeOperationEvent"
  | .afterOperationEvent => .literal "kieker.common.record.flow.trace.operation.AfterOperationEvent"

/-- The types of the members of a record. -/
def schema : RecordType → List FieldType
  | .traceMetadata => [.int64, .int64, .string, .string, .int64, .int32]
  | .beforeOperationEvent => [.int64, .int64, .int32, .string, .string]
  | .afterOperationEvent => [.int64, .int64, .int32, .string, .string]

theorem id_lt (type : RecordType) : type.id < 3 := by
  cases type <;> decide

/-- The event types are registered under the ids that the records carry. -/
theorem eventTypes_id (type : RecordType) : eventTypes[type.id]? = some type.name := by
  cases type <;> rfl

end RecordType

/-- What an entry begins with. -/
inductive EntryType where
  | registry
  | record (type : RecordType)
  deriving DecidableEq

namespace EntryType

/-- The word that an entry begins with. -/
def word : EntryType → BitVec 32
  | .registry => BitVec.ofInt 32 (-1)
  | .record type => BitVec.ofNat 32 type.id

/-- The entry type that a word stands for. -/
def ofWord (word : BitVec 32) : Option EntryType :=
  if word = BitVec.ofInt 32 (-1) then some .registry
  else if word = 0 then some (.record .traceMetadata)
  else if word = 1 then some (.record .beforeOperationEvent)
  else if word = 2 then some (.record .afterOperationEvent)
  else none

theorem ofWord_word (type : EntryType) : ofWord type.word = some type := by
  rcases type with _ | (_ | _ | _) <;> rfl

theorem word_ofWord {word : BitVec 32} {type : EntryType} (read : ofWord word = some type) :
    type.word = word := by
  unfold ofWord at read
  split at read
  · cases read
    symm
    assumption
  · split at read
    · cases read
      symm
      assumption
    · split at read
      · cases read
        symm
        assumption
      · split at read
        · cases read
          symm
          assumption
        · cases read

/-- What follows the first word of an entry. -/
def Body : EntryType → Type
  | .registry => BitVec 32 × Codec.Counted
  | .record type => BitVec 64 × Payload type.schema

/-- The bytes that follow the first word of an entry. -/
def codec : (type : EntryType) → Codec type.Body
  | .registry => Codec.word32.pair Codec.counted
  | .record type => Codec.word64.pair (Payload.codec type.schema)

end EntryType

/-- A registry entry or a record on the wire. -/
abbrev Entry : Type := Σ type : EntryType, type.Body

namespace Entry

/-- The bytes of an entry. -/
def codec : Codec Entry :=
  (Codec.word32.restrict EntryType.word EntryType.ofWord EntryType.ofWord_word
    EntryType.word_ofWord).sigma EntryType.codec

theorem encode_eq (entry : Entry) : codec.encode entry =
    Codec.word32.encode entry.1.word ++ (EntryType.codec entry.1).encode entry.2 := rfl

theorem encode_ne_nil (entry : Entry) : codec.encode entry ≠ [] := by
  intro empty
  have length := congrArg List.length empty
  rw [encode_eq, List.length_append, Codec.length_encode_word32] at length
  simp only [List.length_nil] at length
  omega

theorem encodeAll_injective : Function.Injective codec.encodeAll :=
  codec.encodeAll_injective encode_ne_nil

end Entry

end Kieker
