import Kieker.Library.ByteOrder
import Mathlib.Tactic.Linarith

/-!
# Self-delimiting codecs

A codec pairs an encoder with a decoder that reads one value off the front of a
byte string and returns the rest. Its two laws say that the decoder accepts
exactly the encodings, so a codec is unambiguous inside any longer stream. The
combinators below keep the laws, and `encodeAll_injective` lifts them from one
value to a whole stream.
-/

universe u

/-- An encoder and a decoder for values written one after another in a byte stream. -/
structure Codec (Value : Type u) where
  /-- The bytes that stand for a value. -/
  encode : Value → List UInt8
  /-- Reads one value off the front, or refuses. -/
  decode : List UInt8 → Option (Value × List UInt8)
  /-- What was encoded is read back, whatever follows it. -/
  decode_encode : ∀ value rest, decode (encode value ++ rest) = some (value, rest)
  /-- What is read was an encoding. -/
  encode_decode : ∀ {bytes value rest},
    decode bytes = some (value, rest) → encode value ++ rest = bytes

namespace Codec

variable {First Second Value : Type u}

/-- Reads exactly `count` bytes. -/
def takeBytes (count : ℕ) (bytes : List UInt8) : Option (List UInt8 × List UInt8) :=
  if count ≤ bytes.length then some (bytes.take count, bytes.drop count) else none

theorem takeBytes_append (front rest : List UInt8) :
    takeBytes front.length (front ++ rest) = some (front, rest) := by
  simp [takeBytes]

theorem takeBytes_eq_some {count : ℕ} {bytes front rest : List UInt8}
    (taken : takeBytes count bytes = some (front, rest)) :
    front ++ rest = bytes ∧ front.length = count := by
  unfold takeBytes at taken
  split at taken
  · rename_i enough
    simp only [Option.some.injEq, Prod.mk.injEq] at taken
    rcases taken with ⟨rfl, rfl⟩
    exact ⟨List.take_append_drop count bytes, by simp [enough]⟩
  · cases taken

/-- Words of `width` bits as `bytes` bytes, most significant first. -/
def word (bytes width : ℕ) (fits : 256 ^ bytes = 2 ^ width) : Codec (BitVec width) where
  encode value := ByteOrder.bigEndian bytes value.toNat
  decode stream := do
    let (front, rest) ← takeBytes bytes stream
    some (BitVec.ofNat width (ByteOrder.ofBigEndian front), rest)
  decode_encode := by
    intro value rest
    have taken := takeBytes_append (ByteOrder.bigEndian bytes value.toNat) rest
    rw [ByteOrder.length_bigEndian] at taken
    have exact_value :
        ByteOrder.ofBigEndian (ByteOrder.bigEndian bytes value.toNat) = value.toNat := by
      rw [ByteOrder.ofBigEndian_bigEndian, fits]
      exact Nat.mod_eq_of_lt value.isLt
    simp [taken, exact_value]
  encode_decode := by
    intro stream value rest decoded
    simp only [Option.bind_eq_bind, Option.bind_eq_some_iff] at decoded
    rcases decoded with ⟨⟨front, after⟩, taken, same⟩
    simp only [Option.some.injEq, Prod.mk.injEq] at same
    rcases same with ⟨rfl, rfl⟩
    rcases takeBytes_eq_some taken with ⟨rfl, rfl⟩
    have small : ByteOrder.ofBigEndian front < 2 ^ width :=
      fits ▸ ByteOrder.ofBigEndian_lt front
    rw [BitVec.toNat_ofNat, Nat.mod_eq_of_lt small, ByteOrder.bigEndian_ofBigEndian]

/-- Four-byte words. -/
def word32 : Codec (BitVec 32) := word 4 32 (by norm_num)

/-- Eight-byte words. -/
def word64 : Codec (BitVec 64) := word 8 64 (by norm_num)

/-- Single bytes. -/
def byte : Codec UInt8 where
  encode value := [value]
  decode
    | [] => none
    | value :: rest => some (value, rest)
  decode_encode := by simp
  encode_decode := by
    intro bytes value rest decoded
    cases bytes with
    | nil => cases decoded
    | cons head tail => simp_all

@[simp]
theorem length_encode_word32 (value : BitVec 32) : (word32.encode value).length = 4 := by
  simp [word32, word]

/-! ### Combinators -/

/-- Nothing at all. -/
def unit : Codec Unit where
  encode _ := []
  decode stream := some ((), stream)
  decode_encode := by simp
  encode_decode := by simp

/-- One value after another. -/
def pair (first : Codec First) (second : Codec Second) : Codec (First × Second) where
  encode value := first.encode value.1 ++ second.encode value.2
  decode stream := do
    let (front, stream) ← first.decode stream
    let (back, stream) ← second.decode stream
    some ((front, back), stream)
  decode_encode := by
    intro value rest
    simp [first.decode_encode, second.decode_encode]
  encode_decode := by
    intro stream value rest decoded
    simp only [Option.bind_eq_bind, Option.bind_eq_some_iff, Option.some.injEq,
      Prod.mk.injEq] at decoded
    rcases decoded with ⟨⟨front, middle⟩, readFront, ⟨back, last⟩, readBack, rfl, rfl⟩
    rw [List.append_assoc, second.encode_decode readBack, first.encode_decode readFront]

/-- A tag, and then a value whose type depends on the tag. -/
def sigma {Tag : Type u} {Body : Tag → Type u} (tag : Codec Tag)
    (body : ∀ tag, Codec (Body tag)) : Codec (Σ tag, Body tag) where
  encode value := tag.encode value.1 ++ (body value.1).encode value.2
  decode stream := do
    let (front, stream) ← tag.decode stream
    let (back, stream) ← (body front).decode stream
    some (⟨front, back⟩, stream)
  decode_encode := by
    intro value rest
    simp [tag.decode_encode, (body value.1).decode_encode]
  encode_decode := by
    intro stream value rest decoded
    simp only [Option.bind_eq_bind, Option.bind_eq_some_iff, Option.some.injEq,
      Prod.mk.injEq] at decoded
    rcases decoded with ⟨⟨front, middle⟩, readFront, ⟨back, last⟩, readBack, rfl, rfl⟩
    rw [List.append_assoc, (body front).encode_decode readBack, tag.encode_decode readFront]

/-- Values that stand for some of the values of a codec; the others are refused. -/
def restrict (codec : Codec Value) (write : First → Value) (read : Value → Option First)
    (read_write : ∀ value, read (write value) = some value)
    (write_read : ∀ {value result}, read value = some result → write result = value) :
    Codec First where
  encode value := codec.encode (write value)
  decode stream := do
    let (front, stream) ← codec.decode stream
    let value ← read front
    some (value, stream)
  decode_encode := by
    intro value rest
    simp [codec.decode_encode, read_write]
  encode_decode := by
    intro stream value rest decoded
    simp only [Option.bind_eq_bind, Option.bind_eq_some_iff, Option.some.injEq,
      Prod.mk.injEq] at decoded
    rcases decoded with ⟨⟨front, middle⟩, readFront, result, accepted, rfl, rfl⟩
    rw [write_read accepted, codec.encode_decode readFront]

/-- Byte strings whose length is a nonnegative 32-bit integer. -/
abbrev Counted : Type := { bytes : List UInt8 // bytes.length < 2 ^ 31 }

/-- The length of a byte string, and then the byte string. -/
def counted : Codec Counted where
  encode value := word32.encode (BitVec.ofNat 32 value.1.length) ++ value.1
  decode stream := do
    let (length, stream) ← word32.decode stream
    if short : length.toNat < 2 ^ 31 then
      if enough : length.toNat ≤ stream.length then
        some (⟨stream.take length.toNat, by rw [List.length_take]; omega⟩,
          stream.drop length.toNat)
      else none
    else none
  decode_encode := by
    intro value rest
    have short := value.2
    have exactLength : (BitVec.ofNat 32 value.1.length).toNat = value.1.length := by
      rw [BitVec.toNat_ofNat]
      exact Nat.mod_eq_of_lt (by omega)
    simp only [List.append_assoc, word32.decode_encode, Option.bind_eq_bind, Option.bind_some,
      exactLength, short, dite_true, List.length_append, Nat.le_add_right, List.take_left,
      List.drop_left]
  encode_decode := by
    intro stream value rest decoded
    simp only [Option.bind_eq_bind, Option.bind_eq_some_iff] at decoded
    rcases decoded with ⟨⟨length, middle⟩, readLength, readBytes⟩
    split at readBytes
    · rename_i short
      split at readBytes
      · rename_i enough
        simp only [Option.some.injEq, Prod.mk.injEq] at readBytes
        rcases readBytes with ⟨rfl, rfl⟩
        have sameLength : BitVec.ofNat 32 (middle.take length.toNat).length = length := by
          rw [List.length_take, Nat.min_eq_left enough, BitVec.ofNat_toNat, BitVec.setWidth_eq]
        simp only [sameLength, List.append_assoc, List.take_append_drop]
        exact word32.encode_decode readLength
      · cases readBytes
    · cases readBytes

@[simp]
theorem encode_unit (value : Unit) : unit.encode value = [] := rfl

@[simp]
theorem encode_pair (first : Codec First) (second : Codec Second) (value : First × Second) :
    (first.pair second).encode value = first.encode value.1 ++ second.encode value.2 := rfl

@[simp]
theorem encode_counted (value : Counted) :
    counted.encode value = word32.encode (BitVec.ofNat 32 value.1.length) ++ value.1 := rfl

/-! ### Streams -/

/-- The encodings of some values, one after another. -/
def encodeAll (codec : Codec Value) (values : List Value) : List UInt8 :=
  values.flatMap codec.encode

@[simp]
theorem encodeAll_nil (codec : Codec Value) : codec.encodeAll [] = [] := rfl

@[simp]
theorem encodeAll_cons (codec : Codec Value) (value : Value) (values : List Value) :
    codec.encodeAll (value :: values) = codec.encode value ++ codec.encodeAll values := rfl

@[simp]
theorem encodeAll_append (codec : Codec Value) (front back : List Value) :
    codec.encodeAll (front ++ back) = codec.encodeAll front ++ codec.encodeAll back := by
  simp [encodeAll]

/-- Decodes a stream to its end, with at most `fuel` values in it. -/
def decodeAll (codec : Codec Value) : ℕ → List UInt8 → Option (List Value)
  | _, [] => some []
  | 0, _ :: _ => none
  | fuel + 1, stream@(_ :: _) => do
      let (value, rest) ← codec.decode stream
      let values ← codec.decodeAll fuel rest
      some (value :: values)

/-- A stream of encodings is decoded to its end by a fuel no larger than its length. -/
theorem decodeAll_encodeAll (codec : Codec Value) (nonempty : ∀ value, codec.encode value ≠ [])
    (values : List Value) {fuel : ℕ} (enough : (codec.encodeAll values).length ≤ fuel) :
    codec.decodeAll fuel (codec.encodeAll values) = some values := by
  induction values generalizing fuel with
  | nil => cases fuel <;> rfl
  | cons value values ih =>
      have positive := List.length_pos_iff.mpr (nonempty value)
      rw [encodeAll_cons, List.length_append] at enough
      obtain ⟨fuel, rfl⟩ : ∃ smaller, fuel = smaller + 1 := ⟨fuel - 1, by omega⟩
      obtain ⟨head, tail, shape⟩ := List.exists_cons_of_ne_nil
        (List.append_ne_nil_of_left_ne_nil (nonempty value) (codec.encodeAll values))
      rw [encodeAll_cons, shape, decodeAll, ← shape, codec.decode_encode]
      simp [ih (show (codec.encodeAll values).length ≤ fuel by omega)]

/-- A stream of nonempty encodings can be cut into values in one way only. -/
theorem encodeAll_injective (codec : Codec Value) (nonempty : ∀ value, codec.encode value ≠ []) :
    Function.Injective codec.encodeAll := by
  intro values others same
  have decoded := codec.decodeAll_encodeAll nonempty values (Nat.le_refl _)
  have othersDecoded := codec.decodeAll_encodeAll nonempty others (Nat.le_refl _)
  rw [same] at decoded
  exact Option.some.inj (decoded.symm.trans othersDecoded)

end Codec
