import Kieker.Channel.Uses
import Kieker.Channel.Serializing
import Kieker.Model.Doubles
import Mathlib.Algebra.Order.Field.Basic
import Mathlib.Data.Nat.Cast.Order.Ring

/-!
# What is left of a double

`kieker_serialize_double` writes the integer that a double is converted to. So two
doubles are told apart by their bytes exactly if they have different integer parts,
and the same holds for the doubles in a record.
-/

namespace Kieker

/-! ### Integer parts -/

theorem Double.natAbs_toLongLong_lt (double : Double) : double.toLongLong.natAbs < 2 ^ 63 := by
  have small := double.small
  have positive : 0 < double.value.den := double.value.den_pos
  rw [← Rat.num_div_den double.value, abs_div, Nat.abs_cast,
    div_lt_iff₀ (by exact_mod_cast positive)] at small
  have bound : double.value.num.natAbs < 2 ^ 63 * double.value.den := by
    have cast : ((double.value.num.natAbs : ℕ) : ℚ) < 2 ^ 63 * double.value.den := by
      rwa [Nat.cast_natAbs, Int.cast_abs]
    exact_mod_cast cast
  rw [Double.toLongLong, Int.natAbs_tdiv, Int.natAbs_natCast]
  exact Nat.div_lt_of_lt_mul (by rwa [Nat.mul_comm])

/-- Numbers of 64 bits are told apart by their bytes. -/
theorem int64Bytes_inj {first second : ℤ} (firstSmall : first.natAbs < 2 ^ 63)
    (secondSmall : second.natAbs < 2 ^ 63) :
    int64Bytes first = int64Bytes second ↔ first = second := by
  refine ⟨fun same => ?_, congrArg int64Bytes⟩
  have numbers := congrArg ByteOrder.ofBigEndian same
  rw [int64Bytes, int64Bytes, ByteOrder.ofBigEndian_bigEndian, ByteOrder.ofBigEndian_bigEndian]
    at numbers
  unfold toUInt64 at numbers
  omega

/-! ### Serialisation -/

/-- A double is serialised as the integer that it is converted to. -/
theorem serializeDouble_eq (buffer : Block) (offset : ℕ) (value : Double) :
    serializeDouble buffer offset value = serializeInt64 buffer offset value.toLongLong := rfl

/-- The member that is really written. -/
def Member.lowered : Member → Field
  | .field value => value
  | .double value => .int64 value.toLongLong

theorem serializeMembers_eq (kernel : Kernel) (members : List Member) (buffer : Block)
    (position : ℕ) (channel : Channel) :
    serializeMembers kernel members buffer position channel =
      serializeFields kernel (members.map Member.lowered) buffer position channel := by
  induction members generalizing buffer position channel with
  | nil => rfl
  | cons member members ih =>
      have same : serializeMember kernel buffer position member channel =
          serializeField kernel buffer position member.lowered channel := by
        cases member <;> rfl
      rw [serializeMembers, same, List.map_cons, serializeFields, Option.bind_eq_bind]
      apply Option.bind_congr
      rintro ⟨size, stored, after⟩ _
      exact ih _ _ _

namespace SystemRecord

variable {kernel : Kernel} {channel firstAfter secondAfter : Channel} {known : List CString}
  {first second : SystemRecord} {buffer firstStored secondStored : Block}
  {offset firstPosition secondPosition : ℕ}

/-- The members that are really written for doubles. -/
def lowered (doubles : List Double) : List Field :=
  doubles.map fun double => .int64 double.toLongLong

theorem map_lowered_members (record : SystemRecord) :
    record.members.map Member.lowered = record.fields ++ lowered record.doubles := by
  simp [members, lowered, Member.lowered, Function.comp_def]

theorem stringsAll_lowered (fields : List Field) (doubles : List Double) :
    Field.stringsAll (fields ++ lowered doubles) = Field.stringsAll fields := by
  simp [Field.stringsAll, lowered, Field.strings, List.flatMap_map]

theorem widthAll_lowered (doubles : List Double) :
    Field.widthAll (lowered doubles) = 8 * doubles.length := by
  induction doubles with
  | nil => rfl
  | cons double doubles ih =>
      rw [List.length_cons, Nat.mul_succ, ← ih, Nat.add_comm]
      rfl

/-- The bytes of doubles are the same exactly if their integer parts are. -/
theorem bytesAll_lowered_eq_iff (table : List CString) {first second : List Double}
    (sameLength : first.length = second.length) :
    Field.bytesAll table (lowered first) = Field.bytesAll table (lowered second) ↔
      first.map Double.toLongLong = second.map Double.toLongLong := by
  induction first generalizing second with
  | nil =>
      rw [List.length_eq_zero_iff.mp sameLength.symm]
      simp
  | cons one first ih =>
      cases second with
      | nil => cases sameLength
      | cons other second =>
          rw [List.length_cons, List.length_cons, Nat.succ_inj] at sameLength
          have split : ∀ (double : Double) doubles,
              Field.bytesAll table (lowered (double :: doubles)) =
                int64Bytes double.toLongLong ++ Field.bytesAll table (lowered doubles) :=
            fun _ _ => rfl
          rw [split, split, List.append_eq_append_iff_of_size_eq_left (by simp), ih sameLength,
            int64Bytes_inj one.natAbs_toLongLong_lt other.natAbs_toLongLong_lt, List.map_cons,
            List.map_cons, List.cons.injEq]

/-- The bytes of two records with the same other members differ if some integer parts differ. -/
theorem bytesFrom_eq_iff (serves : channel.Serves known) (sameFields : first.fields = second.fields)
    (sameLength : first.doubles.length = second.doubles.length) (inside : offset ≤ buffer.size)
    (firstDone : first.serialize kernel buffer offset channel =
      some (firstPosition, firstStored, firstAfter))
    (secondDone : second.serialize kernel buffer offset channel =
      some (secondPosition, secondStored, secondAfter)) :
    firstPosition = secondPosition ∧
      (firstStored.bytesFrom offset (firstPosition - offset) =
          secondStored.bytesFrom offset (secondPosition - offset) ↔
        first.doubles.map Double.toLongLong = second.doubles.map Double.toLongLong) := by
  rw [serialize, serializeMembers_eq, map_lowered_members] at firstDone secondDone
  rcases serializeFields_eq_some serves inside firstDone with
    ⟨firstPositionEq, -, -, firstExtends⟩
  rcases serializeFields_eq_some serves inside secondDone with
    ⟨secondPositionEq, -, -, secondExtends⟩
  rw [Field.widthAll_append, widthAll_lowered] at firstPositionEq secondPositionEq
  have firstBytes := firstExtends.parts.2
  have secondBytes := secondExtends.parts.2
  rw [Field.length_bytesAll, Field.widthAll_append, widthAll_lowered, stringsAll_lowered]
    at firstBytes secondBytes
  rw [← sameFields] at secondPositionEq secondBytes
  rw [← sameLength] at secondPositionEq secondBytes
  refine ⟨firstPositionEq.trans secondPositionEq.symm, ?_⟩
  rw [firstPositionEq, secondPositionEq, Nat.add_sub_cancel_left, firstBytes, secondBytes]
  have split : ∀ table doubles, Field.bytesAll table (first.fields ++ lowered doubles) =
      Field.bytesAll table first.fields ++ Field.bytesAll table (lowered doubles) := by
    intro table doubles
    simp [Field.bytesAll]
  rw [split, split, List.append_right_inj, bytesAll_lowered_eq_iff _ sameLength]

end SystemRecord

/-! ### Values that are kept -/

/-- `kieker_serialize_double` writes different bytes for two doubles. -/
def ToldApart (buffer : Block) (offset : ℕ) (first second : Double) : Prop :=
  ∃ firstStored secondStored,
    serializeDouble buffer offset first = some (8, firstStored) ∧
      serializeDouble buffer offset second = some (8, secondStored) ∧
      firstStored.bytesFrom offset 8 ≠ secondStored.bytesFrom offset 8

theorem toldApart_iff (buffer : Block) (offset : ℕ) (room : offset + 8 ≤ buffer.size)
    (first second : Double) :
    ToldApart buffer offset first second ↔ first.toLongLong ≠ second.toLongLong := by
  have writes : ∀ value : Double, ∃ stored,
      serializeDouble buffer offset value = some (8, stored) ∧
        stored.bytesFrom offset 8 = int64Bytes value.toLongLong := by
    intro value
    rcases Block.store_isSome buffer offset (int64Bytes value.toLongLong) (by simpa using room) with
      ⟨stored, stores⟩
    refine ⟨stored, by rw [serializeDouble_eq, serializeInt64_eq, stores]; rfl, ?_⟩
    have written := Block.bytesFrom_store stores
    rwa [length_int64Bytes] at written
  rcases writes first with ⟨firstStored, firstDone, firstBytes⟩
  rcases writes second with ⟨secondStored, secondDone, secondBytes⟩
  rw [ne_eq, ← int64Bytes_inj first.natAbs_toLongLong_lt second.natAbs_toLongLong_lt]
  simp only [ToldApart, firstDone, secondDone, Option.some.injEq, Prod.mk.injEq, true_and]
  constructor
  · rintro ⟨_, _, rfl, rfl, different⟩ same
    exact different (by rw [firstBytes, secondBytes, same])
  · intro different
    exact ⟨_, _, rfl, rfl, by rwa [firstBytes, secondBytes]⟩

/--
Two doubles get different bytes exactly if they have different integer parts. Two
records that differ only in their doubles get different bytes exactly if some
double of the one has another integer part than that of the other.
-/
theorem doubles_told_apart_iff (kernel : Kernel) {channel : Channel} {known : List CString}
    (serves : channel.Serves known) :
    (∀ (buffer : Block) (offset : ℕ) (first second : Double), offset + 8 ≤ buffer.size →
      (ToldApart buffer offset first second ↔ first.toLongLong ≠ second.toLongLong)) ∧
      ∀ (first second : SystemRecord) (buffer firstStored secondStored : Block)
        (offset firstPosition secondPosition : ℕ) (firstAfter secondAfter : Channel),
        first.fields = second.fields → first.doubles.length = second.doubles.length →
          offset ≤ buffer.size →
          first.serialize kernel buffer offset channel =
            some (firstPosition, firstStored, firstAfter) →
          second.serialize kernel buffer offset channel =
            some (secondPosition, secondStored, secondAfter) →
          (firstStored.bytesFrom offset (firstPosition - offset) ≠
              secondStored.bytesFrom offset (secondPosition - offset) ↔
            first.doubles.map Double.toLongLong ≠ second.doubles.map Double.toLongLong) :=
  ⟨fun buffer offset first second room => toldApart_iff buffer offset room first second,
    fun _ _ _ _ _ _ _ _ _ _ sameFields sameLength inside firstDone secondDone =>
      not_congr (SystemRecord.bytesFrom_eq_iff serves sameFields sameLength inside firstDone
        secondDone).2⟩

theorem representable_pow_neg (exponent : ℕ) (large : exponent ≤ 1074) :
    ∃ mantissa power : ℤ, |mantissa| < 2 ^ 53 ∧ -1074 ≤ power ∧ power ≤ 971 ∧
      (1 / 2 ^ exponent : ℚ) = mantissa * 2 ^ power :=
  ⟨1, -exponent, by norm_num, by omega, by omega, by simp⟩

theorem abs_pow_neg_lt (exponent : ℕ) : |(1 / 2 ^ exponent : ℚ)| < 2 ^ 63 := by
  have atMostOne : (1 / 2 ^ exponent : ℚ) ≤ 1 :=
    div_le_one_of_le₀ (one_le_pow₀ (by norm_num)) (by positivity)
  rw [abs_of_pos (by positivity)]
  exact lt_of_le_of_lt atMostOne (by norm_num)

/-- A negative power of two. -/
def Double.powNeg (exponent : ℕ) (large : exponent ≤ 1074) : Double :=
  ⟨1 / 2 ^ exponent, representable_pow_neg exponent large, abs_pow_neg_lt exponent⟩

/-- A quarter. -/
def quarter : Double := .powNeg 2 (Nat.le_of_ble_eq_true rfl)

/-- A half. -/
def half : Double := .powNeg 1 (Nat.le_of_ble_eq_true rfl)

theorem quarter_half_told_apart_iff :
    ToldApart ⟨8, fun _ => 0⟩ 0 quarter half ↔ quarter.toLongLong ≠ half.toLongLong :=
  (doubles_told_apart_iff .accepting serves_unusedChannel).1 _ _ _ _ (by decide)

/-- A quarter and a half get the same bytes. -/
theorem not_toldApart_quarter_half :
    ¬∀ (buffer : Block) (offset : ℕ) (first second : Double), offset + 8 ≤ buffer.size →
      first.value ≠ second.value → ToldApart buffer offset first second := by
  intro apart
  have quarterPart : quarter.toLongLong = 0 := by decide +kernel
  have halfPart : half.toLongLong = 0 := by decide +kernel
  have told := apart ⟨8, fun _ => 0⟩ 0 quarter half (by decide)
    (by norm_num [quarter, half, Double.powNeg])
  rw [toldApart_iff _ _ (by decide), quarterPart, halfPart] at told
  exact told rfl

end Kieker
