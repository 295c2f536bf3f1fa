import Mathlib.Data.List.Basic
import Mathlib.Tactic.Linarith

/-!
# Blocks of memory

A block is one allocation: a size and the bytes in it, whatever they happen to
be. A store or a load that would leave the allocation has no result, so a
computation on blocks that has a result stayed inside them.
-/

/-- One allocated block of memory. -/
structure Block where
  /-- The number of bytes allocated. -/
  size : ℕ
  /-- The bytes, by their distance from the start of the block. -/
  byte : ℕ → UInt8

namespace Block

/-- Copies `bytes` into the block from `offset` on. -/
def store (block : Block) (offset : ℕ) (bytes : List UInt8) : Option Block :=
  if offset + bytes.length ≤ block.size then
    some { block with
      byte := fun index =>
        if offset ≤ index ∧ index < offset + bytes.length then bytes.getD (index - offset) 0
        else block.byte index }
  else none

/-- The bytes at `offset`, `offset + 1`, and so on. -/
def bytesFrom (block : Block) (offset count : ℕ) : List UInt8 :=
  (List.range count).map fun index => block.byte (offset + index)

/-- Reads `count` bytes from `offset` on. -/
def load (block : Block) (offset count : ℕ) : Option (List UInt8) :=
  if offset + count ≤ block.size then some (block.bytesFrom offset count) else none

@[simp]
theorem length_bytesFrom (block : Block) (offset count : ℕ) :
    (block.bytesFrom offset count).length = count := by
  simp [bytesFrom]

@[simp]
theorem bytesFrom_zero (block : Block) (offset : ℕ) : block.bytesFrom offset 0 = [] := rfl

theorem bytesFrom_add (block : Block) (offset count more : ℕ) :
    block.bytesFrom offset (count + more) =
      block.bytesFrom offset count ++ block.bytesFrom (offset + count) more := by
  simp [bytesFrom, List.range_add, Nat.add_assoc]

theorem bytesFrom_congr {block other : Block} {offset count : ℕ}
    (agree : ∀ index, offset ≤ index → index < offset + count →
      block.byte index = other.byte index) :
    block.bytesFrom offset count = other.bytesFrom offset count := by
  apply List.map_congr_left
  intro index index_mem
  have index_lt := List.mem_range.mp index_mem
  exact agree (offset + index) (by omega) (by omega)

theorem store_eq_some {block stored : Block} {offset : ℕ} {bytes : List UInt8}
    (done : block.store offset bytes = some stored) :
    offset + bytes.length ≤ block.size ∧ stored.size = block.size := by
  unfold store at done
  split at done
  · cases done
    exact ⟨by assumption, rfl⟩
  · cases done

theorem store_isSome (block : Block) (offset : ℕ) (bytes : List UInt8)
    (fits : offset + bytes.length ≤ block.size) :
    ∃ stored, block.store offset bytes = some stored := by
  simp [store, fits]

theorem byte_store_of_outside {block stored : Block} {offset index : ℕ} {bytes : List UInt8}
    (done : block.store offset bytes = some stored)
    (outside : index < offset ∨ offset + bytes.length ≤ index) :
    stored.byte index = block.byte index := by
  unfold store at done
  split at done
  · cases done
    have notInside : ¬(offset ≤ index ∧ index < offset + bytes.length) := by omega
    simp only [if_neg notInside]
  · cases done

theorem bytesFrom_store {block stored : Block} {offset : ℕ} {bytes : List UInt8}
    (done : block.store offset bytes = some stored) :
    stored.bytesFrom offset bytes.length = bytes := by
  unfold store at done
  split at done
  · cases done
    apply List.ext_getElem
    · simp
    · intro index inStored inBytes
      simp [bytesFrom, inBytes]
  · cases done

theorem bytesFrom_store_of_le {block stored : Block} {start count offset : ℕ}
    {bytes : List UInt8} (done : block.store offset bytes = some stored)
    (before : start + count ≤ offset) :
    stored.bytesFrom start count = block.bytesFrom start count := by
  apply bytesFrom_congr
  intro index _ index_lt
  exact byte_store_of_outside done (Or.inl (by omega))

theorem bytesFrom_store_append {block stored : Block} (start count : ℕ) {bytes : List UInt8}
    (done : block.store (start + count) bytes = some stored) :
    stored.bytesFrom start (count + bytes.length) = block.bytesFrom start count ++ bytes := by
  rw [bytesFrom_add, bytesFrom_store_of_le done (le_refl _), bytesFrom_store done]

theorem load_of_le {block : Block} {offset count : ℕ} (fits : offset + count ≤ block.size) :
    block.load offset count = some (block.bytesFrom offset count) := by
  simp [load, fits]

/-- Bytes were appended behind the first `position` bytes, inside the allocation. -/
structure Extends (before after : Block) (position : ℕ) (bytes : List UInt8) : Prop where
  size : after.size = before.size
  room : position + bytes.length ≤ before.size
  front : after.bytesFrom 0 (position + bytes.length) = before.bytesFrom 0 position ++ bytes

namespace Extends

variable {before middle after : Block} {position : ℕ} {bytes more : List UInt8}

theorem refl (room : position ≤ before.size) : Extends before before position [] where
  size := rfl
  room := room
  front := by simp

theorem of_store (done : before.store position bytes = some after) :
    Extends before after position bytes where
  size := (store_eq_some done).2
  room := (store_eq_some done).1
  front := by
    have atPosition : before.store (0 + position) bytes = some after := by rwa [Nat.zero_add]
    exact bytesFrom_store_append 0 position atPosition

theorem trans (first : Extends before middle position bytes)
    (second : Extends middle after (position + bytes.length) more) :
    Extends before after position (bytes ++ more) where
  size := second.size.trans first.size
  room := by
    have room := second.room
    rw [first.size] at room
    rw [List.length_append]
    omega
  front := by
    rw [List.length_append, ← Nat.add_assoc, second.front, first.front, List.append_assoc]

/-- What stood in front is still there, and the bytes stand behind it. -/
theorem parts (grown : Extends before after position bytes) :
    after.bytesFrom 0 position = before.bytesFrom 0 position ∧
      after.bytesFrom position bytes.length = bytes := by
  have front := grown.front
  rw [bytesFrom_add, Nat.zero_add] at front
  exact List.append_inj front (by simp)

end Extends

end Block
