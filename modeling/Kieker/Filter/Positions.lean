import Kieker.Model.Trimming
import Kieker.Filter.Trimming
import Mathlib.Data.List.Induction

/-!
# The addresses that trimming touches

The forward loop of `kieker_string_trim` stops at the terminator at the latest.
The backward loop stops at the last visible byte, and without one it leaves the
string at its start. So trimming is exact and stays inside for the strings with a
visible byte, and for no others.
-/

namespace Kieker

namespace Memory

/-- Bytes lie in memory from an address on. -/
def Stores (byte : ℤ → UInt8) : ℤ → List UInt8 → Prop
  | _, [] => True
  | address, stored :: bytes => byte address = stored ∧ Stores byte (address + 1) bytes

/-- The addresses accessed lie between two addresses. -/
def Within (memory : Memory) (low high : ℤ) : Prop :=
  ∀ address ∈ memory.accessed, low ≤ address ∧ address ≤ high

/--
`kieker_string_trim` comes to an end, stays between the first byte of its argument
and the terminator, and returns a pointer to the argument without whitespace at
its ends.
-/
def TrimsExactly (memory : Memory) (address : ℤ) (string : CString) : Prop :=
  ∃ fuel result after,
    stringTrim fuel address { memory with accessed := [] } = some (result, after) ∧
      after.Within address (address + string.length) ∧
      Stores after.byte result (trimmed string.bytes ++ [0])

/-- A computation that changed no byte and stayed between two addresses. -/
structure ReadsWithin (low high : ℤ) (memory after : Memory) : Prop where
  byte_eq : after.byte = memory.byte
  within : memory.Within low high → after.Within low high

variable {memory after : Memory} {byte : ℤ → UInt8} {address low high back result : ℤ}
  {bytes front rest blanks : List UInt8} {fuel : ℕ} {string : CString} {stop : UInt8}

theorem stores_append :
    Stores byte address (front ++ rest) ↔
      Stores byte address front ∧ Stores byte (address + front.length) rest := by
  induction front generalizing address with
  | nil => simp [Stores]
  | cons stored front ih =>
      have shift : address + 1 + (front.length : ℤ) = address + (stored :: front).length := by
        push_cast [List.length_cons]
        omega
      simp only [List.cons_append, Stores, ih, shift, and_assoc]

theorem Stores.congr {other : ℤ → UInt8} (stores : Stores byte address bytes)
    (same : ∀ place, address ≤ place → place < address + bytes.length →
      other place = byte place) : Stores other address bytes := by
  induction bytes generalizing address with
  | nil => trivial
  | cons stored bytes ih =>
      rw [List.length_cons] at same
      refine ⟨?_, ih stores.2 fun place above below => ?_⟩
      · rw [same address le_rfl (by omega)]
        exact stores.1
      · apply same place
        · omega
        · push_cast
          omega

theorem ReadsWithin.refl (low high : ℤ) (memory : Memory) : ReadsWithin low high memory memory :=
  ⟨rfl, id⟩

theorem Within.append {other : List ℤ} (within : memory.Within low high) (above : low ≤ address)
    (below : address ≤ high) (same : other = memory.accessed ++ [address]) :
    ∀ place ∈ other, low ≤ place ∧ place ≤ high := by
  intro place place_mem
  rw [same, List.mem_append, List.mem_singleton] at place_mem
  rcases place_mem with earlier | rfl
  · exact within place earlier
  · exact ⟨above, below⟩

theorem ReadsWithin.of_read (above : low ≤ address) (below : address ≤ high)
    (reads : ReadsWithin low high (memory.read address).2 after) :
    ReadsWithin low high memory after :=
  ⟨reads.byte_eq, fun within => reads.within (within.append above below rfl)⟩

theorem ReadsWithin.trans {middle : Memory} (first : ReadsWithin low high memory middle)
    (second : ReadsWithin low high middle after) : ReadsWithin low high memory after :=
  ⟨second.byte_eq.trans first.byte_eq, second.within ∘ first.within⟩

theorem skipBack_succ (fuel : ℕ) (back : ℤ) (memory : Memory) :
    skipBack (fuel + 1) back memory =
      if isspace (memory.byte (back - 1)) then skipBack fuel (back - 1) (memory.read (back - 1)).2
      else some (back - 1, (memory.read (back - 1)).2) := rfl

@[simp]
theorem accessed_read (memory : Memory) (address : ℤ) :
    (memory.read address).2.accessed = memory.accessed ++ [address] := rfl

/-- The forward loop stops at the first byte that is not whitespace. -/
theorem stringLtrim_of_stores (blank : ∀ space ∈ front, isspace space = true)
    (visible : isspace stop = false) (stores : Stores memory.byte address (front ++ [stop]))
    (enough : front.length < fuel) (above : low ≤ address)
    (below : address + front.length ≤ high) :
    ∃ after, stringLtrim fuel address memory = some (address + front.length, after) ∧
      ReadsWithin low high memory after := by
  induction front generalizing address fuel memory with
  | nil =>
      rcases Nat.exists_eq_add_of_lt enough with ⟨more, rfl⟩
      have read : memory.byte address = stop := stores.1
      refine ⟨(memory.read address).2, ?_, .of_read above (by simpa using below) (.refl _ _ _)⟩
      simp [stringLtrim, Memory.read, read, visible]
  | cons space front ih =>
      rw [List.length_cons] at enough below
      rcases Nat.exists_eq_succ_of_ne_zero (Nat.ne_zero_of_lt enough) with ⟨more, rfl⟩
      have read : memory.byte address = space := stores.1
      have isBlank := blank space List.mem_cons_self
      push_cast at below
      have shifted : Stores (memory.read address).2.byte (address + 1) (front ++ [stop]) := stores.2
      rcases ih (fun other other_mem => blank other (by simp [other_mem])) shifted
          (by omega : front.length < more) (by omega : low ≤ address + 1) (by omega) with
        ⟨after, done, reads⟩
      refine ⟨after, ?_, .of_read above (by omega) reads⟩
      have last : address + 1 + (front.length : ℤ) = address + (space :: front).length := by
        push_cast [List.length_cons]
        omega
      rw [← last, ← done]
      simp [stringLtrim, Memory.read, read, isBlank]

theorem stringLtrim_add (more : ℕ) (done : stringLtrim fuel address memory = some (result, after)) :
    stringLtrim (fuel + more) address memory = some (result, after) := by
  induction fuel generalizing address memory with
  | zero => cases done
  | succ fuel ih =>
      rw [Nat.add_right_comm]
      rw [stringLtrim] at done ⊢
      dsimp only at done ⊢
      split at done
      · rw [if_pos (by assumption)]
        exact ih done
      · rw [if_neg (by assumption)]
        exact done

theorem stringEnd_add (more : ℕ) (done : stringEnd fuel address memory = some (result, after)) :
    stringEnd (fuel + more) address memory = some (result, after) := by
  induction fuel generalizing address memory with
  | zero => cases done
  | succ fuel ih =>
      rw [Nat.add_right_comm]
      rw [stringEnd] at done ⊢
      dsimp only at done ⊢
      split at done
      · rw [if_pos (by assumption)]
        exact ih done
      · rw [if_neg (by assumption)]
        exact done

/-- `strlen` stops at the terminator. -/
theorem stringEnd_of_stores (nulFree : (0 : UInt8) ∉ bytes)
    (stores : Stores memory.byte address (bytes ++ [0])) (enough : bytes.length < fuel)
    (above : low ≤ address) (below : address + bytes.length ≤ high) :
    ∃ after, stringEnd fuel address memory = some (address + bytes.length, after) ∧
      ReadsWithin low high memory after := by
  induction bytes generalizing address fuel memory with
  | nil =>
      rcases Nat.exists_eq_add_of_lt enough with ⟨more, rfl⟩
      have read : memory.byte address = 0 := stores.1
      refine ⟨(memory.read address).2, ?_, .of_read above (by simpa using below) (.refl _ _ _)⟩
      simp [stringEnd, Memory.read, read]
  | cons stored bytes ih =>
      rw [List.mem_cons, not_or] at nulFree
      rw [List.length_cons] at enough below
      rcases Nat.exists_eq_succ_of_ne_zero (Nat.ne_zero_of_lt enough) with ⟨more, rfl⟩
      have read : memory.byte address = stored := stores.1
      have notEnd : stored ≠ 0 := Ne.symm nulFree.1
      push_cast at below
      have shifted : Stores (memory.read address).2.byte (address + 1) (bytes ++ [0]) := stores.2
      rcases ih nulFree.2 shifted (by omega : bytes.length < more) (by omega : low ≤ address + 1)
          (by omega) with ⟨after, done, reads⟩
      refine ⟨after, ?_, .of_read above (by omega) reads⟩
      have last : address + 1 + (bytes.length : ℤ) = address + (stored :: bytes).length := by
        push_cast [List.length_cons]
        omega
      rw [← last, ← done]
      simp [stringEnd, Memory.read, read, notEnd]

/-- The backward loop skips blanks. -/
theorem skipBack_append (blank : ∀ space ∈ blanks, isspace space = true)
    (stores : Stores memory.byte address blanks) (above : low ≤ address)
    (below : address + blanks.length ≤ high + 1) :
    ∃ middle, ReadsWithin low high memory middle ∧
      skipBack (fuel + blanks.length) (address + blanks.length) memory =
        skipBack fuel address middle := by
  induction blanks using List.reverseRecOn generalizing memory with
  | nil => exact ⟨memory, .refl _ _ _, by simp⟩
  | append_singleton blanks space ih =>
      rw [stores_append] at stores
      rw [List.length_append, List.length_singleton] at below ⊢
      push_cast at below ⊢
      have read : memory.byte (address + blanks.length) = space := stores.2.1
      have isBlank := blank space (by simp)
      have same : Stores (memory.read (address + blanks.length)).2.byte address blanks := stores.1
      rcases ih (fun other other_mem => blank other (by simp [other_mem])) same (by omega) with
        ⟨middle, reads, done⟩
      refine ⟨middle, .of_read (by omega) (by omega) reads, ?_⟩
      have before : address + (blanks.length + 1) - 1 = address + (blanks.length : ℤ) := by omega
      rw [← add_assoc fuel, skipBack_succ, before, read, if_pos isBlank]
      exact done

/-- The backward loop stops at the last byte that is not whitespace. -/
theorem skipBack_of_stores (blank : ∀ space ∈ blanks, isspace space = true)
    (visible : isspace stop = false) (stores : Stores memory.byte address (stop :: blanks))
    (enough : blanks.length < fuel) (above : low ≤ address)
    (below : address + blanks.length ≤ high) :
    ∃ after, skipBack fuel (address + 1 + blanks.length) memory = some (address, after) ∧
      ReadsWithin low high memory after := by
  rcases Nat.exists_eq_add_of_lt enough with ⟨more, rfl⟩
  have skips : ∃ middle, ReadsWithin low high memory middle ∧
      skipBack (more + 1 + blanks.length) (address + 1 + blanks.length) memory =
        skipBack (more + 1) (address + 1) middle :=
    skipBack_append blank stores.2 (by omega) (by omega)
  rcases skips with ⟨middle, reads, done⟩
  have read : middle.byte address = stop := by
    rw [reads.byte_eq]
    exact stores.1
  refine ⟨(middle.read address).2, ?_, reads.trans (.of_read above (by omega) (.refl _ _ _))⟩
  rw [add_assoc blanks.length, add_comm blanks.length, done]
  rw [skipBack_succ, add_sub_cancel_right, read, visible]
  rfl

theorem mem_accessed_of_skipBack (done : skipBack fuel back memory = some (result, after))
    (accessed : address ∈ memory.accessed) : address ∈ after.accessed := by
  induction fuel generalizing back memory with
  | zero => cases done
  | succ fuel ih =>
      rw [skipBack_succ] at done
      split at done
      · exact ih done (List.mem_append_left _ accessed)
      · cases done
        exact List.mem_append_left _ accessed

/-- Over a blank string the backward loop reads the address in front of it. -/
theorem skipBack_of_blank (blank : ∀ space ∈ blanks, isspace space = true)
    (stores : Stores memory.byte address blanks)
    (done : skipBack fuel (address + blanks.length) memory = some (result, after)) :
    address - 1 ∈ after.accessed := by
  induction blanks using List.reverseRecOn generalizing fuel memory with
  | nil =>
      cases fuel with
      | zero => cases done
      | succ fuel =>
          have here : address - 1 ∈ (memory.read (address - 1)).2.accessed := by simp
          rw [List.length_nil, Nat.cast_zero, add_zero, skipBack_succ] at done
          split at done
          · exact mem_accessed_of_skipBack done here
          · cases done
            exact here
  | append_singleton blanks space ih =>
      cases fuel with
      | zero => cases done
      | succ fuel =>
          rw [stores_append] at stores
          have read : memory.byte (address + blanks.length) = space := stores.2.1
          have isBlank := blank space (by simp)
          have before : address + ((blanks ++ [space]).length : ℤ) - 1 =
              address + (blanks.length : ℤ) := by
            simp only [List.length_append, List.length_singleton]
            omega
          rw [skipBack_succ, before, read, if_pos isBlank] at done
          have same : Stores (memory.read (address + blanks.length)).2.byte address blanks :=
            stores.1
          exact ih (fun other other_mem => blank other (by simp [other_mem])) same done

/-- The terminator goes behind the last byte that is not whitespace. -/
theorem stringRtrim_of_stores {init : List UInt8} {last : UInt8}
    (nulFree : (0 : UInt8) ∉ init ++ last :: blanks) (lastVisible : isspace last = false)
    (blank : ∀ space ∈ blanks, isspace space = true)
    (stores : Stores memory.byte address (init ++ last :: blanks ++ [0]))
    (enough : (init ++ last :: blanks).length < fuel) (above : low ≤ address)
    (below : address + (init ++ last :: blanks).length ≤ high) :
    ∃ after, stringRtrim fuel address memory =
        some (address, after.write (address + init.length + 1) 0) ∧
      ReadsWithin low high memory after := by
  rcases stringEnd_of_stores nulFree stores enough above below with ⟨atEnd, ends, endReads⟩
  have lastStores : Stores atEnd.byte (address + init.length) (last :: blanks) := by
    rw [endReads.byte_eq]
    rw [List.append_assoc, stores_append, stores_append] at stores
    exact stores.2.1
  rw [List.length_append, List.length_cons] at ends enough below
  push_cast at ends below
  rcases skipBack_of_stores blank lastVisible lastStores (by omega : blanks.length < fuel)
      (by omega : low ≤ address + (init.length : ℤ))
      (by omega : address + (init.length : ℤ) + blanks.length ≤ high) with
    ⟨atLast, skips, lastReads⟩
  have behind : address + ((init.length : ℤ) + (blanks.length + 1)) =
      address + init.length + 1 + blanks.length := by omega
  rw [behind] at ends
  refine ⟨atLast, ?_, endReads.trans lastReads⟩
  simp only [stringRtrim, ends, skips, Option.bind_eq_bind, Option.bind_some]

/-- With a visible byte, the only byte that trimming changes is a new terminator behind it. -/
theorem stringTrim_of_visible (held : Stores memory.byte address (string.bytes ++ [0]))
    (visible : ∃ byte ∈ string.bytes, isspace byte = false) :
    ∃ front core blanks fuel after, string.bytes = front ++ core ++ blanks ∧
      trimmed string.bytes = core ∧ rtrimmed string.bytes = front ++ core ∧
      stringTrim fuel address { memory with accessed := [] } =
        some (address + front.length, after) ∧
      after.Within address (address + string.length) ∧
      after.byte = Function.update memory.byte (address + front.length + core.length) 0 := by
  rcases exists_visible_core visible with ⟨front, core, blanks, bytesEq, coreEq, rtrimEq,
    frontBlank, blanksBlank, ⟨first, rest, startEq, firstVisible⟩, ⟨init, last, endEq, lastVisible⟩⟩
  have length : string.length = front.length + (core ++ blanks).length := by
    rw [CString.length, bytesEq, List.append_assoc, List.length_append]
  have coreLength : (core.length : ℤ) = init.length + 1 := by
    rw [endEq]
    push_cast [List.length_append]
    rfl
  have coreBlanks : core ++ blanks = init ++ last :: blanks := by simp [endEq]
  have noZero : (0 : UInt8) ∉ core ++ blanks := by
    intro zero_mem
    apply string.nulFree
    rw [bytesEq, List.append_assoc]
    exact List.mem_append_right front zero_mem
  rw [bytesEq, List.append_assoc front, List.append_assoc front, stores_append] at held
  rcases held with ⟨frontStores, restStores⟩
  let clean : Memory := { memory with accessed := [] }
  have start : Stores clean.byte address (front ++ [first]) := by
    refine stores_append.mpr ⟨frontStores, ?_⟩
    rw [startEq] at restStores
    exact ⟨restStores.1, trivial⟩
  rcases stringLtrim_of_stores frontBlank firstVisible start
      (by omega : front.length < string.length + 1) (le_refl address)
      (by omega : address + (front.length : ℤ) ≤ address + string.length) with
    ⟨atFirst, trims, firstReads⟩
  rw [← firstReads.byte_eq.trans (rfl : clean.byte = memory.byte)] at restStores
  rw [coreBlanks] at noZero restStores length
  rcases stringRtrim_of_stores noZero lastVisible blanksBlank restStores
      (by omega : (init ++ last :: blanks).length < string.length + 1)
      (by omega : address ≤ address + (front.length : ℤ))
      (by omega : address + (front.length : ℤ) + (init ++ last :: blanks).length ≤
        address + string.length) with ⟨atLast, ends, lastReads⟩
  have reads := firstReads.trans lastReads
  have clear : clean.Within address (address + string.length) := fun _ accessed =>
    absurd accessed List.not_mem_nil
  refine ⟨front, core, blanks, string.length + 1,
    atLast.write (address + front.length + init.length + 1) 0, bytesEq, coreEq, rtrimEq, ?_, ?_, ?_⟩
  · rw [stringTrim, Option.bind_eq_bind, trims]
    exact ends
  · have inside : init.length + 1 ≤ (init ++ last :: blanks).length := by simp
    exact (reads.within clear).append (by omega) (by omega) rfl
  · rw [coreLength, ← add_assoc]
    change Function.update atLast.byte _ _ = _
    rw [reads.byte_eq]

theorem stores_update (stores : Stores byte address bytes) (outside : low < address ∨
    address + bytes.length ≤ low) (value : UInt8) :
    Stores (Function.update byte low value) address bytes :=
  stores.congr fun place above below => Function.update_of_ne (by omega) _ _

/-- Without a visible byte, trimming reads the address in front of the string. -/
theorem mem_accessed_of_blank (held : Stores memory.byte address (string.bytes ++ [0]))
    (blank : ∀ space ∈ string.bytes, isspace space = true)
    (done : stringTrim fuel address memory = some (result, after)) :
    address - 1 ∈ after.accessed := by
  simp only [stringTrim, stringRtrim, Option.bind_eq_bind, Option.bind_eq_some_iff] at done
  rcases done with ⟨⟨start, atStart⟩, trims, ⟨terminator, atEnd⟩, ends, ⟨back, atBack⟩, skips, rest⟩
  rw [Option.some.injEq, Prod.mk.injEq] at rest
  rcases rest with ⟨-, rfl⟩
  -- More fuel changes nothing, and with enough of it both forward loops stop at the terminator.
  rcases stringLtrim_of_stores blank (by decide : isspace 0 = false) held
      (by omega : string.bytes.length < fuel + (string.bytes.length + 1)) (le_refl address)
      (le_refl (address + (string.bytes.length : ℤ))) with ⟨middle, trimsFar, reads⟩
  rw [stringLtrim_add _ trims, Option.some.injEq, Prod.mk.injEq] at trimsFar
  rcases trimsFar with ⟨rfl, rfl⟩
  have terminatorStores : Stores atStart.byte (address + string.bytes.length) ([] ++ [0]) := by
    rw [reads.byte_eq]
    exact (stores_append.mp held).2
  rcases stringEnd_of_stores List.not_mem_nil terminatorStores
      (by simp : ([] : List UInt8).length < fuel + 1)
      (by omega : address ≤ address + (string.bytes.length : ℤ)) le_rfl with
    ⟨last, endsFar, endReads⟩
  rw [stringEnd_add _ ends, Option.some.injEq, Prod.mk.injEq] at endsFar
  rcases endsFar with ⟨rfl, rfl⟩
  have stores : Stores atEnd.byte address string.bytes := by
    rw [endReads.byte_eq, reads.byte_eq]
    exact (stores_append.mp held).1
  rw [List.length_nil, Nat.cast_zero, add_zero] at skips
  exact List.mem_append_left _ (skipBack_of_blank blank stores skips)

theorem not_trimsExactly_of_blank (held : Stores memory.byte address (string.bytes ++ [0]))
    (blank : ∀ space ∈ string.bytes, isspace space = true) :
    ¬memory.TrimsExactly address string := by
  rintro ⟨fuel, result, after, done, within, -⟩
  have cleanHeld : Stores ({ memory with accessed := [] } : Memory).byte address
      (string.bytes ++ [0]) := held
  have outside := mem_accessed_of_blank cleanHeld blank done
  have inside := within _ outside
  omega

/--
Trimming is exact and stays inside the string exactly if some byte of the string
is not whitespace. Otherwise the backward loop reads in front of the string.
-/
theorem trimsExactly_iff (held : Stores memory.byte address (string.bytes ++ [0])) :
    memory.TrimsExactly address string ↔ ∃ byte ∈ string.bytes, isspace byte = false := by
  constructor
  · intro exact
    by_contra noVisible
    refine not_trimsExactly_of_blank held (fun space space_mem => ?_) exact
    by_contra visible
    exact noVisible ⟨space, space_mem, by simpa using visible⟩
  · intro visible
    rcases stringTrim_of_visible held visible with
      ⟨front, core, blanks, fuel, after, bytesEq, coreEq, -, done, within, changed⟩
    refine ⟨fuel, _, after, done, within, ?_⟩
    rw [bytesEq, List.append_assoc, List.append_assoc, stores_append, stores_append] at held
    rw [coreEq, changed, stores_append]
    exact ⟨stores_update held.2.1 (Or.inr le_rfl) 0, Function.update_self _ _ _, trivial⟩

/-- A memory that holds an indented word at address 1. -/
def wordMemory : Memory where
  byte := fun address => if address = 1 then 32 else if address = 2 then 65 else 0
  accessed := []

theorem stores_word : Stores wordMemory.byte 1 ((CString.literal " A").bytes ++ [0]) := by
  have bytes : (CString.literal " A").bytes = [32, 65] := by decide
  rw [bytes]
  simp [Stores, wordMemory]

theorem trimsExactly_word :
    wordMemory.TrimsExactly 1 (.literal " A") ↔
      ∃ byte ∈ (CString.literal " A").bytes, isspace byte = false :=
  trimsExactly_iff stores_word

/-- The empty string of 7-bit characters is not trimmed exactly. -/
theorem not_trimsExactly_empty :
    ¬∀ (memory : Memory) (address : ℤ) (string : CString), (∀ byte ∈ string.bytes, byte < 128) →
      Stores memory.byte address (string.bytes ++ [0]) → memory.TrimsExactly address string := by
  intro exact
  have noBytes : (CString.literal "").bytes = [] := by decide
  have held : Stores wordMemory.byte 0 ((CString.literal "").bytes ++ [0]) := by
    simp [noBytes, Stores, wordMemory]
  exact not_trimsExactly_of_blank held (by simp [noBytes])
    (exact _ _ _ (by simp [noBytes]) held)

/-- The line buffer holds what the trimming of lines says, in place. -/
theorem stores_trimLine {before : List UInt8}
    (held : Stores memory.byte address (string.bytes ++ [0]))
    (visible : ∃ byte ∈ string.bytes, isspace byte = false) :
    ∃ fuel result after left,
      stringTrim fuel address { memory with accessed := [] } = some (result, after) ∧
        trimLine before string.bytes = some left ∧ Stores after.byte address (left ++ [0]) := by
  rcases stringTrim_of_visible held visible with
    ⟨front, core, blanks, fuel, after, bytesEq, -, rtrimEq, done, -, changed⟩
  refine ⟨fuel, _, after, front ++ core, done, ?_, ?_⟩
  · rw [trimLine_of_visible visible, rtrimEq]
  · rw [bytesEq, List.append_assoc, stores_append] at held
    rw [changed, stores_append, List.length_append, Nat.cast_add, ← add_assoc]
    refine ⟨stores_update held.1 (Or.inr ?_) 0, Function.update_self _ _ _, trivial⟩
    rw [List.length_append, Nat.cast_add, add_assoc]

end Memory

end Kieker
