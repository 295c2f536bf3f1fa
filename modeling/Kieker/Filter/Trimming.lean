import Kieker.Model.Adaptive
import Mathlib.Data.List.TakeWhile

/-!
# Trimming lines

The loader calls `kieker_string_trim` on the line buffer and drops the result, so
only what happens in place counts: whitespace at the end goes, whitespace at the
front stays. A line that is blank or begins with a visible byte is trimmed as
intended, if the byte in front of the buffer is not whitespace.
-/

namespace Kieker

/-- A string without whitespace at its ends. -/
def trimmed (string : List UInt8) : List UInt8 :=
  ((string.dropWhile isspace).reverse.dropWhile isspace).reverse

/-- A string without whitespace at its end. -/
def rtrimmed (string : List UInt8) : List UInt8 :=
  (string.reverse.dropWhile isspace).reverse

/-- A line that begins with a visible byte, or has none. -/
def Flush (line : List UInt8) : Prop :=
  ∀ byte ∈ line.head?, isspace byte = true → ∀ other ∈ line, isspace other = true

instance (line : List UInt8) : Decidable (Flush line) :=
  inferInstanceAs (Decidable (∀ byte ∈ line.head?, _))

/-- The byte in front of a buffer is not whitespace. -/
def Guarded (before : List UInt8) : Prop :=
  ∃ byte rest, before = byte :: rest ∧ isspace byte = false

variable {before line : List UInt8}

theorem stringLtrim_of_blank (before : List UInt8) (blank : ∀ byte ∈ line, isspace byte = true) :
    stringLtrim before line = ⟨line.reverse ++ before, []⟩ := by
  induction line generalizing before with
  | nil => rfl
  | cons byte line ih =>
      rw [stringLtrim, if_pos (blank byte List.mem_cons_self),
        ih _ fun other other_mem => blank other (List.mem_cons_of_mem byte other_mem)]
      simp

theorem stringLtrim_of_visible {byte : UInt8} {rest : List UInt8} (visible : isspace byte = false) :
    stringLtrim before (byte :: rest) = ⟨before, byte :: rest⟩ := by
  rw [stringLtrim, visible]
  rfl

theorem trimmed_of_blank (blank : ∀ byte ∈ line, isspace byte = true) : trimmed line = [] := by
  rw [trimmed, List.dropWhile_eq_nil_iff.mpr blank]
  rfl

theorem trimmed_of_visible {byte : UInt8} {rest : List UInt8} (visible : isspace byte = false) :
    trimmed (byte :: rest) = ((byte :: rest).reverse.dropWhile isspace).reverse := by
  rw [trimmed, List.dropWhile_cons_of_neg (by simp [visible])]

/-- In place, a flush line behind a visible byte is trimmed at both ends. -/
theorem trimLine_of_flush (guarded : Guarded before) (flush : Flush line) :
    trimLine before line = some (trimmed line) := by
  rcases guarded with ⟨guard, outside, rfl, guardVisible⟩
  have stops : (guard :: outside).dropWhile isspace = guard :: outside :=
    List.dropWhile_cons_of_neg (by simp [guardVisible])
  by_cases blank : ∀ byte ∈ line, isspace byte = true
  · have reversedBlank : ∀ byte ∈ line.reverse, isspace byte = true := fun byte byte_mem =>
      blank byte (List.mem_reverse.mp byte_mem)
    have kept : stringTrim (guard :: outside) line = some (guard :: outside) := by
      rw [stringTrim, stringLtrim_of_blank _ blank, stringRtrim, List.reverse_nil,
        List.nil_append, List.dropWhile_append_of_pos reversedBlank, stops]
    simp [trimLine, kept, trimmed_of_blank blank]
  · cases line with
    | nil => exact absurd (fun byte byte_mem => absurd byte_mem List.not_mem_nil) blank
    | cons byte rest =>
        have visible : isspace byte = false := by
          by_contra space
          exact blank (flush byte rfl (by simpa using space))
        have notAll : (byte :: rest).reverse.dropWhile isspace ≠ [] := by
          rw [ne_eq, List.dropWhile_eq_nil_iff]
          intro all
          have here := all byte (by simp)
          rw [visible] at here
          cases here
        rcases List.exists_cons_of_ne_nil notAll with ⟨last, front, keptEq⟩
        have kept : stringTrim (guard :: outside) (byte :: rest) =
            some ((byte :: rest).reverse.dropWhile isspace ++ guard :: outside) := by
          rw [stringTrim, stringLtrim_of_visible visible, stringRtrim, List.dropWhile_append,
            keptEq]
          simp
        have length : ((byte :: rest).reverse.dropWhile isspace ++ guard :: outside).length =
            ((byte :: rest).reverse.dropWhile isspace).length + (guard :: outside).length :=
          List.length_append
        rw [trimmed_of_visible visible, trimLine, kept, Option.bind_eq_bind, Option.bind_some,
          if_pos (by omega), length, Nat.add_sub_cancel, List.take_left]

theorem reverse_stringLtrim (before line : List UInt8) :
    (stringLtrim before line).string.reverse ++ (stringLtrim before line).before =
      line.reverse ++ before := by
  induction line generalizing before with
  | nil => rfl
  | cons byte line ih =>
      by_cases space : isspace byte = true
      · rw [stringLtrim, if_pos space, ih]
        simp
      · rw [stringLtrim, if_neg space]

/-- Trimming in place leaves a front part of the line. -/
theorem prefix_of_trimLine {left : List UInt8} (trims : trimLine before line = some left) :
    left <+: line := by
  simp only [trimLine, stringTrim, stringRtrim, reverse_stringLtrim, Option.bind_eq_bind,
    Option.bind_eq_some_iff] at trims
  rcases trims with ⟨kept, keptEq, result⟩
  split at keptEq
  · cases keptEq
  · rw [Option.some.injEq] at keptEq
    have suffix : kept <:+ line.reverse ++ before := by
      rw [← keptEq]
      exact List.dropWhile_suffix _
    clear keptEq
    split at result
    · rename_i inside
      have outside : before <:+ kept :=
        List.suffix_of_suffix_length_le (List.suffix_append _ _) suffix inside
      rcases outside with ⟨front, rfl⟩
      rw [List.suffix_append_self_iff] at suffix
      have taken : (front ++ before).take ((front ++ before).length - before.length) = front := by
        simp
      rw [taken, Option.some.injEq] at result
      rw [← result, ← List.reverse_suffix, List.reverse_reverse]
      exact suffix
    · rw [Option.some.injEq] at result
      exact result ▸ List.prefix_rfl

/-- A string with a visible byte, cut at its first and behind its last one. -/
theorem exists_visible_core (visible : ∃ byte ∈ line, isspace byte = false) :
    ∃ front core blanks, line = front ++ core ++ blanks ∧ trimmed line = core ∧
      rtrimmed line = front ++ core ∧
      (∀ space ∈ front, isspace space = true) ∧ (∀ space ∈ blanks, isspace space = true) ∧
      (∃ first rest, core = first :: rest ∧ isspace first = false) ∧
      ∃ init last, core = init ++ [last] ∧ isspace last = false := by
  rcases visible with ⟨byte, byte_mem, byteVisible⟩
  have split := List.takeWhile_append_dropWhile (p := isspace) (l := line)
  have someRest : line.dropWhile isspace ≠ [] := by
    rw [ne_eq, List.dropWhile_eq_nil_iff]
    intro blank
    simp [blank byte byte_mem] at byteVisible
  have firstVisible := List.head_dropWhile_not isspace someRest
  rcases List.exists_cons_of_ne_nil someRest with ⟨first, rest, restEq⟩
  simp only [restEq, List.head_cons] at firstVisible
  have splitBack := List.takeWhile_append_dropWhile (p := isspace) (l := (first :: rest).reverse)
  have someCore : (first :: rest).reverse.dropWhile isspace ≠ [] := by
    rw [ne_eq, List.dropWhile_eq_nil_iff]
    intro blank
    simp [blank first (by simp)] at firstVisible
  have lastVisible := List.head_dropWhile_not isspace someCore
  rcases List.exists_cons_of_ne_nil someCore with ⟨last, init, coreEq⟩
  simp only [coreEq, List.head_cons] at lastVisible
  have whole : first :: rest =
      (init.reverse ++ [last]) ++ ((first :: rest).reverse.takeWhile isspace).reverse := by
    rw [← List.reverse_cons, ← coreEq, ← List.reverse_append, splitBack, List.reverse_reverse]
  refine ⟨line.takeWhile isspace, init.reverse ++ [last],
    ((first :: rest).reverse.takeWhile isspace).reverse, ?_, ?_, ?_, ?_, ?_, ?_, ?_⟩
  · rw [List.append_assoc, ← whole, ← restEq, split]
  · rw [trimmed, restEq, coreEq, List.reverse_cons]
  · have reversed : line.reverse = (first :: rest).reverse ++ (line.takeWhile isspace).reverse := by
      rw [← restEq, ← List.reverse_append, split]
    rw [rtrimmed, reversed, List.dropWhile_append, coreEq]
    simp
  · exact fun space space_mem => List.mem_takeWhile_imp space_mem
  · intro space space_mem
    exact List.mem_takeWhile_imp (List.mem_reverse.mp space_mem)
  · cases start : init.reverse with
    | nil =>
        rw [start] at whole
        simp only [List.nil_append, List.cons_append, List.cons.injEq] at whole
        exact ⟨last, [], rfl, lastVisible⟩
    | cons other others =>
        rw [start] at whole
        simp only [List.cons_append, List.cons.injEq] at whole
        exact ⟨other, others ++ [last], rfl, whole.1 ▸ firstVisible⟩
  · exact ⟨init.reverse, last, rfl, lastVisible⟩

/-- In place, a line with a visible byte loses the whitespace at its end, wherever it stands. -/
theorem trimLine_of_visible (visible : ∃ byte ∈ line, isspace byte = false) :
    trimLine before line = some (rtrimmed line) := by
  rcases visible with ⟨byte, byte_mem, byteVisible⟩
  have some_kept : line.reverse.dropWhile isspace ≠ [] := by
    rw [ne_eq, List.dropWhile_eq_nil_iff]
    intro blank
    simp [blank byte (List.mem_reverse.mpr byte_mem)] at byteVisible
  rcases List.exists_cons_of_ne_nil some_kept with ⟨last, front, keptEq⟩
  have kept : stringTrim before line = some (line.reverse.dropWhile isspace ++ before) := by
    rw [stringTrim, stringRtrim, reverse_stringLtrim, List.dropWhile_append, keptEq]
    simp
  rw [trimLine, kept, Option.bind_eq_bind, Option.bind_some, if_pos (by simp),
    List.length_append, Nat.add_sub_cancel, List.take_left, rtrimmed]

theorem rtrimmed_of_blank (blank : ∀ byte ∈ line, isspace byte = true) :
    rtrimmed line = [] := by
  have reversedBlank : ∀ byte ∈ line.reverse, isspace byte = true := fun byte byte_mem =>
    blank byte (List.mem_reverse.mp byte_mem)
  rw [rtrimmed, List.dropWhile_eq_nil_iff.mpr reversedBlank, List.reverse_nil]

/-- In place, a guarded line loses the whitespace at its end. -/
theorem trimLine_of_guarded (guarded : Guarded before) :
    trimLine before line = some (rtrimmed line) := by
  by_cases visible : ∃ byte ∈ line, isspace byte = false
  · exact trimLine_of_visible visible
  · have blank : ∀ byte ∈ line, isspace byte = true := by
      intro byte byte_mem
      by_contra isVisible
      exact visible ⟨byte, byte_mem, by simpa using isVisible⟩
    rw [trimLine_of_flush guarded fun _ _ _ => blank, trimmed_of_blank blank,
      rtrimmed_of_blank blank]

end Kieker
