import Mathlib.Data.List.Basic
import Mathlib.Data.List.Flatten
import Mathlib.Order.Basic
import Mathlib.Data.Nat.Basic

/-!
# Frames through writes that may be cut short

Frames are offered to a stream by writes of one or more frames each, and each
write passes on some of its bytes, from the front. A frame is cut if some of its
bytes arrived, but not all. The stream stays readable as long as nothing arrives
behind a cut frame; `intact_iff` says which counts that takes.
-/

universe u v

/-- A frame, and how many bytes were left for it when it was passed on. -/
structure Fragment (Frame : Type u) where
  frame : Frame
  received : ℕ

namespace Fragment

variable {Frame : Type u} {Byte : Type v} (bytes : Frame → List Byte)

/-- The bytes of a fragment that arrived. -/
def arrived (fragment : Fragment Frame) : List Byte :=
  (bytes fragment.frame).take fragment.received

/-- Some bytes of the frame arrived, but not all. -/
def IsCut (fragment : Fragment Frame) : Prop :=
  0 < fragment.received ∧ fragment.received < (bytes fragment.frame).length

/-- Nothing arrives behind a cut frame. -/
def Intact (fragments : List (Fragment Frame)) : Prop :=
  fragments.Pairwise fun fragment later => fragment.IsCut bytes → later.arrived bytes = []

/-- What becomes of frames that are offered together when `count` bytes are accepted. -/
def ofWrite : List Frame → ℕ → List (Fragment Frame)
  | [], _ => []
  | frame :: frames, count => ⟨frame, count⟩ :: ofWrite frames (count - (bytes frame).length)

/-- A write of some frames that stops inside one of them. -/
def Severs (frames : List Frame) (count : ℕ) : Prop :=
  count < (frames.flatMap bytes).length ∧
    ∀ front back, frames = front ++ back → count ≠ (front.flatMap bytes).length

variable {bytes} {frame : Frame} {frames : List Frame} {count : ℕ}

theorem flatMap_arrived_ofWrite (frames : List Frame) (count : ℕ) :
    (ofWrite bytes frames count).flatMap (arrived bytes) = (frames.flatMap bytes).take count := by
  induction frames generalizing count with
  | nil => simp [ofWrite]
  | cons frame frames ih =>
      rw [ofWrite, List.flatMap_cons, ih, List.flatMap_cons, List.take_append, arrived]

theorem arrived_ofWrite_zero {fragment : Fragment Frame}
    (isFragment : fragment ∈ ofWrite bytes frames 0) : fragment.arrived bytes = [] := by
  have nothing := @flatMap_arrived_ofWrite _ _ bytes frames 0
  rw [List.take_zero, List.flatMap_eq_nil_iff] at nothing
  exact nothing fragment isFragment

theorem not_severs_zero (frames : List Frame) : ¬Severs bytes frames 0 :=
  fun severs => severs.2 [] frames rfl rfl

theorem severs_cons_of_lt (short : count < (bytes frame).length) :
    Severs bytes (frame :: frames) count ↔ 0 < count := by
  constructor
  · intro severs
    exact Nat.pos_of_ne_zero (severs.2 [] (frame :: frames) rfl)
  · intro positive
    refine ⟨?_, ?_⟩
    · rw [List.flatMap_cons, List.length_append]
      omega
    · intro front back whole
      cases front with
      | nil =>
          simp only [List.flatMap_nil, List.length_nil]
          omega
      | cons first front =>
          rw [List.cons_append, List.cons.injEq] at whole
          rw [← whole.1, List.flatMap_cons, List.length_append]
          omega

theorem severs_cons_of_le (past : (bytes frame).length ≤ count) :
    Severs bytes (frame :: frames) count ↔ Severs bytes frames (count - (bytes frame).length) := by
  constructor
  · rintro ⟨short, inside⟩
    rw [List.flatMap_cons, List.length_append] at short
    refine ⟨by omega, ?_⟩
    intro front back whole same
    apply inside (frame :: front) back
    · rw [whole, List.cons_append]
    · rw [List.flatMap_cons, List.length_append]
      omega
  · rintro ⟨short, inside⟩
    refine ⟨?_, ?_⟩
    · rw [List.flatMap_cons, List.length_append]
      omega
    · intro front back whole same
      cases front with
      | nil =>
          apply inside [] frames rfl
          simp only [List.flatMap_nil, List.length_nil] at same ⊢
          omega
      | cons first front =>
          rw [List.cons_append, List.cons.injEq] at whole
          apply inside front back whole.2
          rw [← whole.1, List.flatMap_cons, List.length_append] at same
          omega

/-- A write severs a frame exactly if one of its frames is cut. -/
theorem severs_iff (frames : List Frame) (count : ℕ) :
    Severs bytes frames count ↔ ∃ fragment ∈ ofWrite bytes frames count, fragment.IsCut bytes := by
  induction frames generalizing count with
  | nil => simp [Severs, ofWrite]
  | cons frame frames ih =>
      rw [ofWrite]
      simp only [List.mem_cons, exists_eq_or_imp]
      by_cases short : count < (bytes frame).length
      · have rest : count - (bytes frame).length = 0 := by omega
        rw [severs_cons_of_lt short, rest, ← ih]
        simp only [IsCut, short, and_true, not_severs_zero, or_false]
      · rw [severs_cons_of_le (Nat.not_lt.mp short), ih]
        simp only [IsCut, short, and_false, false_or]

theorem intact_ofWrite (frames : List Frame) (count : ℕ) :
    Intact bytes (ofWrite bytes frames count) := by
  induction frames generalizing count with
  | nil => exact .nil
  | cons frame frames ih =>
      refine .cons ?_ (ih _)
      intro later isLater cut
      have short : count < (bytes frame).length := cut.2
      have rest : count - (bytes frame).length = 0 := by omega
      rw [rest] at isLater
      exact arrived_ofWrite_zero isLater

/--
Of some writes, the frames arrive intact exactly if nothing is accepted after a
write that severs one of its frames.
-/
theorem intact_iff {Write : Type*} (framesOf : Write → List Frame) (countOf : Write → ℕ)
    (writes : List Write) :
    Intact bytes (writes.flatMap fun write => ofWrite bytes (framesOf write) (countOf write)) ↔
      writes.Pairwise fun write later => Severs bytes (framesOf write) (countOf write) →
        ((framesOf later).flatMap bytes).take (countOf later) = [] := by
  rw [Intact, List.pairwise_flatMap]
  have within : ∀ write ∈ writes, (ofWrite bytes (framesOf write) (countOf write)).Pairwise
      fun fragment later => fragment.IsCut bytes → later.arrived bytes = [] :=
    fun write _ => intact_ofWrite (framesOf write) (countOf write)
  rw [and_iff_right within]
  apply List.Pairwise.iff
  intro write later
  rw [severs_iff, ← flatMap_arrived_ofWrite, List.flatMap_eq_nil_iff]
  constructor
  · rintro between ⟨fragment, isFragment, cut⟩ other isOther
    exact between fragment isFragment other isOther cut
  · intro between fragment isFragment other isOther cut
    exact between ⟨fragment, isFragment, cut⟩ other isOther

/-- What arrives intact are whole frames, and perhaps the beginning of a last one. -/
theorem Intact.arrived_eq {fragments : List (Fragment Frame)} (intact : Intact bytes fragments) :
    ∃ (complete : List Frame) (rest : List Byte), complete.Sublist (fragments.map Fragment.frame) ∧
      fragments.flatMap (arrived bytes) = complete.flatMap bytes ++ rest ∧
      (rest = [] ∨ ∃ frame ∈ fragments.map Fragment.frame, rest <+: bytes frame) := by
  induction intact with
  | nil => exact ⟨[], [], .slnil, rfl, Or.inl rfl⟩
  | @cons fragment fragments behind intact ih =>
      rcases ih with ⟨complete, rest, sub, arrivedEq, last⟩
      have laterLast : rest = [] ∨
          ∃ frame ∈ (fragment :: fragments).map Fragment.frame, rest <+: bytes frame := by
        refine last.imp_right ?_
        rintro ⟨frame, isFrame, beginning⟩
        exact ⟨frame, List.mem_cons_of_mem _ isFrame, beginning⟩
      rcases Nat.eq_zero_or_pos fragment.received with nothing | positive
      · refine ⟨complete, rest, sub.cons _, ?_, laterLast⟩
        rw [List.flatMap_cons, arrivedEq, arrived, nothing, List.take_zero, List.nil_append]
      · by_cases short : fragment.received < (bytes fragment.frame).length
        · -- Nothing arrives behind the cut frame, so it is the last one.
          have nothing : fragments.flatMap (arrived bytes) = [] :=
            List.flatMap_eq_nil_iff.mpr fun later isLater => behind later isLater ⟨positive, short⟩
          refine ⟨[], fragment.arrived bytes, List.nil_sublist _, ?_, Or.inr ⟨fragment.frame, ?_, ?_⟩⟩
          · rw [List.flatMap_cons, nothing, List.append_nil, List.flatMap_nil, List.nil_append]
          · exact List.mem_cons_self
          · exact List.take_prefix _ _
        · refine ⟨fragment.frame :: complete, rest, sub.cons_cons _, ?_, laterLast⟩
          rw [List.flatMap_cons, arrivedEq, List.flatMap_cons, arrived,
            List.take_of_length_le (Nat.not_lt.mp short), List.append_assoc]

end Fragment
