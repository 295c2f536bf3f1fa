import Mathlib.Data.List.Nodup
import Mathlib.Data.List.Basic

/-!
# Interning

An interning table maps values to consecutive numbers, in order of first use. It
only ever grows at its end, so the number of a value never changes once it is
there. `announcements` lists what an observer must be told to keep a copy of the
table: every new entry, when it is added, with its number.
-/

universe u

namespace Interning

variable {Value : Type u} [DecidableEq Value]

/-- The table after a use of `value`. -/
def intern (table : List Value) (value : Value) : List Value :=
  if value ∈ table then table else table ++ [value]

/-- The table after some uses, in order. -/
def internAll (table values : List Value) : List Value :=
  values.foldl intern table

/-- The entry that a use of `value` adds to the table, with its number. -/
def announced (table : List Value) (value : Value) : List (Value × ℕ) :=
  if value ∈ table then [] else [(value, table.length)]

/-- The entries that some uses add to the table, in order. -/
def announcements : List Value → List Value → List (Value × ℕ)
  | _, [] => []
  | table, value :: values => announced table value ++ announcements (intern table value) values

@[simp]
theorem internAll_nil (table : List Value) : internAll table [] = table := rfl

@[simp]
theorem internAll_cons (table : List Value) (value : Value) (values : List Value) :
    internAll table (value :: values) = internAll (intern table value) values := rfl

theorem internAll_append (table front back : List Value) :
    internAll table (front ++ back) = internAll (internAll table front) back := by
  simp [internAll, List.foldl_append]

theorem intern_of_mem {table : List Value} {value : Value} (known : value ∈ table) :
    intern table value = table := if_pos known

theorem intern_of_notMem {table : List Value} {value : Value} (new : value ∉ table) :
    intern table value = table ++ [value] := if_neg new

@[simp]
theorem mem_intern {table : List Value} {value other : Value} :
    other ∈ intern table value ↔ other ∈ table ∨ other = value := by
  by_cases known : value ∈ table
  · rw [intern_of_mem known]
    constructor
    · exact Or.inl
    · rintro (old | rfl)
      · exact old
      · exact known
  · simp [intern_of_notMem known]

theorem mem_internAll {table values : List Value} {other : Value} :
    other ∈ internAll table values ↔ other ∈ table ∨ other ∈ values := by
  induction values generalizing table with
  | nil => simp
  | cons value values ih => simp [ih, or_assoc]

theorem prefix_intern (table : List Value) (value : Value) : table <+: intern table value := by
  by_cases known : value ∈ table
  · exact (intern_of_mem known).symm ▸ List.prefix_rfl
  · exact (intern_of_notMem known).symm ▸ List.prefix_append table [value]

theorem prefix_internAll (table values : List Value) : table <+: internAll table values := by
  induction values generalizing table with
  | nil => exact List.prefix_rfl
  | cons value values ih => exact (prefix_intern table value).trans (ih _)

theorem nodup_intern {table : List Value} (unique : table.Nodup) (value : Value) :
    (intern table value).Nodup := by
  by_cases known : value ∈ table
  · rwa [intern_of_mem known]
  · rw [intern_of_notMem known]
    refine List.nodup_append.mpr ⟨unique, List.nodup_singleton value, ?_⟩
    intro other other_mem new new_mem equal
    rw [List.mem_singleton.mp new_mem] at equal
    exact known (equal ▸ other_mem)

theorem nodup_internAll {table : List Value} (unique : table.Nodup) (values : List Value) :
    (internAll table values).Nodup := by
  induction values generalizing table with
  | nil => exact unique
  | cons value values ih => exact ih (nodup_intern unique value)

theorem idxOf_of_prefix {table later : List Value} (grows : table <+: later) {value : Value}
    (known : value ∈ table) : later.idxOf value = table.idxOf value := by
  rcases grows with ⟨added, rfl⟩
  exact List.idxOf_append_of_mem known

theorem idxOf_intern_of_notMem {table : List Value} {value : Value} (new : value ∉ table) :
    (intern table value).idxOf value = table.length := by
  rw [intern_of_notMem new, List.idxOf_append_of_notMem new]
  simp

@[simp]
theorem announcements_nil (table : List Value) : announcements table [] = [] := rfl

theorem announcements_append (table front back : List Value) :
    announcements table (front ++ back) =
      announcements table front ++ announcements (internAll table front) back := by
  induction front generalizing table with
  | nil => rfl
  | cons value front ih => simp [announcements, ih]

/-- What is announced is the part of the later table behind the old one, with its numbers. -/
theorem announcements_eq (table values : List Value) :
    announcements table values =
      ((internAll table values).drop table.length).zipIdx table.length := by
  induction values generalizing table with
  | nil => simp
  | cons value values ih =>
      rw [announcements, internAll_cons, ih]
      by_cases known : value ∈ table
      · rw [announced, if_pos known, intern_of_mem known, List.nil_append]
      · rw [announced, if_neg known, intern_of_notMem known]
        rcases prefix_internAll (table ++ [value]) values with ⟨added, grown⟩
        rw [← grown, List.drop_left, List.append_assoc, List.drop_left, List.length_append,
          List.length_singleton, List.singleton_append, List.singleton_append, List.zipIdx_cons]

/-- An entry is announced exactly if it is in the later table, behind the old one. -/
theorem mem_announcements {table values : List Value} {value : Value} {index : ℕ} :
    (value, index) ∈ announcements table values ↔
      table.length ≤ index ∧ (internAll table values)[index]? = some value := by
  rw [announcements_eq, List.mk_mem_zipIdx_iff_le_and_getElem?_sub, List.getElem?_drop]
  apply and_congr_right
  intro behind
  rw [Nat.add_sub_cancel' behind]

/-- Only values that are used and not in the table are announced. -/
theorem mem_of_announced {table values : List Value} {entry : Value × ℕ}
    (isAnnounced : entry ∈ announcements table values) : entry.1 ∉ table ∧ entry.1 ∈ values := by
  induction values generalizing table with
  | nil => cases isAnnounced
  | cons value values ih =>
      rw [announcements, List.mem_append] at isAnnounced
      rcases isAnnounced with here | later
      · unfold announced at here
        split at here
        · cases here
        · rename_i new
          rw [List.mem_singleton.mp here]
          exact ⟨new, List.mem_cons_self⟩
      · rcases ih later with ⟨new, used⟩
        exact ⟨fun old => new (mem_intern.mpr (Or.inl old)), List.mem_cons_of_mem value used⟩

/-- A value that is used and not in the table is announced. -/
theorem exists_mem_announcements {table values : List Value} {value : Value} (new : value ∉ table)
    (isUsed : value ∈ values) : ∃ index, (value, index) ∈ announcements table values := by
  have later : value ∈ internAll table values := mem_internAll.mpr (Or.inr isUsed)
  rcases prefix_internAll table values with ⟨added, grown⟩
  refine ⟨(internAll table values).idxOf value, mem_announcements.mpr ⟨?_, ?_⟩⟩
  · rw [← grown, List.idxOf_append_of_notMem new]
    exact Nat.le_add_right _ _
  · exact List.getElem?_idxOf later

/-- No value is announced twice. -/
theorem nodup_announcements {table : List Value} (unique : table.Nodup) (values : List Value) :
    ((announcements table values).map Prod.fst).Nodup := by
  rw [announcements_eq, List.zipIdx_map_fst]
  exact (nodup_internAll unique values).sublist (List.drop_sublist _ _)

/-- Values that are all in the table change nothing and are not announced. -/
theorem of_subset {table values : List Value} (known : values ⊆ table) :
    internAll table values = table ∧ announcements table values = [] := by
  induction values with
  | nil => exact ⟨rfl, rfl⟩
  | cons value values ih =>
      have here : value ∈ table := known List.mem_cons_self
      rcases ih fun other other_mem => known (List.mem_cons_of_mem value other_mem) with
        ⟨same, nothing⟩
      rw [internAll_cons, announcements, intern_of_mem here, announced, if_pos here]
      exact ⟨same, nothing⟩

end Interning
