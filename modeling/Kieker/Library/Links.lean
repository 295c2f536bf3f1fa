import Mathlib.Data.List.Induction
import Mathlib.Data.List.Nodup
import Mathlib.Logic.Function.Basic

/-!
# Doubly linked lists

The cells of a heap point to one another in two directions. `Joins` says that
some cells, in this order, form a list whose ends point to given places; `push`,
`append` and `unlink` are the assignments of the usual operations, and each is
shown to form the list that it should and to leave lists of other cells alone.
-/

universe u

/-- Where the cells of a heap point. -/
structure Links (Pointer : Type u) where
  next : Pointer → Option Pointer
  prev : Pointer → Option Pointer

namespace Links

variable {Pointer : Type u}

/-- The cells are linked in both directions, from `before` on and up to `after`. -/
def Joins (links : Links Pointer) : Option Pointer → List Pointer → Option Pointer → Prop
  | _, [], _ => True
  | before, cell :: cells, after =>
      links.prev cell = before ∧ links.next cell = cells.head?.or after ∧
        links.Joins (some cell) cells after

/-- The cells form a list of their own. -/
def IsList (links : Links Pointer) (cells : List Pointer) : Prop :=
  links.Joins none cells none

variable {links other : Links Pointer} {before after : Option Pointer} {cell : Pointer}
  {cells front back : List Pointer}

/-- Only the links of its own cells matter to a list. -/
theorem Joins.congr (joins : links.Joins before cells after)
    (next : ∀ cell ∈ cells, other.next cell = links.next cell)
    (prev : ∀ cell ∈ cells, other.prev cell = links.prev cell) :
    other.Joins before cells after := by
  induction cells generalizing before with
  | nil => trivial
  | cons cell cells ih =>
      rcases joins with ⟨prevEq, nextEq, rest⟩
      refine ⟨(prev cell List.mem_cons_self).trans prevEq,
        (next cell List.mem_cons_self).trans nextEq, ?_⟩
      exact ih rest (fun later later_mem => next later (List.mem_cons_of_mem _ later_mem))
        (fun later later_mem => prev later (List.mem_cons_of_mem _ later_mem))

theorem joins_append : links.Joins before (front ++ back) after ↔
    links.Joins before front (back.head?.or after) ∧
      links.Joins (front.getLast?.or before) back after := by
  induction front generalizing before with
  | nil => simp [Joins]
  | cons cell front ih =>
      simp only [List.cons_append, Joins, ih, and_assoc]
      cases front with
      | nil => rfl
      | cons second front =>
          rw [List.getLast?_cons_cons, List.getLast?_cons, Option.some_or, Option.some_or]
          rfl

/-- Where a cell in the middle of a list points. -/
theorem Joins.middle (joins : links.Joins before (front ++ cell :: back) after) :
    links.prev cell = front.getLast?.or before ∧ links.next cell = back.head?.or after := by
  rcases (joins_append.mp joins).2 with ⟨prevEq, nextEq, -⟩
  exact ⟨prevEq, nextEq⟩

/-- The links of a list stay inside it. -/
theorem IsList.next_mem (isList : links.IsList cells) (cell_mem : cell ∈ cells) {target : Pointer}
    (points : links.next cell = some target) : target ∈ cells := by
  rcases List.append_of_mem cell_mem with ⟨front, back, rfl⟩
  rw [isList.middle.2, Option.or_none] at points
  exact List.mem_append_right _ (List.mem_cons_of_mem _ (List.mem_of_mem_head? points))

theorem IsList.prev_mem (isList : links.IsList cells) (cell_mem : cell ∈ cells) {target : Pointer}
    (points : links.prev cell = some target) : target ∈ cells := by
  rcases List.append_of_mem cell_mem with ⟨front, back, rfl⟩
  rw [isList.middle.1, Option.or_none] at points
  exact List.mem_append_left _ (List.mem_of_mem_getLast? points)

/-- Nothing comes before the first cell of a list. -/
theorem IsList.prev_eq_none_iff (isList : links.IsList cells) (apart : cells.Nodup)
    (cell_mem : cell ∈ cells) : links.prev cell = none ↔ cells.head? = some cell := by
  rcases List.append_of_mem cell_mem with ⟨front, back, rfl⟩
  rw [isList.middle.1, Option.or_none]
  cases front with
  | nil => simp
  | cons first front =>
      have different : first ≠ cell := fun same => (List.nodup_append.mp apart).2.2 first
        List.mem_cons_self cell List.mem_cons_self same
      simp [different]

/-- Nothing comes behind the last cell of a list. -/
theorem IsList.next_eq_none_iff (isList : links.IsList cells) (apart : cells.Nodup)
    (cell_mem : cell ∈ cells) : links.next cell = none ↔ cells.getLast? = some cell := by
  rcases List.append_of_mem cell_mem with ⟨front, back, rfl⟩
  rw [isList.middle.2, Option.or_none]
  cases back with
  | nil => simp
  | cons second back =>
      have notLast : (second :: back).getLast? ≠ some cell := by
        intro isLast
        have inBack := List.mem_of_mem_getLast? isLast
        exact (List.nodup_cons.mp (List.nodup_append.mp apart).2.1).1 inBack
      simpa [List.getLast?_append, List.getLast?_cons_cons] using notLast

/-! ### Operations -/

variable [DecidableEq Pointer]

/-- Where a list begins without one of its cells. -/
theorem IsList.head?_erase (isList : links.IsList cells) (cell_mem : cell ∈ cells) :
    (cells.erase cell).head? = if cells.head? = some cell then links.next cell else cells.head? := by
  cases cells with
  | nil => cases cell_mem
  | cons first cells =>
      by_cases same : first = cell
      · subst same
        have points := isList.2.1
        rw [Option.or_none] at points
        simp [points]
      · simp [same]

/-- Where a list ends without one of its cells. -/
theorem IsList.getLast?_erase (isList : links.IsList cells) (apart : cells.Nodup)
    (cell_mem : cell ∈ cells) : (cells.erase cell).getLast? =
      if cells.getLast? = some cell then links.prev cell else cells.getLast? := by
  have pointsOn := isList.next_eq_none_iff apart cell_mem
  rcases List.append_of_mem cell_mem with ⟨front, back, rfl⟩
  rcases isList.middle with ⟨prevEq, nextEq⟩
  have notFront : cell ∉ front := fun inFront =>
    (List.nodup_append.mp apart).2.2 cell inFront cell List.mem_cons_self rfl
  rw [List.erase_append_right _ notFront, List.erase_cons_head, prevEq]
  rw [nextEq] at pointsOn
  cases back with
  | nil => simp
  | cons second back =>
      have notLast := mt pointsOn.mpr (by simp)
      rw [if_neg notLast]
      simp [List.getLast?_append]

/-- Makes a cell point forward to a place. -/
def setNext (links : Links Pointer) (cell : Pointer) (target : Option Pointer) : Links Pointer :=
  { links with next := Function.update links.next cell target }

/-- Makes a cell point back to a place. -/
def setPrev (links : Links Pointer) (cell : Pointer) (target : Option Pointer) : Links Pointer :=
  { links with prev := Function.update links.prev cell target }

/-- Makes the cell at a pointer, if there is one, point forward to a place. -/
def setNextAt (links : Links Pointer) (pointer target : Option Pointer) : Links Pointer :=
  match pointer with
  | none => links
  | some cell => links.setNext cell target

/-- Makes the cell at a pointer, if there is one, point back to a place. -/
def setPrevAt (links : Links Pointer) (pointer target : Option Pointer) : Links Pointer :=
  match pointer with
  | none => links
  | some cell => links.setPrev cell target

/-- Puts a cell in front of the list that begins at `first`. -/
def push (links : Links Pointer) (first : Option Pointer) (cell : Pointer) : Links Pointer :=
  ((links.setNext cell first).setPrev cell none).setPrevAt first (some cell)

/-- Puts a cell behind the list that ends at `last`. -/
def append (links : Links Pointer) (last : Option Pointer) (cell : Pointer) : Links Pointer :=
  ((links.setNext cell none).setNextAt last (some cell)).setPrev cell last

/-- Takes a cell out of its list. -/
def unlink (links : Links Pointer) (cell : Pointer) : Links Pointer :=
  (links.setNextAt (links.prev cell) (links.next cell)).setPrevAt (links.next cell)
    (links.prev cell)

variable {target pointer : Option Pointer} {asked : Pointer}

@[simp]
theorem next_setPrev : (links.setPrev cell target).next = links.next := rfl

@[simp]
theorem prev_setNext : (links.setNext cell target).prev = links.prev := rfl

@[simp]
theorem next_setPrevAt : (links.setPrevAt pointer target).next = links.next := by
  cases pointer <;> rfl

@[simp]
theorem prev_setNextAt : (links.setNextAt pointer target).prev = links.prev := by
  cases pointer <;> rfl

@[simp]
theorem next_setNext_self : (links.setNext cell target).next cell = target :=
  Function.update_self ..

@[simp]
theorem prev_setPrev_self : (links.setPrev cell target).prev cell = target :=
  Function.update_self ..

theorem next_setNext_of_ne (different : asked ≠ cell) :
    (links.setNext cell target).next asked = links.next asked :=
  Function.update_of_ne different ..

theorem prev_setPrev_of_ne (different : asked ≠ cell) :
    (links.setPrev cell target).prev asked = links.prev asked :=
  Function.update_of_ne different ..

theorem next_setNextAt_of_ne (different : pointer ≠ some asked) :
    (links.setNextAt pointer target).next asked = links.next asked := by
  cases pointer with
  | none => rfl
  | some cell => exact next_setNext_of_ne fun same => different (congrArg some same.symm)

theorem prev_setPrevAt_of_ne (different : pointer ≠ some asked) :
    (links.setPrevAt pointer target).prev asked = links.prev asked := by
  cases pointer with
  | none => rfl
  | some cell => exact prev_setPrev_of_ne fun same => different (congrArg some same.symm)

/-- The last cell of a list is led on to another place. -/
theorem Joins.redirect_after (joins : links.Joins before cells after) (apart : cells.Nodup)
    (target : Option Pointer) : (links.setNextAt cells.getLast? target).Joins before cells target := by
  induction cells using List.reverseRecOn with
  | nil => trivial
  | append_singleton front cell _ =>
      rw [List.getLast?_concat]
      rcases joins_append.mp joins with ⟨frontJoins, prevEq, -⟩
      have notFront : cell ∉ front := fun inFront =>
        (List.nodup_append.mp apart).2.2 cell inFront cell (List.mem_singleton.mpr rfl) rfl
      refine joins_append.mpr ⟨?_, prevEq, next_setNext_self, trivial⟩
      refine Joins.congr frontJoins (fun asked asked_mem => ?_) fun _ _ => rfl
      exact next_setNext_of_ne fun same => notFront (same ▸ asked_mem)

/-- The first cell of a list is led back to another place. -/
theorem Joins.redirect_before (joins : links.Joins before cells after) (apart : cells.Nodup)
    (target : Option Pointer) : (links.setPrevAt cells.head? target).Joins target cells after := by
  cases cells with
  | nil => trivial
  | cons cell back =>
      rcases joins with ⟨-, nextEq, backJoins⟩
      have notBack := (List.nodup_cons.mp apart).1
      refine ⟨prev_setPrev_self, nextEq, ?_⟩
      refine Joins.congr backJoins (fun _ _ => rfl) fun asked asked_mem => ?_
      exact prev_setPrev_of_ne fun same => notBack (same ▸ asked_mem)

/-! ### What the operations do to a list -/

theorem isList_push (isList : links.IsList cells) (apart : cells.Nodup) (fresh : cell ∉ cells) :
    (links.push cells.head? cell).IsList (cell :: cells) := by
  have notFirst : cells.head? ≠ some cell := fun isFirst => fresh (List.mem_of_mem_head? isFirst)
  have joins : ((links.setNext cell cells.head?).setPrev cell none).Joins none cells none := by
    refine Joins.congr isList (fun asked asked_mem => ?_) fun asked asked_mem => ?_
    · exact next_setNext_of_ne fun same => fresh (same ▸ asked_mem)
    · exact prev_setPrev_of_ne fun same => fresh (same ▸ asked_mem)
  refine ⟨?_, ?_, joins.redirect_before apart (some cell)⟩
  · rw [push, prev_setPrevAt_of_ne notFirst, prev_setPrev_self]
  · rw [push, next_setPrevAt, next_setPrev, next_setNext_self, Option.or_none]

theorem isList_append (isList : links.IsList cells) (apart : cells.Nodup) (fresh : cell ∉ cells) :
    (links.append cells.getLast? cell).IsList (cells ++ [cell]) := by
  have notLast : cells.getLast? ≠ some cell := fun isLast => fresh (List.mem_of_mem_getLast? isLast)
  have joins : (links.setNext cell none).Joins none cells none := by
    refine Joins.congr isList (fun asked asked_mem => ?_) fun _ _ => rfl
    exact next_setNext_of_ne fun same => fresh (same ▸ asked_mem)
  have redirected := joins.redirect_after apart (some cell)
  refine joins_append.mpr ⟨?_, ?_, ?_, trivial⟩
  · refine Joins.congr redirected (fun _ _ => rfl) fun asked asked_mem => ?_
    exact prev_setPrev_of_ne fun same => fresh (same ▸ asked_mem)
  · rw [append, prev_setPrev_self, Option.or_none]
  · rw [append, next_setPrev, next_setNextAt_of_ne notLast, next_setNext_self]
    rfl

theorem isList_unlink (isList : links.IsList cells) (apart : cells.Nodup) (cell_mem : cell ∈ cells) :
    (links.unlink cell).IsList (cells.erase cell) := by
  rcases List.append_of_mem cell_mem with ⟨front, back, rfl⟩
  rcases isList.middle with ⟨prevEq, nextEq⟩
  rw [Option.or_none] at prevEq nextEq
  rcases joins_append.mp isList with ⟨frontJoins, -, -, backJoins⟩
  rcases List.nodup_append.mp apart with ⟨frontApart, backApart, crossApart⟩
  have notFront : cell ∉ front := fun inFront =>
    crossApart cell inFront cell List.mem_cons_self rfl
  rw [List.erase_append_right _ notFront, List.erase_cons_head, unlink, prevEq, nextEq]
  have frontLinked : (links.setNextAt front.getLast? back.head?).Joins none front back.head? :=
    frontJoins.redirect_after frontApart back.head?
  have backLinked : (links.setPrevAt back.head? front.getLast?).Joins front.getLast? back none :=
    backJoins.redirect_before (List.nodup_cons.mp backApart).2 front.getLast?
  refine joins_append.mpr ⟨?_, ?_⟩
  · rw [Option.or_none]
    refine frontLinked.congr (fun asked _ => by rw [next_setPrevAt]) fun asked asked_mem => ?_
    apply prev_setPrevAt_of_ne
    intro isHead
    exact crossApart asked asked_mem asked
      (List.mem_cons_of_mem _ (List.mem_of_mem_head? isHead)) rfl
  · rw [Option.or_none]
    refine backLinked.congr (fun asked asked_mem => ?_) fun asked asked_mem => ?_
    · rw [next_setPrevAt, next_setPrevAt]
      apply next_setNextAt_of_ne
      intro isLast
      exact crossApart asked (List.mem_of_mem_getLast? isLast) asked
        (List.mem_cons_of_mem _ asked_mem) rfl
    · cases back <;> simp [setPrevAt, setPrev]

/-! ### What the operations do to other lists -/

variable {others : List Pointer}

theorem IsList.push_other (isList : links.IsList others) (apart : ∀ other ∈ others, other ∉ cells)
    (fresh : cell ∉ others) : (links.push cells.head? cell).IsList others := by
  refine Joins.congr isList (fun asked asked_mem => ?_) fun asked asked_mem => ?_
  · rw [push, next_setPrevAt, next_setPrev]
    exact next_setNext_of_ne fun same => fresh (same ▸ asked_mem)
  · rw [push, prev_setPrevAt_of_ne fun isHead => apart asked asked_mem (List.mem_of_mem_head? isHead)]
    exact prev_setPrev_of_ne fun same => fresh (same ▸ asked_mem)

theorem IsList.unlink_other (isList : links.IsList others) (cellsList : links.IsList cells)
    (cell_mem : cell ∈ cells) (apart : ∀ other ∈ others, other ∉ cells) :
    (links.unlink cell).IsList others := by
  refine Joins.congr isList (fun asked asked_mem => ?_) fun asked asked_mem => ?_
  · rw [unlink, next_setPrevAt]
    exact next_setNextAt_of_ne fun points =>
      apart asked asked_mem (cellsList.prev_mem cell_mem points)
  · rw [unlink, prev_setPrevAt_of_ne fun points =>
      apart asked asked_mem (cellsList.next_mem cell_mem points), prev_setNextAt]

end Links
