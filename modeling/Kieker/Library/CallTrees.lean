import Mathlib.Data.List.Basic
import Mathlib.Data.List.Induction

/-!
# Call trees as sequences of moves

A computation enters and leaves labelled operations. Every visit of an operation
has a number, by the order of the entries, and a depth, the number of visits open
at its entry. The visits of a balanced sequence, listed as they are left with their
labels and depths only, determine the sequence, and so the tree of its calls.
-/

universe u

namespace CallTrees

/-- Entering an operation, or leaving the one entered last. -/
inductive Move (Label : Type u) where
  | enter (label : Label)
  | leave

/-- A visit of an operation. -/
structure Visit (Label : Type u) where
  label : Label
  /-- How many visits began earlier. -/
  number : ℕ
  /-- How many visits were open when it began. -/
  depth : ℕ

/-- The visits that are open, innermost first, and those that are over, in the order of leaving. -/
structure Tally (Label : Type u) where
  visiting : List (Visit Label)
  left : List (Visit Label)
  entered : ℕ

variable {Label : Type u}

/-- Before the first move. -/
def Tally.empty : Tally Label where
  visiting := []
  left := []
  entered := 0

/-- One more move; nothing can be left when nothing is open. -/
def Tally.move (tally : Tally Label) : Move Label → Option (Tally Label)
  | .enter label => some {
      visiting := ⟨label, tally.entered, tally.visiting.length⟩ :: tally.visiting
      left := tally.left
      entered := tally.entered + 1 }
  | .leave =>
      match tally.visiting with
      | [] => none
      | visit :: rest => some {
          visiting := rest
          left := tally.left ++ [visit]
          entered := tally.entered }

/-- What some moves amount to. -/
def tallyOf (moves : List (Move Label)) : Option (Tally Label) :=
  moves.foldlM Tally.move Tally.empty

@[simp]
theorem tallyOf_nil : tallyOf ([] : List (Move Label)) = some Tally.empty := rfl

theorem tallyOf_concat (moves : List (Move Label)) (last : Move Label) :
    tallyOf (moves ++ [last]) = (tallyOf moves).bind fun tally => tally.move last := by
  rw [tallyOf, List.foldlM_append]
  congr 1
  funext tally
  simp

theorem Tally.move_leave_eq_some {tally later : Tally Label} :
    tally.move .leave = some later ↔ ∃ visit rest, tally.visiting = visit :: rest ∧
      later = ⟨rest, tally.left ++ [visit], tally.entered⟩ := by
  cases visiting : tally.visiting with
  | nil => simp [Tally.move, visiting]
  | cons visit rest => simp [Tally.move, visiting, eq_comm]

variable {moves other : List (Move Label)} {tally otherTally : Tally Label}

/-! ### Counting -/

/-- Every entry is one visit, open or over. -/
theorem entered_eq (tallied : tallyOf moves = some tally) :
    tally.entered = tally.visiting.length + tally.left.length := by
  induction moves using List.reverseRecOn generalizing tally with
  | nil =>
      cases tallied
      rfl
  | append_singleton moves last ih =>
      rw [tallyOf_concat, Option.bind_eq_some_iff] at tallied
      rcases tallied with ⟨earlier, earlierEq, moved⟩
      have counted := ih earlierEq
      cases last with
      | enter label =>
          cases moved
          simp only [List.length_cons]
          omega
      | leave =>
          rcases Tally.move_leave_eq_some.mp moved with ⟨visit, rest, visiting, rfl⟩
          rw [visiting, List.length_cons] at counted
          simp only [List.length_append, List.length_singleton]
          omega

theorem depth_visiting (tallied : tallyOf moves = some tally) {visit : Visit Label}
    {rest : List (Visit Label)} (visiting : tally.visiting = visit :: rest) :
    visit.depth = rest.length := by
  have suffixes : ∀ front visit rest, tally.visiting = front ++ visit :: rest →
      visit.depth = rest.length := by
    clear visiting
    induction moves using List.reverseRecOn generalizing tally with
    | nil =>
        intro front visit rest visiting
        cases tallied
        simp [Tally.empty] at visiting
    | append_singleton moves last ih =>
        intro front visit rest visiting
        rw [tallyOf_concat, Option.bind_eq_some_iff] at tallied
        rcases tallied with ⟨earlier, earlierEq, moved⟩
        cases last with
        | enter label =>
            cases moved
            cases front with
            | nil =>
                rw [List.nil_append, List.cons.injEq] at visiting
                rw [← visiting.1, ← visiting.2]
            | cons first front =>
                rw [List.cons_append, List.cons.injEq] at visiting
                exact ih earlierEq front visit rest visiting.2
        | leave =>
            rcases Tally.move_leave_eq_some.mp moved with ⟨top, under, wasOpen, rfl⟩
            change under = front ++ visit :: rest at visiting
            rw [visiting, ← List.cons_append] at wasOpen
            exact ih earlierEq (top :: front) visit rest wasOpen
  exact suffixes [] visit rest visiting

/-- The visit that was left last began no deeper than what is open now. -/
theorem depth_left_le (tallied : tallyOf moves = some tally) {visit : Visit Label}
    (isLast : tally.left.getLast? = some visit) : visit.depth ≤ tally.visiting.length := by
  induction moves using List.reverseRecOn generalizing tally with
  | nil =>
      cases tallied
      cases isLast
  | append_singleton moves last ih =>
      rw [tallyOf_concat, Option.bind_eq_some_iff] at tallied
      rcases tallied with ⟨earlier, earlierEq, moved⟩
      cases last with
      | enter label =>
          cases moved
          exact Nat.le_succ_of_le (ih earlierEq isLast)
      | leave =>
          rcases Tally.move_leave_eq_some.mp moved with ⟨top, rest, wasOpen, rfl⟩
          rw [List.getLast?_concat, Option.some.injEq] at isLast
          rw [← isLast]
          exact Nat.le_of_eq (depth_visiting earlierEq wasOpen)

theorem left_eq_nil_iff (tallied : tallyOf moves = some tally) :
    tally.left = [] ↔ Move.leave ∉ moves := by
  induction moves using List.reverseRecOn generalizing tally with
  | nil =>
      cases tallied
      simp [Tally.empty]
  | append_singleton moves last ih =>
      rw [tallyOf_concat, Option.bind_eq_some_iff] at tallied
      rcases tallied with ⟨earlier, earlierEq, moved⟩
      cases last with
      | enter label =>
          cases moved
          simp [ih earlierEq]
      | leave =>
          rcases Tally.move_leave_eq_some.mp moved with ⟨top, rest, -, rfl⟩
          simp

/-! ### Determination -/

/-- What a visit says without its number. -/
def Visit.shape (visit : Visit Label) : Label × ℕ :=
  (visit.label, visit.depth)

/-- What was left last began above what is open, so an entry cannot follow it unseen. -/
theorem not_entered_and_left {earlier otherEarlier : Tally Label} {top : Visit Label}
    {rest : List (Visit Label)} (tallied : tallyOf moves = some earlier)
    (otherTallied : tallyOf other = some otherEarlier)
    (visiting : otherEarlier.visiting = top :: rest)
    (sameLength : earlier.visiting.length + 1 = rest.length)
    (sameLeft : earlier.left.map Visit.shape = (otherEarlier.left ++ [top]).map Visit.shape) :
    False := by
  have sameLast := congrArg List.getLast? sameLeft
  rw [List.getLast?_map, List.map_append, List.map_singleton, List.getLast?_concat,
    Option.map_eq_some_iff] at sameLast
  rcases sameLast with ⟨visit, isLast, sameShape⟩
  have atMost := depth_left_le tallied isLast
  have exactly := depth_visiting otherTallied visiting
  have sameDepth : visit.depth = top.depth := congrArg Prod.snd sameShape
  omega

theorem eq_nil_of_empty (tallied : tallyOf moves = some tally) (nothingOpen : tally.visiting = [])
    (nothingLeft : tally.left = []) : moves = [] := by
  rcases List.eq_nil_or_concat moves with rfl | ⟨front, last, rfl⟩
  · rfl
  · rw [List.concat_eq_append, tallyOf_concat, Option.bind_eq_some_iff] at tallied
    rcases tallied with ⟨earlier, -, moved⟩
    cases last with
    | enter label =>
        cases moved
        cases nothingOpen
    | leave =>
        rcases Tally.move_leave_eq_some.mp moved with ⟨visit, rest, -, rfl⟩
        simp at nothingLeft

/-- The labels of the open visits and the shapes of those that are over determine the moves. -/
theorem eq_of_shapes (tallied : tallyOf moves = some tally)
    (otherTallied : tallyOf other = some otherTally)
    (sameOpen : tally.visiting.map Visit.label = otherTally.visiting.map Visit.label)
    (sameLeft : tally.left.map Visit.shape = otherTally.left.map Visit.shape) : moves = other := by
  induction moves using List.reverseRecOn generalizing other tally otherTally with
  | nil =>
      cases tallied
      rw [Tally.empty, List.map_nil, List.nil_eq, List.map_eq_nil_iff] at sameOpen sameLeft
      exact (eq_nil_of_empty otherTallied sameOpen sameLeft).symm
  | append_singleton moves last ih =>
      rcases List.eq_nil_or_concat other with rfl | ⟨others, otherLast, rfl⟩
      · cases otherTallied
        rw [Tally.empty, List.map_nil, List.map_eq_nil_iff] at sameOpen sameLeft
        exact eq_nil_of_empty tallied sameOpen sameLeft
      · rw [List.concat_eq_append, tallyOf_concat, Option.bind_eq_some_iff] at otherTallied
        rw [tallyOf_concat, Option.bind_eq_some_iff] at tallied
        rw [List.concat_eq_append]
        rcases tallied with ⟨earlier, earlierEq, moved⟩
        rcases otherTallied with ⟨otherEarlier, otherEarlierEq, otherMoved⟩
        cases last with
        | enter label =>
            cases moved
            cases otherLast with
            | enter otherLabel =>
                cases otherMoved
                rw [List.map_cons, List.map_cons, List.cons.injEq] at sameOpen
                have sameLabel : label = otherLabel := sameOpen.1
                rw [ih earlierEq otherEarlierEq sameOpen.2 sameLeft, sameLabel]
            | leave =>
                rcases Tally.move_leave_eq_some.mp otherMoved with ⟨top, rest, visiting, rfl⟩
                have sameLength := congrArg List.length sameOpen
                rw [List.length_map, List.length_map, List.length_cons] at sameLength
                exact (not_entered_and_left earlierEq otherEarlierEq visiting sameLength
                  sameLeft).elim
        | leave =>
            rcases Tally.move_leave_eq_some.mp moved with ⟨top, rest, visiting, rfl⟩
            cases otherLast with
            | enter otherLabel =>
                cases otherMoved
                have sameLength := congrArg List.length sameOpen.symm
                rw [List.length_map, List.length_map, List.length_cons] at sameLength
                exact (not_entered_and_left otherEarlierEq earlierEq visiting sameLength
                  sameLeft.symm).elim
            | leave =>
                rcases Tally.move_leave_eq_some.mp otherMoved with
                  ⟨otherTop, otherRest, otherVisiting, rfl⟩
                rw [List.map_append, List.map_append] at sameLeft
                rcases List.append_inj' sameLeft rfl with ⟨leftBefore, sameTop⟩
                rw [List.map_singleton, List.map_singleton, List.singleton_inj] at sameTop
                have openBefore : earlier.visiting.map Visit.label =
                    otherEarlier.visiting.map Visit.label := by
                  rw [visiting, otherVisiting, List.map_cons, List.map_cons, sameOpen]
                  exact congrArg (· :: _) (congrArg Prod.fst sameTop)
                rw [ih earlierEq otherEarlierEq openBefore leftBefore]

theorem eq_of_closes (tallied : tallyOf moves = some tally)
    (otherTallied : tallyOf other = some otherTally) (closes : tally.visiting = [])
    (otherCloses : otherTally.visiting = [])
    (sameLeft : tally.left.map Visit.shape = otherTally.left.map Visit.shape) : moves = other := by
  apply eq_of_shapes tallied otherTallied _ sameLeft
  rw [closes, otherCloses]

/-! ### One part after another -/

/-- The visit when its number counts `earlier` more entries. -/
def Visit.shift (earlier : ℕ) (visit : Visit Label) : Visit Label :=
  { visit with number := visit.number + earlier }

@[simp]
theorem Visit.shape_shift (earlier : ℕ) (visit : Visit Label) :
    (visit.shift earlier).shape = visit.shape := rfl

/-- Behind a balanced part everything begins anew, except that the numbers go on. -/
theorem tallyOf_append_of_closed {front : Tally Label} (frontTallied : tallyOf other = some front)
    (closed : front.visiting = []) (tallied : tallyOf moves = some tally) :
    tallyOf (other ++ moves) = some {
      visiting := tally.visiting.map (Visit.shift front.entered)
      left := front.left ++ tally.left.map (Visit.shift front.entered)
      entered := tally.entered + front.entered } := by
  induction moves using List.reverseRecOn generalizing tally with
  | nil =>
      cases tallied
      rcases front with ⟨visiting, left, entered⟩
      change visiting = [] at closed
      subst closed
      simp [frontTallied, Tally.empty]
  | append_singleton moves last ih =>
      rw [tallyOf_concat, Option.bind_eq_some_iff] at tallied
      rcases tallied with ⟨earlier, earlierEq, moved⟩
      rw [← List.append_assoc, tallyOf_concat, ih earlierEq, Option.bind_some]
      cases last with
      | enter label =>
          cases moved
          simp [Tally.move, Visit.shift, Nat.add_right_comm]
      | leave =>
          rcases Tally.move_leave_eq_some.mp moved with ⟨top, rest, visiting, rfl⟩
          simp [Tally.move, visiting]

/-- What is over stays over, and keeps its place. -/
theorem left_of_append {more : List (Move Label)} (tallied : tallyOf (moves ++ more) = some tally) :
    ∃ earlier, tallyOf moves = some earlier ∧ earlier.left <+: tally.left := by
  induction more using List.reverseRecOn generalizing tally with
  | nil =>
      rw [List.append_nil] at tallied
      exact ⟨tally, tallied, List.prefix_refl _⟩
  | append_singleton more last ih =>
      rw [← List.append_assoc, tallyOf_concat, Option.bind_eq_some_iff] at tallied
      rcases tallied with ⟨middle, middleEq, moved⟩
      rcases ih middleEq with ⟨earlier, earlierEq, leads⟩
      refine ⟨earlier, earlierEq, leads.trans ?_⟩
      cases last with
      | enter label =>
          cases moved
          exact List.prefix_refl _
      | leave =>
          rcases Tally.move_leave_eq_some.mp moved with ⟨top, rest, -, rfl⟩
          exact List.prefix_append _ _

/-- The shapes of the visits of a balanced part stand behind those of what came before. -/
theorem shapes_of_part {part back : List (Move Label)} {front partTally : Tally Label}
    (tallied : tallyOf (other ++ part ++ back) = some tally)
    (frontTallied : tallyOf other = some front) (closed : front.visiting = [])
    (partTallied : tallyOf part = some partTally) :
    ((tally.left.map Visit.shape).drop front.left.length).take partTally.left.length =
      partTally.left.map Visit.shape := by
  rcases left_of_append tallied with ⟨earlier, earlierEq, rest, leftEq⟩
  rw [tallyOf_append_of_closed frontTallied closed partTallied, Option.some.injEq] at earlierEq
  subst earlierEq
  simp [← leftEq, Function.comp_def]

end CallTrees
