import Mathlib.Algebra.Group.Nat.Even
import Mathlib.Data.List.Basic
import Mathlib.Data.List.Induction

/-!
# Nested events

A sequence of events that enter and leave labelled operations is nested when
every event that leaves an operation leaves the one entered last. `openAfter`
follows a sequence with the stack of operations entered and not yet left;
`outermost` cuts it wherever that stack is empty.
-/

universe u

namespace Nesting

/-- Entering or leaving an operation. -/
inductive Event (Label : Type u) where
  | enter (label : Label)
  | leave (label : Label)
  deriving DecidableEq

/-- The operation that is entered or left. -/
def Event.label {Label : Type u} : Event Label → Label
  | .enter label => label
  | .leave label => label

@[simp]
theorem Event.label_enter {Label : Type u} (label : Label) : (Event.enter label).label = label := rfl

@[simp]
theorem Event.label_leave {Label : Type u} (label : Label) : (Event.leave label).label = label := rfl

variable {Label : Type u} [DecidableEq Label]

/-- The operations open after one more event, innermost first. -/
def openStep (stack : List Label) : Event Label → Option (List Label)
  | .enter label => some (label :: stack)
  | .leave label =>
      match stack with
      | [] => none
      | top :: rest => if top = label then some rest else none

/-- The operations open after some events, innermost first; nothing if they are not nested. -/
def openAfter (events : List (Event Label)) : Option (List Label) :=
  events.foldlM openStep []

/-- Every operation left was the one entered last, and none is still open. -/
def IsBalanced (events : List (Event Label)) : Prop :=
  openAfter events = some []

instance (events : List (Event Label)) : Decidable (IsBalanced events) :=
  inferInstanceAs (Decidable (openAfter events = some []))

@[simp]
theorem openAfter_nil : openAfter ([] : List (Event Label)) = some [] := rfl

theorem openAfter_append (front back : List (Event Label)) :
    openAfter (front ++ back) = (openAfter front).bind fun stack => back.foldlM openStep stack := by
  simp [openAfter, List.foldlM_append]

theorem openAfter_concat (events : List (Event Label)) (event : Event Label) :
    openAfter (events ++ [event]) = (openAfter events).bind fun stack => openStep stack event := by
  rw [openAfter_append]
  congr 1
  funext stack
  simp

theorem openStep_leave_eq_some {stack later : List Label} {label : Label} :
    openStep stack (.leave label) = some later ↔ stack = label :: later := by
  cases stack with
  | nil => simp [openStep]
  | cons top rest =>
      by_cases same : top = label
      · simp [openStep, same]
      · simp [openStep, same]

theorem enter_mem_of_open {events : List (Event Label)} {stack : List Label} {label : Label}
    (nested : openAfter events = some stack) (isOpen : label ∈ stack) :
    Event.enter label ∈ events := by
  induction events using List.reverseRecOn generalizing stack with
  | nil =>
      cases nested
      cases isOpen
  | append_singleton events event ih =>
      rw [openAfter_concat, Option.bind_eq_some_iff] at nested
      rcases nested with ⟨earlier, earlierEq, stepEq⟩
      cases event with
      | enter entered =>
          cases stepEq
          rcases List.mem_cons.mp isOpen with rfl | wasOpen
          · exact List.mem_append_right _ List.mem_cons_self
          · exact List.mem_append_left _ (ih earlierEq wasOpen)
      | leave left =>
          rw [openStep_leave_eq_some] at stepEq
          subst stepEq
          exact List.mem_append_left _ (ih earlierEq (List.mem_cons_of_mem left isOpen))

/-- Without the events of some operations the others are still nested. -/
theorem openAfter_filter {events : List (Event Label)} {stack : List Label} (keep : Label → Bool)
    (nested : openAfter events = some stack) :
    openAfter (events.filter fun event => keep event.label) = some (stack.filter keep) := by
  induction events using List.reverseRecOn generalizing stack with
  | nil =>
      cases nested
      rfl
  | append_singleton events event ih =>
      rw [openAfter_concat, Option.bind_eq_some_iff] at nested
      rcases nested with ⟨earlier, earlierEq, stepEq⟩
      have kept := ih earlierEq
      rw [List.filter_append]
      cases event with
      | enter label =>
          cases stepEq
          by_cases isKept : keep label
          · simp [isKept, openAfter_concat, kept, openStep]
          · simp [isKept, kept]
      | leave label =>
          rw [openStep_leave_eq_some] at stepEq
          subst stepEq
          by_cases isKept : keep label
          · simp [isKept, openAfter_concat, kept, openStep]
          · simp [isKept, kept]

/-- Adds an event to the segments found so far: to the last one if an operation is open. -/
def addEvent (anyOpen : Bool) (segments : List (List (Event Label))) (event : Event Label) :
    List (List (Event Label)) :=
  if anyOpen then segments.dropLast ++ [segments.getLastD [] ++ [event]]
  else segments ++ [[event]]

/-- The outermost operations of a sequence, each with everything inside it, in order. -/
def outermost (events : List (Event Label)) : List (List (Event Label)) :=
  (events.foldl (fun found event =>
    (found.1 ++ [event], addEvent (openAfter found.1 != some []) found.2 event))
    (([] : List (Event Label)), ([] : List (List (Event Label))))).2

omit [DecidableEq Label] in
private theorem foldl_fst (step : List (Event Label) → List (List (Event Label)) →
    Event Label → List (List (Event Label))) (events : List (Event Label))
    (start : List (Event Label) × List (List (Event Label))) :
    (events.foldl (fun found event => (found.1 ++ [event], step found.1 found.2 event)) start).1 =
      start.1 ++ events := by
  induction events generalizing start with
  | nil => simp
  | cons event events ih => simp [ih]

@[simp]
theorem outermost_nil : outermost ([] : List (Event Label)) = [] := rfl

theorem outermost_concat (events : List (Event Label)) (event : Event Label) :
    outermost (events ++ [event]) =
      addEvent (openAfter events != some []) (outermost events) event := by
  have seen := foldl_fst
    (fun front segments event => addEvent (openAfter front != some []) segments event) events
    (([] : List (Event Label)), ([] : List (List (Event Label))))
  simp only [List.nil_append] at seen
  simp only [outermost, List.foldl_append, List.foldl_cons, List.foldl_nil, seen]

/-- At an event with nothing open a new outermost operation begins. -/
theorem outermost_concat_of_closed {events : List (Event Label)} (closed : IsBalanced events)
    (event : Event Label) : outermost (events ++ [event]) = outermost events ++ [[event]] := by
  rw [outermost_concat, closed]
  simp [addEvent]

/-- An event inside an open operation belongs to the last outermost operation. -/
theorem outermost_concat_of_open {events : List (Event Label)} (notClosed : ¬IsBalanced events)
    (event : Event Label) :
    outermost (events ++ [event]) =
      (outermost events).dropLast ++ [(outermost events).getLastD [] ++ [event]] := by
  have anyOpen : (openAfter events != some []) = true := by simpa [IsBalanced] using notClosed
  rw [outermost_concat, anyOpen]
  rfl

theorem flatten_outermost (events : List (Event Label)) : (outermost events).flatten = events := by
  induction events using List.reverseRecOn with
  | nil => rfl
  | append_singleton events event ih =>
      by_cases closed : IsBalanced events
      · simp [outermost_concat_of_closed closed, ih]
      · rw [outermost_concat_of_open closed]
        cases segments : outermost events using List.reverseRecOn with
        | nil =>
            rw [segments] at ih
            rw [← ih] at closed
            exact absurd rfl closed
        | append_singleton front last =>
            rw [segments] at ih
            simp [← ih]

/-- All outermost operations but the last are over, and the last has open what the sequence has. -/
theorem openAfter_outermost {events : List (Event Label)} {stack : List Label}
    (nested : openAfter events = some stack) :
    (∀ segment ∈ (outermost events).dropLast, IsBalanced segment) ∧
      openAfter ((outermost events).getLastD []) = some stack := by
  induction events using List.reverseRecOn generalizing stack with
  | nil => exact ⟨by simp, nested⟩
  | append_singleton events event ih =>
      rw [openAfter_concat, Option.bind_eq_some_iff] at nested
      rcases nested with ⟨earlier, earlierEq, stepEq⟩
      rcases ih earlierEq with ⟨ended, lastOpen⟩
      by_cases closed : IsBalanced events
      · rw [outermost_concat_of_closed closed]
        have nothingOpen := Option.some.inj (earlierEq.symm.trans closed)
        subst nothingOpen
        refine ⟨?_, ?_⟩
        · intro segment segment_mem
          rw [List.dropLast_concat] at segment_mem
          cases segments : outermost events using List.reverseRecOn with
          | nil =>
              rw [segments] at segment_mem
              cases segment_mem
          | append_singleton front last =>
              rw [segments] at segment_mem ended lastOpen
              rw [List.dropLast_concat] at ended
              rw [List.getLastD_concat] at lastOpen
              rcases List.mem_append.mp segment_mem with old | isLast
              · exact ended segment old
              · rw [List.mem_singleton.mp isLast]
                exact lastOpen
        · rw [List.getLastD_concat]
          simpa [openAfter] using stepEq
      · rw [outermost_concat_of_open closed, List.dropLast_concat, List.getLastD_concat,
          openAfter_concat, lastOpen]
        exact ⟨ended, stepEq⟩

/-- Every operation that is over was entered and left. -/
theorem IsBalanced.even_length {events : List (Event Label)} (balanced : IsBalanced events) :
    Even events.length := by
  have counted : ∀ (events : List (Event Label)) (stack : List Label),
      openAfter events = some stack → Even (events.length + stack.length) := by
    intro events
    induction events using List.reverseRecOn with
    | nil =>
        intro stack nested
        cases nested
        simp
    | append_singleton events event ih =>
        intro stack nested
        rw [openAfter_concat, Option.bind_eq_some_iff] at nested
        rcases nested with ⟨earlier, earlierEq, stepEq⟩
        have even := ih earlier earlierEq
        cases event with
        | enter label =>
            cases stepEq
            simp only [List.length_append, List.length_cons, List.length_nil] at even ⊢
            grind
        | leave label =>
            cases earlier with
            | nil => cases stepEq
            | cons top rest =>
                by_cases same : top = label
                · rw [openStep, if_pos same] at stepEq
                  cases stepEq
                  simp only [List.length_append, List.length_cons, List.length_nil] at even ⊢
                  grind
                · rw [openStep, if_neg same] at stepEq
                  cases stepEq
  exact counted events [] balanced

/-! ### Stacks of several owners -/

section Owners

variable {Item : Type u} {Owner : Type u} [DecidableEq Owner] (owner : Item → Owner)

/-- The items of one owner, in order. -/
def stackOf (who : Owner) (items : List Item) : List Item :=
  items.filter fun item => owner item = who

/-- Takes the first item of an owner out. -/
def pop (who : Owner) : List Item → Option (Item × List Item)
  | [] => none
  | item :: items =>
      if owner item = who then some (item, items)
      else (pop who items).map fun found => (found.1, item :: found.2)

variable {owner} {who other : Owner} {item : Item} {items rest : List Item}

theorem stackOf_cons_self (items : List Item) (mine : owner item = who) :
    stackOf owner who (item :: items) = item :: stackOf owner who items :=
  List.filter_cons_of_pos (decide_eq_true mine)

theorem stackOf_cons_other (items : List Item) (notMine : owner item ≠ who) :
    stackOf owner who (item :: items) = stackOf owner who items :=
  List.filter_cons_of_neg (by simpa using notMine)

theorem owner_of_pop (popped : pop owner who items = some (item, rest)) : owner item = who := by
  induction items generalizing rest with
  | nil => cases popped
  | cons head items ih =>
      rw [pop] at popped
      split at popped
      · rename_i mine
        simp only [Option.some.injEq, Prod.mk.injEq] at popped
        rw [← popped.1]
        exact mine
      · rw [Option.map_eq_some_iff] at popped
        rcases popped with ⟨⟨found, remaining⟩, foundIt, same⟩
        simp only [Prod.mk.injEq] at same
        rcases same with ⟨rfl, rfl⟩
        exact ih foundIt

/-- What was taken out was on top of its owner's stack. -/
theorem stackOf_of_pop (popped : pop owner who items = some (item, rest)) :
    stackOf owner who items = item :: stackOf owner who rest := by
  induction items generalizing rest with
  | nil => cases popped
  | cons head items ih =>
      rw [pop] at popped
      split at popped
      · rename_i mine
        simp only [Option.some.injEq, Prod.mk.injEq] at popped
        rcases popped with ⟨rfl, rfl⟩
        simp [stackOf, mine]
      · rename_i notMine
        rw [Option.map_eq_some_iff] at popped
        rcases popped with ⟨⟨found, remaining⟩, foundIt, same⟩
        simp only [Prod.mk.injEq] at same
        rcases same with ⟨rfl, rfl⟩
        simpa [stackOf, notMine] using ih foundIt

theorem stackOf_of_pop_of_ne (popped : pop owner who items = some (item, rest))
    (different : other ≠ who) : stackOf owner other items = stackOf owner other rest := by
  induction items generalizing rest with
  | nil => cases popped
  | cons head items ih =>
      rw [pop] at popped
      split at popped
      · rename_i mine
        simp only [Option.some.injEq, Prod.mk.injEq] at popped
        rcases popped with ⟨rfl, rfl⟩
        have notOther : owner head ≠ other := fun same => different (same.symm.trans mine)
        simp [stackOf, notOther]
      · rw [Option.map_eq_some_iff] at popped
        rcases popped with ⟨⟨found, remaining⟩, foundIt, same⟩
        simp only [Prod.mk.injEq] at same
        rcases same with ⟨rfl, rfl⟩
        have later := ih foundIt
        simp only [stackOf] at later
        simp only [stackOf, List.filter_cons, later]

theorem pop_of_stackOf {tail : List Item} (stacked : stackOf owner who items = item :: tail) :
    ∃ rest, pop owner who items = some (item, rest) := by
  induction items with
  | nil => cases stacked
  | cons head items ih =>
      by_cases mine : owner head = who
      · simp only [stackOf, mine, decide_true, List.filter_cons_of_pos, List.cons.injEq] at stacked
        exact ⟨items, by rw [pop, if_pos mine, stacked.1]⟩
      · simp only [stackOf, mine, decide_false, Bool.false_eq_true, not_false_eq_true,
          List.filter_cons_of_neg] at stacked
        rcases ih stacked with ⟨rest, popped⟩
        exact ⟨head :: rest, by rw [pop, if_neg mine, popped]; rfl⟩

theorem perm_of_pop (popped : pop owner who items = some (item, rest)) :
    items.Perm (item :: rest) := by
  induction items generalizing rest with
  | nil => cases popped
  | cons head items ih =>
      rw [pop] at popped
      split at popped
      · simp only [Option.some.injEq, Prod.mk.injEq] at popped
        rcases popped with ⟨rfl, rfl⟩
        exact List.Perm.refl _
      · rw [Option.map_eq_some_iff] at popped
        rcases popped with ⟨⟨found, remaining⟩, foundIt, same⟩
        simp only [Prod.mk.injEq] at same
        rcases same with ⟨rfl, rfl⟩
        exact ((ih foundIt).cons head).trans (List.Perm.swap found head remaining)

end Owners

end Nesting
