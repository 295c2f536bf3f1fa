import Kieker.Library.Nesting

/-!
# Forests of operations

Operations with other operations inside them form a forest. Walking through a
forest enters and leaves every operation; `grow` builds the forest back from the
events, with the operations that are open in a stack. It succeeds exactly on the
walks, so nested sequences without open operations and forests are the same thing.
Other labels leave the shape as it is, and taking operations out of a forest is the
same as taking their events out of the walk.
-/

universe u v

namespace Nesting

/-- Operations one after another, each with the operations inside it. -/
inductive Forest (Label : Type u) where
  | nil
  | cons (label : Label) (inside rest : Forest Label)
  deriving DecidableEq

namespace Forest

variable {Label : Type u}

/-- Enters and leaves every operation, in order. -/
def events : Forest Label → List (Event Label)
  | nil => []
  | cons label inside rest => .enter label :: (inside.events ++ .leave label :: rest.events)

/-- One forest behind another. -/
def append : Forest Label → Forest Label → Forest Label
  | nil, other => other
  | cons label inside rest, other => cons label inside (rest.append other)

theorem append_nil (forest : Forest Label) : forest.append nil = forest := by
  induction forest with
  | nil => rfl
  | cons label inside rest _ ih => rw [append, ih]

theorem append_assoc (first second third : Forest Label) :
    (first.append second).append third = first.append (second.append third) := by
  induction first with
  | nil => rfl
  | cons label inside rest _ ih => rw [append, append, append, ih]

theorem events_append (first second : Forest Label) :
    (first.append second).events = first.events ++ second.events := by
  induction first with
  | nil => rfl
  | cons label inside rest _ ih => simp [append, events, ih]

/-! ### Growing a forest -/

/-- The operations that are open, each with what came before it, and what is inside the last one. -/
structure Growth (Label : Type u) where
  outer : List (Label × Forest Label)
  inner : Forest Label

/-- Nothing is open yet. -/
def Growth.empty : Growth Label where
  outer := []
  inner := nil

/-- The events that a growth has seen. -/
def Growth.seen (growth : Growth Label) : List (Event Label) :=
  growth.outer.foldr (fun frame seen => seen ++ (frame.2.events ++ [.enter frame.1])) [] ++
    growth.inner.events

variable [DecidableEq Label]

/-- One event more. -/
def Growth.step (growth : Growth Label) : Event Label → Option (Growth Label)
  | .enter label => some ⟨(label, growth.inner) :: growth.outer, nil⟩
  | .leave label =>
      match growth.outer with
      | [] => none
      | (opened, before) :: outer =>
          if opened = label then some ⟨outer, before.append (cons label growth.inner nil)⟩ else none

/-- The forest of all operations, if none is open in the end. -/
def Growth.finished (growth : Growth Label) : Option (Forest Label) :=
  if growth.outer = [] then some growth.inner else none

/-- The forest that is walked through by some events. -/
def grow (events : List (Event Label)) : Option (Forest Label) :=
  (events.foldlM Growth.step Growth.empty).bind Growth.finished

theorem foldlM_events (forest : Forest Label) (growth : Growth Label) :
    forest.events.foldlM Growth.step growth =
      some { growth with inner := growth.inner.append forest } := by
  induction forest generalizing growth with
  | nil =>
      rw [append_nil]
      rfl
  | cons label inside rest insideIh restIh =>
      rw [events, List.foldlM_cons, Growth.step, Option.bind_eq_bind, Option.bind_some,
        List.foldlM_append, insideIh, Option.bind_eq_bind, Option.bind_some, List.foldlM_cons]
      simp only [Growth.step, if_true, Option.bind_eq_bind, Option.bind_some, restIh, append,
        append_assoc]

/-- Every forest grows from its walk. -/
theorem grow_events (forest : Forest Label) : grow forest.events = some forest := by
  rw [grow, foldlM_events]
  rfl

theorem seen_step {growth later : Growth Label} {event : Event Label}
    (stepped : growth.step event = some later) : later.seen = growth.seen ++ [event] := by
  cases event with
  | enter label =>
      cases stepped
      simp [Growth.seen, events]
  | leave label =>
      rcases growth with ⟨outer, inner⟩
      cases outer with
      | nil => cases stepped
      | cons frame outer =>
          simp only [Growth.step] at stepped
          split at stepped
          · rename_i same
            cases stepped
            simp [Growth.seen, events, events_append, same]
          · cases stepped

theorem seen_foldlM {growth later : Growth Label} {events : List (Event Label)}
    (stepped : events.foldlM Growth.step growth = some later) :
    later.seen = growth.seen ++ events := by
  induction events generalizing growth with
  | nil =>
      cases stepped
      exact (List.append_nil _).symm
  | cons event events ih =>
      rw [List.foldlM_cons, Option.bind_eq_bind, Option.bind_eq_some_iff] at stepped
      rcases stepped with ⟨middle, first, rest⟩
      rw [ih rest, seen_step first, List.append_assoc, List.singleton_append]

/-- What grows from some events is the forest that they walk through. -/
theorem grow_eq_some_iff {events : List (Event Label)} {forest : Forest Label} :
    grow events = some forest ↔ forest.events = events := by
  constructor
  · intro grown
    rw [grow, Option.bind_eq_some_iff] at grown
    rcases grown with ⟨growth, stepped, finished⟩
    have seen := seen_foldlM stepped
    rw [Growth.finished] at finished
    split at finished
    · rename_i closed
      cases finished
      simpa [Growth.seen, closed, Growth.empty, Forest.events] using seen
    · cases finished
  · rintro rfl
    exact grow_events forest

/-! ### Forests and nested events -/

theorem openAfter_of_growth {events : List (Event Label)} :
    openAfter events = (events.foldlM Growth.step Growth.empty).map
      fun growth => growth.outer.map Prod.fst := by
  induction events using List.reverseRecOn with
  | nil => rfl
  | append_singleton events event ih =>
      rw [openAfter_concat, ih, List.foldlM_append]
      cases events.foldlM Growth.step Growth.empty with
      | none => rfl
      | some growth =>
          rcases growth with ⟨outer, inner⟩
          simp only [Option.map_some, Option.bind_some, Option.bind_eq_bind, List.foldlM_cons,
            List.foldlM_nil]
          cases event with
          | enter label => rfl
          | leave label =>
              cases outer with
              | nil => rfl
              | cons frame outer =>
                  by_cases same : frame.1 = label
                  · simp [openStep, Growth.step, same]
                  · simp [openStep, Growth.step, same]

/-- Events are nested, with nothing open, exactly if they walk through a forest. -/
theorem isBalanced_iff {events : List (Event Label)} :
    IsBalanced events ↔ ∃ forest : Forest Label, forest.events = events := by
  simp only [← grow_eq_some_iff, grow, IsBalanced, openAfter_of_growth]
  cases events.foldlM Growth.step Growth.empty with
  | none => simp
  | some growth =>
      rcases growth with ⟨outer, inner⟩
      cases outer <;> simp [Growth.finished]

end Forest

/-! ### Other labels -/

variable {Label : Type u} {Other : Type v} [DecidableEq Label] [DecidableEq Other]
  {rename : Label → Other} {events : List (Event Label)}

/-- The same event of an operation that has another label. -/
def Event.map (rename : Label → Other) : Event Label → Event Other
  | .enter label => .enter (rename label)
  | .leave label => .leave (rename label)

/-- The same forest with other labels. -/
def Forest.map (rename : Label → Other) : Forest Label → Forest Other
  | nil => nil
  | cons label inside rest => cons (rename label) (inside.map rename) (rest.map rename)

namespace Forest

omit [DecidableEq Label] [DecidableEq Other] in
theorem events_map (forest : Forest Label) :
    (forest.map rename).events = forest.events.map (Event.map rename) := by
  induction forest with
  | nil => rfl
  | cons label inside rest insideIh restIh =>
      simp only [map, Forest.events, insideIh, restIh, List.map_cons, List.map_append, Event.map]

omit [DecidableEq Label] [DecidableEq Other] in
theorem map_map {Third : Type*} (relabel : Other → Third) (rename : Label → Other)
    (forest : Forest Label) :
    (forest.map rename).map relabel = forest.map (relabel ∘ rename) := by
  induction forest with
  | nil => rfl
  | cons label inside rest insideIh restIh => simp only [map, insideIh, restIh, Function.comp_apply]

omit [DecidableEq Label] [DecidableEq Other] in
/-- Labels that do not occur do not matter. -/
theorem map_congr {other : Label → Other} {forest : Forest Label}
    (same : ∀ label, .enter label ∈ forest.events → rename label = other label) :
    forest.map rename = forest.map other := by
  induction forest with
  | nil => rfl
  | cons label inside rest insideIh restIh =>
      have here := same label List.mem_cons_self
      have sameInside := insideIh fun label isInside => same label (by
        simp [Forest.events, isInside])
      have sameRest := restIh fun label isRest => same label (by simp [Forest.events, isRest])
      rw [map, map, here, sameInside, sameRest]

end Forest

/-! ### Pruning -/

/-- Takes out the operations that are not kept; what is inside them takes their place. -/
def Forest.prune (keep : Label → Bool) : Forest Label → Forest Label
  | nil => nil
  | cons label inside rest =>
      if keep label then cons label (inside.prune keep) (rest.prune keep)
      else (inside.prune keep).append (rest.prune keep)

omit [DecidableEq Label] in
/-- Walking through a pruned forest, one meets the operations that are kept. -/
theorem Forest.events_prune (keep : Label → Bool) (forest : Forest Label) :
    (forest.prune keep).events = forest.events.filter fun event => keep event.label := by
  induction forest with
  | nil => rfl
  | cons label inside rest insideIh restIh =>
      rw [prune]
      split
      · rename_i isKept
        simp [Forest.events, isKept, insideIh, restIh]
      · rename_i isTaken
        simp [Forest.events, isTaken, events_append, insideIh, restIh]

omit [DecidableEq Label] in
theorem Forest.events_eq_nil_iff {forest : Forest Label} : forest.events = [] ↔ forest = nil := by
  cases forest <;> simp [Forest.events]

/-- In a nested sequence every outermost operation is nested. -/
theorem openAfter_of_mem_outermost (nested : ∃ stack, openAfter events = some stack)
    {segment : List (Event Label)} (isSegment : segment ∈ outermost events) :
    ∃ stack, openAfter segment = some stack := by
  rcases nested with ⟨stack, nested⟩
  rcases openAfter_outermost nested with ⟨ended, lastOpen⟩
  cases segments : outermost events using List.reverseRecOn with
  | nil =>
      rw [segments] at isSegment
      cases isSegment
  | append_singleton front last =>
      rw [segments] at isSegment ended lastOpen
      rw [List.dropLast_concat] at ended
      rw [List.getLastD_concat] at lastOpen
      rcases List.mem_append.mp isSegment with earlier | isLast
      · exact ⟨[], ended segment earlier⟩
      · rw [List.mem_singleton.mp isLast]
        exact ⟨stack, lastOpen⟩

/-- Events that are nested are so under other labels, with the same operations open. -/
theorem openAfter_map {stack : List Label} (nested : openAfter events = some stack) :
    openAfter (events.map (Event.map rename)) = some (stack.map rename) := by
  induction events using List.reverseRecOn generalizing stack with
  | nil =>
      cases nested
      rfl
  | append_singleton events event ih =>
      rw [openAfter_concat, Option.bind_eq_some_iff] at nested
      rcases nested with ⟨earlier, earlierEq, stepped⟩
      rw [List.map_append, List.map_singleton, openAfter_concat, ih earlierEq, Option.bind_some]
      cases event with
      | enter label =>
          cases stepped
          rfl
      | leave label =>
          rw [openStep_leave_eq_some] at stepped
          subst stepped
          simp [Event.map, openStep]

theorem isBalanced_map_iff {stack : List Label} (nested : openAfter events = some stack) :
    IsBalanced (events.map (Event.map rename)) ↔ IsBalanced events := by
  rw [IsBalanced, IsBalanced, openAfter_map nested, nested, Option.some.injEq, Option.some.injEq,
    List.map_eq_nil_iff]

/-- Taking an item out does not depend on what else is known of the items. -/
theorem pop_map {Item : Type u} {Named : Type u} {Owner : Type u} [DecidableEq Owner]
    (owner : Named → Owner) (name : Item → Named) (who : Owner) (items : List Item) :
    pop owner who (items.map name) =
      (pop (fun item => owner (name item)) who items).map fun found =>
        (name found.1, found.2.map name) := by
  induction items with
  | nil => rfl
  | cons item items ih =>
      by_cases mine : owner (name item) = who
      · simp [pop, mine]
      · simp only [List.map_cons, pop, mine, if_false, ih, Option.map_map]
        rfl

end Nesting
