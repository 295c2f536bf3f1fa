import Mathlib.Data.List.Basic

/-!
# Runs of labelled steps

`Steps step start labels finish` says that the steps with the given labels, one
after another, lead from `start` to `finish`. Runs grow at their end, so an
induction over a run has the last step at hand, and `Steps.invariant` turns a
fact that every step keeps into a fact of every state a run reaches.
-/

universe u v

/-- A finite run of a labelled step relation. -/
inductive Steps {State : Type u} {Label : Type v} (step : State → Label → State → Prop) :
    State → List Label → State → Prop
  | nil (start : State) : Steps step start [] start
  | snoc {start middle finish : State} {labels : List Label} {label : Label}
      (run : Steps step start labels middle) (last : step middle label finish) :
      Steps step start (labels ++ [label]) finish

namespace Steps

variable {State : Type u} {Label : Type v} {step : State → Label → State → Prop}

theorem single {start finish : State} {label : Label} (only : step start label finish) :
    Steps step start [label] finish :=
  snoc (nil start) only

theorem cons {start middle finish : State} {label : Label} {labels : List Label}
    (first : step start label middle) (run : Steps step middle labels finish) :
    Steps step start (label :: labels) finish := by
  induction run with
  | nil => exact single first
  | snoc _ last ih => exact snoc ih last

theorem append {start middle finish : State} {front back : List Label}
    (first : Steps step start front middle) (second : Steps step middle back finish) :
    Steps step start (front ++ back) finish := by
  induction second with
  | nil => simpa using first
  | snoc _ last ih =>
      rw [← List.append_assoc]
      exact snoc ih last

theorem of_foldlM {State : Type u} {Label : Type v} {next : State → Label → Option State}
    {labels : List Label} {start finish : State} (done : labels.foldlM next start = some finish) :
    Steps (fun before label after => next before label = some after) start labels finish := by
  induction labels generalizing start with
  | nil =>
      cases done
      exact nil _
  | cons label labels ih =>
      rw [List.foldlM_cons, Option.bind_eq_bind, Option.bind_eq_some_iff] at done
      rcases done with ⟨middle, first, rest⟩
      exact cons first (ih rest)

/-- What holds at the start and is kept by every step holds in every state reached. -/
theorem invariant {Holds : State → Prop} (kept : ∀ {before label after},
    Holds before → step before label after → Holds after) {start finish : State}
    {labels : List Label} (run : Steps step start labels finish) (initially : Holds start) :
    Holds finish := by
  induction run with
  | nil => exact initially
  | snoc _ last ih => exact kept ih last

/-- A run of steps is a run of any relation that allows those steps. -/
theorem mono {other : State → Label → State → Prop}
    (allowed : ∀ {before label after}, step before label after → other before label after)
    {start finish : State} {labels : List Label} (run : Steps step start labels finish) :
    Steps other start labels finish := by
  induction run with
  | nil => exact nil start
  | snoc _ last ih => exact snoc ih (allowed last)

end Steps
