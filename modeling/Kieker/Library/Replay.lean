import Mathlib.Data.List.Basic

/-!
# Replaying a record of calls

A record of calls is replayed from some state; a guard says which call is allowed
in which state. `Guarded next allows state calls` says that every call on record
was allowed when it was made.
-/

universe u v

namespace Replay

variable {State : Type u} {Call : Type v}

/-- Every call is allowed in the state that the calls before it lead to. -/
def Guarded (next : State → Call → State) (allows : State → Call → Prop) :
    State → List Call → Prop
  | _, [] => True
  | state, call :: calls => allows state call ∧ Guarded next allows (next state call) calls

namespace Guarded

variable {next : State → Call → State} {allows : State → Call → Prop} {state : State}
  {calls : List Call}

theorem append_iff (front back : List Call) :
    Guarded next allows state (front ++ back) ↔
      Guarded next allows state front ∧ Guarded next allows (front.foldl next state) back := by
  induction front generalizing state with
  | nil => simp [Guarded]
  | cons call front ih => simp [Guarded, ih, and_assoc]

theorem append {front back : List Call} (first : Guarded next allows state front)
    (second : Guarded next allows (front.foldl next state) back) :
    Guarded next allows state (front ++ back) :=
  (append_iff front back).mpr ⟨first, second⟩

theorem allowed {front back : List Call} {call : Call}
    (guarded : Guarded next allows state (front ++ call :: back)) :
    allows (front.foldl next state) call :=
  ((append_iff front (call :: back)).mp guarded).2.1

end Guarded

variable {next : State → Call → State} {allows : State → Call → Prop} {state : State}
  {calls : List Call}

theorem foldl_of_still (still : ∀ call ∈ calls, next state call = state) :
    calls.foldl next state = state := by
  induction calls with
  | nil => rfl
  | cons call calls ih =>
      rw [List.foldl_cons, still call List.mem_cons_self]
      exact ih fun other other_mem => still other (List.mem_cons_of_mem call other_mem)

/-- Calls that change nothing are allowed together if each of them is. -/
theorem guarded_of_still (still : ∀ call ∈ calls, next state call = state)
    (allowed : ∀ call ∈ calls, allows state call) : Guarded next allows state calls := by
  induction calls with
  | nil => trivial
  | cons call calls ih =>
      refine ⟨allowed call List.mem_cons_self, ?_⟩
      rw [still call List.mem_cons_self]
      exact ih (fun other other_mem => still other (List.mem_cons_of_mem call other_mem))
        fun other other_mem => allowed other (List.mem_cons_of_mem call other_mem)

end Replay
