import Mathlib.Data.List.Basic
import Mathlib.Data.List.Induction

/-!
# Declared before use

The items of a list declare names and use names. The list is well scoped if every
name is declared by an earlier item than the one that uses it.
-/

universe u v

variable {Item : Type u} {Name : Type v}

/-- Some item of the list declares the name. -/
def Declared (declares : Item → List Name) (items : List Item) (name : Name) : Prop :=
  ∃ item ∈ items, name ∈ declares item

/-- Every name that an item uses is declared by an earlier item. -/
def WellScoped (declares uses : Item → List Name) (items : List Item) : Prop :=
  ∀ front item back, items = front ++ item :: back →
    ∀ name ∈ uses item, Declared declares front name

section

variable {declares uses : Item → List Name} {front back items : List Item} {name : Name}

theorem Declared.append_left (declared : Declared declares front name) (back : List Item) :
    Declared declares (front ++ back) name := by
  rcases declared with ⟨item, item_mem, isDeclared⟩
  exact ⟨item, List.mem_append_left back item_mem, isDeclared⟩

namespace WellScoped

theorem nil : WellScoped declares uses [] := by
  intro front item back whole
  simp at whole

/-- One more item is in scope if the names that it uses are declared so far. -/
theorem concat {item : Item} (inOrder : WellScoped declares uses items)
    (declared : ∀ name ∈ uses item, Declared declares items name) :
    WellScoped declares uses (items ++ [item]) := by
  intro front other back whole
  rcases List.eq_nil_or_concat back with rfl | ⟨init, last, rfl⟩
  · rcases List.append_inj' whole rfl with ⟨rfl, sameLast⟩
    cases sameLast
    exact declared
  · have split : items ++ [item] = (front ++ other :: init) ++ [last] := by
      simpa using whole
    rcases List.append_inj' split rfl with ⟨same, -⟩
    exact inOrder front other init same

/-- Items that only use names declared so far, or none, may follow. -/
theorem append (inOrder : WellScoped declares uses front)
    (declared : ∀ item ∈ back, ∀ name ∈ uses item, Declared declares front name) :
    WellScoped declares uses (front ++ back) := by
  induction back using List.reverseRecOn with
  | nil => simpa using inOrder
  | append_singleton back item ih =>
      rw [← List.append_assoc]
      apply concat (ih fun other other_mem => declared other (List.mem_append_left _ other_mem))
      intro name used
      exact (declared item (by simp) name used).append_left back

end WellScoped

end
