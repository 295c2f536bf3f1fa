import Mathlib.Algebra.BigOperators.Group.Finset.Basic
import Mathlib.Algebra.BigOperators.Ring.Finset
import Mathlib.Algebra.Group.Action.Defs
import Mathlib.Algebra.Order.BigOperators.Group.Finset
import Mathlib.Data.List.Nodup
import Mathlib.Data.List.Perm.Basic
import Mathlib.Logic.Function.Basic
import Mathlib.Tactic.Linarith
import Mathlib.Tactic.Ring

/-!
# Hash tables with chains

A table keeps its elements in the order in which they came, and each in the chain
of the slot that the hash of its key selects among `2 ^ bits`. The slots are
doubled when a chain reaches a multiple of the capacity; the multiple of a slot is
raised if the doubling leaves its chain longer than it ideally would be, and
doubling ends for good if it was of little use twice in a row.

Three facts hold of every table that additions and removals build: an element is in
the chain of its slot exactly if it is in the table; as long as doubling has not
ended there are fewer than twice the capacity elements for each slot; and no number
that the table keeps is greater than that of the elements it ever had at a time.
-/

universe u v

/-- A hash table with chains. -/
structure Chained (Element : Type u) where
  /-- The elements, oldest first. -/
  order : List Element
  /-- The elements of each slot. -/
  chain : ℕ → List Element
  /-- How many times more than the capacity a chain may hold. -/
  mult : ℕ → ℕ
  /-- The logarithm of the number of slots. -/
  bits : ℕ
  /-- The length that no chain exceeds if the elements are spread evenly. -/
  ideal : ℕ
  /-- How many elements were beyond that length after the last doubling. -/
  nonideal : ℕ
  /-- How many of the last doublings in a row were of little use. -/
  ineffective : ℕ
  /-- Doubling has ended. -/
  fixed : Bool

namespace Chained

variable {Element : Type u} {Key : Type v}

/-- The slot of a key. -/
def slot (hash : Key → ℕ) (bits : ℕ) (key : Key) : ℕ :=
  hash key % 2 ^ bits

/-- A table without elements. -/
def initial (bits : ℕ) : Chained Element where
  order := []
  chain := fun _ => []
  mult := fun _ => 0
  bits := bits
  ideal := 0
  nonideal := 0
  ineffective := 0
  fixed := false

/-! ### Spreading elements over slots -/

/-- Slots while they are being filled. -/
structure Spread (Element : Type u) where
  chain : ℕ → List Element
  mult : ℕ → ℕ
  nonideal : ℕ

/-- Empty slots. -/
def Spread.empty : Spread Element where
  chain := fun _ => []
  mult := fun _ => 0
  nonideal := 0

/-- Puts an element in front of the chain of its slot. -/
def Spread.place (slotOf : Element → ℕ) (ideal : ℕ) (spread : Spread Element)
    (element : Element) : Spread Element :=
  let slot := slotOf element
  let count := (spread.chain slot).length + 1
  { chain := Function.update spread.chain slot (element :: spread.chain slot)
    mult := if ideal < count then Function.update spread.mult slot (count / ideal) else spread.mult
    nonideal := if ideal < count then spread.nonideal + 1 else spread.nonideal }

theorem Spread.mult_place (slotOf : Element → ℕ) (ideal : ℕ) (spread : Spread Element)
    (element : Element) : (spread.place slotOf ideal element).mult =
      Function.update spread.mult (slotOf element)
        ((spread.place slotOf ideal element).mult (slotOf element)) := by
  unfold place
  by_cases long : ideal < (spread.chain (slotOf element)).length + 1 <;> simp [long]

/-- Puts elements into empty slots, one after another. -/
def spreadAll (slotOf : Element → ℕ) (ideal : ℕ) (elements : List Element) : Spread Element :=
  elements.foldl (Spread.place slotOf ideal) Spread.empty

theorem spreadAll_concat (slotOf : Element → ℕ) (ideal : ℕ) (elements : List Element)
    (element : Element) : spreadAll slotOf ideal (elements ++ [element]) =
      (spreadAll slotOf ideal elements).place slotOf ideal element := by
  simp [spreadAll]

theorem chain_spreadAll (slotOf : Element → ℕ) (ideal : ℕ) (elements : List Element) (index : ℕ) :
    (spreadAll slotOf ideal elements).chain index =
      (elements.filter fun element => slotOf element = index).reverse := by
  induction elements using List.reverseRecOn with
  | nil => rfl
  | append_singleton elements element ih =>
      rw [spreadAll_concat, List.filter_append, List.reverse_append]
      by_cases here : slotOf element = index
      · subst here
        simp [Spread.place, ih]
      · simp [Spread.place, Function.update_of_ne (Ne.symm here), ih, here]

theorem mult_spreadAll (slotOf : Element → ℕ) (ideal : ℕ) (elements : List Element) (index : ℕ) :
    (spreadAll slotOf ideal elements).mult index =
      if ideal < ((spreadAll slotOf ideal elements).chain index).length
      then ((spreadAll slotOf ideal elements).chain index).length / ideal else 0 := by
  induction elements using List.reverseRecOn with
  | nil => simp [spreadAll, Spread.empty]
  | append_singleton elements element ih =>
      rw [spreadAll_concat]
      by_cases here : slotOf element = index
      · subst here
        by_cases long : ideal < ((spreadAll slotOf ideal elements).chain (slotOf element)).length + 1
        · simp [Spread.place, long]
        · have notLong : ¬ideal < ((spreadAll slotOf ideal elements).chain
              (slotOf element)).length := by omega
          simp [Spread.place, long, ih, notLong]
      · by_cases long : ideal < ((spreadAll slotOf ideal elements).chain (slotOf element)).length + 1
        · simp [Spread.place, long, Function.update_of_ne (Ne.symm here), ih]
        · simp [Spread.place, long, Function.update_of_ne (Ne.symm here), ih]

/-! ### Operations -/

/-- The length of the chains if `count` elements are spread evenly over `2 ^ bits` slots. -/
def idealLength (count bits : ℕ) : ℕ :=
  count / 2 ^ bits + if count % 2 ^ bits = 0 then 0 else 1

/-- The elements in the order in which a walk through the slots meets them. -/
def walk (table : Chained Element) : List Element :=
  (List.range (2 ^ table.bits)).flatMap table.chain

section Operations

variable (key : Element → Key) (hash : Key → ℕ) (capacity : ℕ)

/-- Doubles the slots. -/
def expand (table : Chained Element) : Chained Element :=
  let bits := table.bits + 1
  let ideal := idealLength table.order.length bits
  let spread := spreadAll (fun element => slot hash bits (key element)) ideal table.walk
  let ineffective := if table.order.length / 2 < spread.nonideal then table.ineffective + 1 else 0
  { order := table.order
    chain := spread.chain
    mult := spread.mult
    bits := bits
    ideal := ideal
    nonideal := spread.nonideal
    ineffective := ineffective
    fixed := if 1 < ineffective then true else table.fixed }

/-- Puts an element behind the others and in front of the chain of its slot. -/
def push (table : Chained Element) (element : Element) : Chained Element :=
  let index := slot hash table.bits (key element)
  { table with
    order := table.order ++ [element]
    chain := Function.update table.chain index (element :: table.chain index) }

/-- Adds an element, and doubles the slots if its chain has become too long. -/
def add (table : Chained Element) (element : Element) : Chained Element :=
  let pushed := table.push key hash element
  let index := slot hash table.bits (key element)
  if (table.mult index + 1) * capacity ≤ (pushed.chain index).length ∧ table.fixed = false then
    pushed.expand key hash
  else pushed

variable [DecidableEq Element] [DecidableEq Key]

/-- Takes an element out. -/
def erase (table : Chained Element) (element : Element) : Chained Element :=
  let index := slot hash table.bits (key element)
  { table with
    order := table.order.erase element
    chain := Function.update table.chain index ((table.chain index).erase element) }

/-- Takes an element out; without elements the table starts anew with `2 ^ bits` slots. -/
def remove (bits : ℕ) (table : Chained Element) (element : Element) : Chained Element :=
  if table.order = [element] then initial bits else table.erase key hash element

/-- The first element with a key in the chain of its slot. -/
def find (table : Chained Element) (asked : Key) : Option Element :=
  (table.chain (slot hash table.bits asked)).find? fun element => key element = asked

end Operations

/-! ### Chains hold the elements of the table -/

/-- Every element is in the chain of its slot, once. -/
structure WellFormed (key : Element → Key) (hash : Key → ℕ) (table : Chained Element) : Prop where
  nodup : table.order.Nodup
  nodup_chain : ∀ index < 2 ^ table.bits, (table.chain index).Nodup
  mem_chain : ∀ index < 2 ^ table.bits, ∀ element, element ∈ table.chain index ↔
    element ∈ table.order ∧ slot hash table.bits (key element) = index

variable {key : Element → Key} {hash : Key → ℕ} {capacity bits : ℕ} {table : Chained Element}
  {element : Element}

theorem slot_lt (hash : Key → ℕ) (bits : ℕ) (key : Key) : slot hash bits key < 2 ^ bits :=
  Nat.mod_lt _ (Nat.two_pow_pos bits)

theorem wellFormed_initial : (initial bits : Chained Element).WellFormed key hash where
  nodup := List.nodup_nil
  nodup_chain := fun _ _ => List.nodup_nil
  mem_chain := by simp [initial]

namespace WellFormed

theorem mem_walk (wellFormed : table.WellFormed key hash) :
    element ∈ table.walk ↔ element ∈ table.order := by
  rw [walk, List.mem_flatMap]
  constructor
  · rintro ⟨index, inRange, inChain⟩
    exact ((wellFormed.mem_chain index (List.mem_range.mp inRange) element).mp inChain).1
  · intro inOrder
    have below := slot_lt hash table.bits (key element)
    exact ⟨_, List.mem_range.mpr below, (wellFormed.mem_chain _ below element).mpr ⟨inOrder, rfl⟩⟩

theorem nodup_walk (wellFormed : table.WellFormed key hash) : table.walk.Nodup := by
  rw [walk, List.nodup_flatMap]
  refine ⟨fun index inRange => wellFormed.nodup_chain index (List.mem_range.mp inRange), ?_⟩
  refine List.nodup_range.imp_of_mem ?_
  intro index other inRange otherInRange different element inChain inOther
  have here := (wellFormed.mem_chain index (List.mem_range.mp inRange) element).mp inChain
  have there := (wellFormed.mem_chain other (List.mem_range.mp otherInRange) element).mp inOther
  exact different (here.2.symm.trans there.2)

theorem perm_walk (wellFormed : table.WellFormed key hash) : table.walk.Perm table.order :=
  (List.perm_ext_iff_of_nodup wellFormed.nodup_walk wellFormed.nodup).mpr
    fun _ => wellFormed.mem_walk

theorem sum_length (wellFormed : table.WellFormed key hash) :
    ∑ index ∈ Finset.range (2 ^ table.bits), (table.chain index).length = table.order.length := by
  rw [← wellFormed.perm_walk.length_eq, walk, List.length_flatMap]
  rfl

theorem expand (wellFormed : table.WellFormed key hash) :
    (table.expand key hash).WellFormed key hash where
  nodup := wellFormed.nodup
  nodup_chain := by
    intro index _
    simp only [Chained.expand, chain_spreadAll, List.nodup_reverse]
    exact wellFormed.nodup_walk.filter _
  mem_chain := by
    intro index _ element
    simp [Chained.expand, chain_spreadAll, wellFormed.mem_walk]

theorem push (wellFormed : table.WellFormed key hash) (fresh : element ∉ table.order) :
    (table.push key hash element).WellFormed key hash where
  nodup := by
    refine List.nodup_append.mpr ⟨wellFormed.nodup, List.nodup_singleton element, ?_⟩
    rintro other otherInOrder _ isElement rfl
    exact fresh (List.mem_singleton.mp isElement ▸ otherInOrder)
  nodup_chain := by
    intro index below
    by_cases here : index = slot hash table.bits (key element)
    · subst here
      simp only [Chained.push, Function.update_self]
      refine List.nodup_cons.mpr ⟨fun inChain => fresh ?_, wellFormed.nodup_chain _ below⟩
      exact ((wellFormed.mem_chain _ below element).mp inChain).1
    · simp only [Chained.push, Function.update_of_ne here]
      exact wellFormed.nodup_chain index below
  mem_chain := by
    intro index below other
    have old := wellFormed.mem_chain index below other
    by_cases here : index = slot hash table.bits (key element)
    · subst here
      simp only [Chained.push, Function.update_self, List.mem_cons, old, List.mem_append,
        List.not_mem_nil, or_false]
      constructor
      · rintro (rfl | ⟨inOrder, same⟩)
        · exact ⟨Or.inr rfl, rfl⟩
        · exact ⟨Or.inl inOrder, same⟩
      · rintro ⟨inOrder | rfl, same⟩
        · exact Or.inr ⟨inOrder, same⟩
        · exact Or.inl rfl
    · simp only [Chained.push, Function.update_of_ne here, old, List.mem_append,
        List.mem_singleton]
      constructor
      · exact fun ⟨inOrder, same⟩ => ⟨Or.inl inOrder, same⟩
      · rintro ⟨inOrder | rfl, same⟩
        · exact ⟨inOrder, same⟩
        · exact absurd same.symm here

variable [DecidableEq Element]

theorem erase (wellFormed : table.WellFormed key hash) (element : Element) :
    (table.erase key hash element).WellFormed key hash where
  nodup := wellFormed.nodup.erase element
  nodup_chain := by
    intro index below
    by_cases here : index = slot hash table.bits (key element)
    · subst here
      simp only [Chained.erase, Function.update_self]
      exact (wellFormed.nodup_chain _ below).erase element
    · simp only [Chained.erase, Function.update_of_ne here]
      exact wellFormed.nodup_chain index below
  mem_chain := by
    intro index below other
    have old := wellFormed.mem_chain index below other
    simp only [Chained.erase, wellFormed.nodup.mem_erase_iff]
    by_cases here : index = slot hash table.bits (key element)
    · subst here
      rw [Function.update_self, (wellFormed.nodup_chain _ below).mem_erase_iff, old, and_assoc]
    · rw [Function.update_of_ne here, old]
      constructor
      · rintro ⟨inOrder, same⟩
        refine ⟨⟨?_, inOrder⟩, same⟩
        rintro rfl
        exact here same.symm
      · exact fun ⟨⟨_, inOrder⟩, same⟩ => ⟨inOrder, same⟩

end WellFormed

/-! ### Lookups -/

section Lookups

variable [DecidableEq Key] {asked : Key}

/-- What is found is in the table and has the key. -/
theorem mem_of_find (wellFormed : table.WellFormed key hash)
    (found : table.find key hash asked = some element) :
    element ∈ table.order ∧ key element = asked := by
  have inChain := List.mem_of_find?_eq_some found
  refine ⟨((wellFormed.mem_chain _ (slot_lt hash table.bits asked) element).mp inChain).1, ?_⟩
  simpa using List.find?_some found

/-- Nothing is missed, however the chains have been doubled. -/
theorem find_eq_none_iff (wellFormed : table.WellFormed key hash) :
    table.find key hash asked = none ↔ ∀ element ∈ table.order, key element ≠ asked := by
  rw [find, List.find?_eq_none]
  simp only [wellFormed.mem_chain _ (slot_lt hash table.bits asked), decide_eq_true_eq]
  constructor
  · intro missing element inOrder same
    exact missing element ⟨inOrder, by rw [same]⟩ same
  · exact fun missing element inChain => missing element inChain.1

end Lookups

/-! ### The load -/

/-- No chain has outgrown its slot, and the slots together allow twice the capacity at most. -/
structure Bounded (capacity : ℕ) (table : Chained Element) : Prop where
  sum_mult : ∑ index ∈ Finset.range (2 ^ table.bits), (table.mult index + 1) ≤ 2 * 2 ^ table.bits
  length_le : ∀ index < 2 ^ table.bits,
    (table.chain index).length ≤ (table.mult index + 1) * capacity
  length_lt : ∀ index < 2 ^ table.bits, 0 < table.mult index →
    (table.chain index).length < (table.mult index + 1) * capacity

theorem bounded_initial : (initial bits : Chained Element).Bounded capacity where
  sum_mult := by simp [initial]
  length_le := by simp [initial]
  length_lt := by simp [initial]

theorem le_idealLength_mul (count bits : ℕ) : count ≤ idealLength count bits * 2 ^ bits := by
  have positive := Nat.two_pow_pos bits
  have parts := Nat.div_add_mod count (2 ^ bits)
  have small := Nat.mod_lt count positive
  unfold idealLength
  split
  · rw [Nat.add_zero, Nat.mul_comm]
    omega
  · rw [Nat.add_mul, Nat.mul_comm (count / 2 ^ bits)]
    omega

theorem idealLength_le {count bits bound : ℕ} (few : count ≤ bound * 2 ^ bits) :
    idealLength count bits ≤ bound := by
  have positive := Nat.two_pow_pos bits
  unfold idealLength
  split
  · rw [Nat.add_zero]
    exact Nat.div_le_of_le_mul (by rwa [Nat.mul_comm] at few)
  · rename_i remainder
    have parts := Nat.div_add_mod count (2 ^ bits)
    have below : count / 2 ^ bits < bound := by
      by_contra tooMany
      have := Nat.mul_le_mul_left (2 ^ bits) (not_lt.mp tooMany)
      rw [Nat.mul_comm (2 ^ bits) bound] at this
      omega
    omega

theorem idealLength_le_self (count bits : ℕ) : idealLength count bits ≤ count :=
  idealLength_le (Nat.le_mul_of_pos_right count (Nat.two_pow_pos bits))

theorem idealLength_pos {count : ℕ} (some : 0 < count) (bits : ℕ) : 0 < idealLength count bits := by
  by_contra none
  have few := le_idealLength_mul count bits
  rw [Nat.eq_zero_of_not_pos none, Nat.zero_mul] at few
  omega

namespace Bounded

/-- The load of a table that is within its bounds. -/
theorem length_order (bounded : table.Bounded capacity) (wellFormed : table.WellFormed key hash)
    (positive : 0 < capacity) : table.order.length < 2 * capacity * 2 ^ table.bits := by
  have total : table.order.length ≤
      (∑ index ∈ Finset.range (2 ^ table.bits), (table.mult index + 1)) * capacity := by
    rw [← wellFormed.sum_length, Finset.sum_mul]
    exact Finset.sum_le_sum fun index inRange =>
      bounded.length_le index (Finset.mem_range.mp inRange)
  by_cases tight : ∃ index < 2 ^ table.bits, 0 < table.mult index
  · rcases tight with ⟨index, below, raised⟩
    have strict : table.order.length <
        (∑ index ∈ Finset.range (2 ^ table.bits), (table.mult index + 1)) * capacity := by
      rw [← wellFormed.sum_length, Finset.sum_mul]
      exact Finset.sum_lt_sum (fun index inRange =>
        bounded.length_le index (Finset.mem_range.mp inRange))
        ⟨index, Finset.mem_range.mpr below, bounded.length_lt index below raised⟩
    calc table.order.length
        < (∑ index ∈ Finset.range (2 ^ table.bits), (table.mult index + 1)) * capacity := strict
      _ ≤ 2 * 2 ^ table.bits * capacity := Nat.mul_le_mul_right capacity bounded.sum_mult
      _ = 2 * capacity * 2 ^ table.bits := by ring
  · have level : ∑ index ∈ Finset.range (2 ^ table.bits), (table.mult index + 1) =
        ∑ _index ∈ Finset.range (2 ^ table.bits), 1 := by
      apply Finset.sum_congr rfl
      intro index inRange
      by_contra raised
      exact tight ⟨index, Finset.mem_range.mp inRange, by omega⟩
    rw [level, Finset.sum_const, Finset.card_range, smul_eq_mul, Nat.mul_one] at total
    have room : 0 < capacity * 2 ^ table.bits :=
      Nat.mul_pos positive (Nat.two_pow_pos table.bits)
    calc table.order.length
        ≤ 2 ^ table.bits * capacity := total
      _ < 2 * capacity * 2 ^ table.bits := by
          rw [Nat.mul_comm (2 ^ table.bits), Nat.mul_assoc]
          omega

/-- A doubling that comes in time leaves the slots within their bounds. -/
theorem of_expand (wellFormed : table.WellFormed key hash) (some : 0 < table.order.length)
    (few : table.order.length ≤ 2 * capacity * 2 ^ table.bits) :
    (table.expand key hash).Bounded capacity := by
  have grown := (wellFormed.expand).sum_length
  have multEq : ∀ index, (table.expand key hash).mult index =
      if (table.expand key hash).ideal < ((table.expand key hash).chain index).length
      then ((table.expand key hash).chain index).length / (table.expand key hash).ideal else 0 :=
    fun index => mult_spreadAll _ _ _ index
  have idealEq : (table.expand key hash).ideal =
      idealLength table.order.length (table.bits + 1) := rfl
  have idealPos : 0 < (table.expand key hash).ideal := idealLength_pos some _
  have idealLe : (table.expand key hash).ideal ≤ capacity := by
    apply idealLength_le
    rw [Nat.pow_succ]
    linarith
  have orderLe : (table.expand key hash).order.length ≤
      (table.expand key hash).ideal * 2 ^ (table.expand key hash).bits :=
    le_idealLength_mul _ _
  generalize table.expand key hash = expanded at *
  have long : ∀ index, 0 < expanded.mult index →
      (expanded.chain index).length < (expanded.mult index + 1) * capacity := by
    intro index raised
    rw [multEq] at raised ⊢
    split at raised
    · rename_i exceeds
      rw [if_pos exceeds]
      calc (expanded.chain index).length
          < ((expanded.chain index).length / expanded.ideal + 1) * expanded.ideal :=
            Nat.lt_mul_of_div_lt (Nat.lt_succ_self _) idealPos
        _ ≤ ((expanded.chain index).length / expanded.ideal + 1) * capacity :=
            Nat.mul_le_mul_left _ idealLe
    · cases raised
  refine ⟨?_, ?_, fun index _ => long index⟩
  · have each : ∀ index ∈ Finset.range (2 ^ expanded.bits),
        expanded.mult index * expanded.ideal ≤ (expanded.chain index).length := by
      intro index _
      rw [multEq]
      split
      · exact Nat.div_mul_le_self _ _
      · rw [Nat.zero_mul]
        exact Nat.zero_le _
    have total := Finset.sum_le_sum each
    rw [grown, ← Finset.sum_mul] at total
    have multLe : ∑ index ∈ Finset.range (2 ^ expanded.bits), expanded.mult index ≤
        2 ^ expanded.bits := by
      apply Nat.le_of_mul_le_mul_right _ idealPos
      rw [Nat.mul_comm (2 ^ expanded.bits)]
      exact total.trans orderLe
    rw [Finset.sum_add_distrib, Finset.sum_const, Finset.card_range, smul_eq_mul, Nat.mul_one]
    omega
  · intro index _
    by_cases raised : 0 < expanded.mult index
    · exact (long index raised).le
    · have level : expanded.mult index = 0 := by omega
      rw [level, Nat.zero_add, Nat.one_mul]
      have := multEq index
      rw [level] at this
      split at this
      · rename_i exceeds
        have := Nat.div_pos exceeds.le idealPos
        omega
      · omega

theorem push (bounded : table.Bounded capacity)
    (room : ((table.push key hash element).chain (slot hash table.bits (key element))).length <
      (table.mult (slot hash table.bits (key element)) + 1) * capacity) :
    (table.push key hash element).Bounded capacity where
  sum_mult := bounded.sum_mult
  length_le := by
    intro index below
    by_cases here : index = slot hash table.bits (key element)
    · exact here ▸ room.le
    · simp only [Chained.push, Function.update_of_ne here]
      exact bounded.length_le index below
  length_lt := by
    intro index below raised
    by_cases here : index = slot hash table.bits (key element)
    · exact here ▸ room
    · simp only [Chained.push, Function.update_of_ne here]
      exact bounded.length_lt index below raised

variable [DecidableEq Element]

theorem length_chain_erase_le (table : Chained Element) (element : Element) (index : ℕ) :
    ((table.erase key hash element).chain index).length ≤ (table.chain index).length := by
  by_cases here : index = slot hash table.bits (key element)
  · subst here
    simp only [Chained.erase, Function.update_self]
    exact List.length_erase_le
  · simp only [Chained.erase, Function.update_of_ne here]
    exact le_refl _

theorem erase (bounded : table.Bounded capacity) (element : Element) :
    (table.erase key hash element).Bounded capacity where
  sum_mult := bounded.sum_mult
  length_le := fun index below =>
    (length_chain_erase_le table element index).trans (bounded.length_le index below)
  length_lt := fun index below raised =>
    (length_chain_erase_le table element index).trans_lt (bounded.length_lt index below raised)

end Bounded

/-- A table is within its bounds until doubling has ended. -/
def Loaded (capacity : ℕ) (table : Chained Element) : Prop :=
  table.fixed = false → table.Bounded capacity

namespace Loaded

theorem add (loaded : table.Loaded capacity) (wellFormed : table.WellFormed key hash)
    (positive : 0 < capacity) (fresh : element ∉ table.order) :
    (table.add key hash capacity element).Loaded capacity := by
  intro notFixed
  simp only [Chained.add] at notFixed ⊢
  split at notFixed
  · rename_i doubles
    rw [if_pos doubles]
    have old := (loaded doubles.2).length_order wellFormed positive
    have counted : (table.push key hash element).order.length = table.order.length + 1 := by
      simp [Chained.push]
    apply Bounded.of_expand (wellFormed.push fresh)
    · omega
    · rw [counted]
      exact old
  · rename_i stays
    rw [if_neg stays]
    have bounded := loaded notFixed
    apply bounded.push
    by_contra full
    exact stays ⟨not_lt.mp full, notFixed⟩

theorem remove [DecidableEq Element] (loaded : table.Loaded capacity) (bits : ℕ)
    (element : Element) : (table.remove key hash bits element).Loaded capacity := by
  unfold Chained.remove
  split
  · exact fun _ => bounded_initial
  · exact fun notFixed => (loaded notFixed).erase element

end Loaded

/-! ### The numbers that a table keeps -/

/--
The numbers that a table keeps about its elements are below a limit, and doubling
ends after the second time in a row that it was of little use.
-/
structure Within (limit : ℕ) (table : Chained Element) : Prop where
  ideal : table.ideal ≤ limit
  nonideal : table.nonideal ≤ limit
  mult : ∀ index, table.mult index ≤ limit
  ineffective : table.ineffective ≤ 2
  goesOn : table.fixed = false → table.ineffective ≤ 1

theorem nonideal_spreadAll_le (slotOf : Element → ℕ) (ideal : ℕ) (elements : List Element) :
    (spreadAll slotOf ideal elements).nonideal ≤ elements.length := by
  induction elements using List.reverseRecOn with
  | nil => exact le_refl _
  | append_singleton elements element ih =>
      have once : ((spreadAll slotOf ideal elements).place slotOf ideal element).nonideal ≤
          (spreadAll slotOf ideal elements).nonideal + 1 := by
        simp only [Spread.place]
        split <;> omega
      rw [spreadAll_concat, List.length_append, List.length_singleton]
      exact once.trans (Nat.succ_le_succ ih)

theorem mult_spreadAll_le (slotOf : Element → ℕ) (ideal : ℕ) (elements : List Element)
    (index : ℕ) : (spreadAll slotOf ideal elements).mult index ≤ elements.length := by
  have inside : ((spreadAll slotOf ideal elements).chain index).length ≤ elements.length := by
    rw [chain_spreadAll, List.length_reverse]
    exact List.length_filter_le _ _
  rw [mult_spreadAll]
  split
  · exact (Nat.div_le_self _ _).trans inside
  · exact Nat.zero_le _

namespace Within

variable {limit : ℕ}

theorem initial (limit bits : ℕ) : (Chained.initial bits : Chained Element).Within limit :=
  ⟨Nat.zero_le _, Nat.zero_le _, fun _ => Nat.zero_le _, Nat.zero_le _, fun _ => Nat.zero_le _⟩

/-- A doubling counts the elements anew, and does not come after the end of doubling. -/
theorem expand (within : table.Within limit) (wellFormed : table.WellFormed key hash)
    (notFixed : table.fixed = false) (few : table.order.length ≤ limit) :
    (table.expand key hash).Within limit := by
  have walked : table.walk.length ≤ limit := wellFormed.perm_walk.length_eq.trans_le few
  have once := within.goesOn notFixed
  have again : (table.expand key hash).ineffective ≤ table.ineffective + 1 := by
    simp only [Chained.expand]
    split <;> omega
  refine ⟨(idealLength_le_self _ _).trans few, (nonideal_spreadAll_le _ _ _).trans walked,
    fun index => (mult_spreadAll_le _ _ _ index).trans walked, by omega, ?_⟩
  intro goesOn
  have ends : (table.expand key hash).fixed =
      if 1 < (table.expand key hash).ineffective then true else table.fixed := rfl
  by_contra many
  rw [ends, if_pos (not_le.mp many)] at goesOn
  cases goesOn

theorem add (within : table.Within limit) (wellFormed : table.WellFormed key hash)
    (fresh : element ∉ table.order) (few : table.order.length + 1 ≤ limit) :
    (table.add key hash capacity element).Within limit := by
  have pushed : (table.push key hash element).Within limit :=
    ⟨within.ideal, within.nonideal, within.mult, within.ineffective, within.goesOn⟩
  simp only [Chained.add]
  split
  · rename_i doubles
    exact pushed.expand (wellFormed.push fresh) doubles.2 (by simpa [Chained.push] using few)
  · exact pushed

theorem remove [DecidableEq Element] (within : table.Within limit) (bits : ℕ)
    (element : Element) : (table.remove key hash bits element).Within limit := by
  unfold Chained.remove
  split
  · exact .initial limit bits
  · exact ⟨within.ideal, within.nonideal, within.mult, within.ineffective, within.goesOn⟩

end Within

/-- An addition doubles the slots once at most. -/
theorem bits_add_le (table : Chained Element) (element : Element) :
    (table.add key hash capacity element).bits ≤ table.bits + 1 := by
  simp only [add]
  split
  · exact le_refl _
  · exact Nat.le_succ _

theorem bits_remove_le [DecidableEq Element] (table : Chained Element) (element : Element) :
    (table.remove key hash bits element).bits ≤ max bits table.bits := by
  unfold remove
  split
  · exact le_max_left _ _
  · exact le_max_right _ _

end Chained
