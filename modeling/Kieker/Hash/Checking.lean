import Kieker.Hash.Refinement

/-!
# The integrity check

`HASH_FSCK` walks through every chain and through all the elements in their order,
compares each pointer back with where the walk came from, and counts. A table that
represents a chained table passes.
-/

namespace Kieker

namespace HashMemory

variable {hashFcn : List UInt8 → BitVec 32} {memory : HashMemory} {tbl fuel : ℕ}
  {table : UTHashTable} {chained : HashTable} {head : Option ℕ}

/-- The walk along a list comes to its end and has counted its cells. -/
theorem hashCheckLinks_eq {next prev : UTHashHandle → Option ℕ} {before : Option ℕ}
    {cells : List ℕ}
    (joins : (Links.mk (fun address => (memory.handle address).bind next)
      fun address => (memory.handle address).bind prev).Joins before cells none)
    (present : ∀ cell ∈ cells, memory.Present cell) (enough : cells.length ≤ fuel) :
    hashCheckLinks memory next prev fuel before cells.head? = some (some cells.length) := by
  induction cells generalizing before fuel with
  | nil => cases fuel <;> rfl
  | cons cell cells ih =>
      cases fuel with
      | zero => simp at enough
      | succ fuel =>
          rcases Option.isSome_iff_exists.mp (present cell List.mem_cons_self) with ⟨handle, found⟩
          rcases joins with ⟨prevEq, nextEq, joins⟩
          simp only [found, Option.bind_some, Option.or_none] at prevEq nextEq
          have later := ih joins (fun other isLater => present other (List.mem_cons_of_mem _ isLater))
            (Nat.le_of_succ_le_succ enough)
          simp only [List.head?_cons, hashCheckLinks, found, Option.bind_eq_bind, Option.bind_some,
            prevEq, nextEq, later, ne_eq, not_true_eq_false, if_false, Option.map_some,
            List.length_cons]

namespace Describes

/-- The walks through some buckets have counted the elements in their chains. -/
theorem hashCheckBuckets_eq (describes : memory.Describes hashFcn tbl table chained)
    (enough : chained.order.length ≤ fuel) {indices : List ℕ}
    (inside : ∀ index ∈ indices, index < 2 ^ chained.bits) :
    hashCheckBuckets fuel memory table.buckets indices =
      some (some (indices.flatMap chained.chain).length) := by
  induction indices with
  | nil => rfl
  | cons index indices ih =>
      have below := inside index List.mem_cons_self
      have present : ∀ cell ∈ addresses (chained.chain index), memory.Present cell := by
        intro cell isCell
        rcases address_mem_chain describes.wellFormed below isCell with ⟨entry, inOrder, rfl, -⟩
        exact (describes.stored entry inOrder).present
      have short : (addresses (chained.chain index)).length ≤ fuel := by
        rw [addresses, List.length_map]
        exact (describes.length_chain_le below).trans enough
      have checked := hashCheckLinks_eq (describes.counts.fills.isList index below) present short
      have rested := ih fun other isLater => inside other (List.mem_cons_of_mem _ isLater)
      simp only [hashCheckBuckets, describes.counts.fills.read below, Option.bind_eq_bind,
        Option.bind_some, checked, rested, List.flatMap_cons, List.length_append]
      simp [addresses]

/-- A table with elements passes the check. -/
theorem hashFsck_eq (describes : memory.Describes hashFcn tbl table chained)
    (nonempty : chained.order ≠ []) (enough : chained.order.length ≤ fuel) :
    hashFsck fuel memory (addresses chained.order).head? = some true := by
  rcases List.exists_cons_of_ne_nil nonempty with ⟨first, rest, orderEq⟩
  have first_mem : first ∈ chained.order := by simp [orderEq]
  have isHead : (addresses chained.order).head? = some first.address := by simp [orderEq]
  have tableFound := (describes.stored first first_mem).tableOf describes.found
  have buckets := describes.hashCheckBuckets_eq enough
    (fun index inRange => List.mem_range.mp inRange)
  have walked : ((List.range (2 ^ chained.bits)).flatMap chained.chain).length =
      chained.order.length := describes.wellFormed.perm_walk.length_eq
  have counted : (addresses chained.order).length = chained.order.length := List.length_map _
  have order := hashCheckLinks_eq describes.order (fun cell isCell => describes.present_of_mem isCell)
    (counted.trans_le enough)
  rw [isHead, counted] at order
  rw [isHead, hashFsck]
  simp only [tableFound, Option.bind_eq_bind, Option.bind_some, describes.counts.numBuckets, buckets,
    walked, describes.numItems, order, ne_eq, not_true_eq_false, if_false, decide_true]

end Describes

/-- Every table passes the check. -/
theorem Represents.hashFsck (represents : memory.Represents hashFcn head chained)
    (enough : chained.order.length ≤ fuel) : hashFsck fuel memory head = some true := by
  cases represents with
  | empty => rfl
  | filled nonempty describes _ => exact describes.hashFsck_eq nonempty enough

end HashMemory

end Kieker
