import Kieker.Hash.Refinement

/-!
# Deleting from the table

The last element of a table takes the table with it. Any other element leaves in
three steps: the order of the elements, the chain of its bucket, and the count.
-/

namespace Kieker

open Chained (slot slot_lt)

namespace HashMemory

variable {hashFcn : List UInt8 → BitVec 32} {memory before after : HashMemory} {tbl fuel : ℕ}
  {table : UTHashTable} {chained : HashTable} {entry : HashEntry} {head : Option ℕ}

/-! ### Leaving the order -/

/-- The memory after an element was taken out of the order. -/
def unlinkOrder (memory : HashMemory) (del : ℕ) : HashMemory :=
  (memory.assignAt (memory.orderLinks.prev del) fun before =>
      { before with next := memory.orderLinks.next del }).assignAt
    (memory.orderLinks.next del) fun after => { after with prev := memory.orderLinks.prev del }

theorem orderLinks_unlinkOrder {del : ℕ}
    (prevPresent : ∀ address, memory.orderLinks.prev del = some address → memory.Present address)
    (nextPresent : ∀ address, memory.orderLinks.next del = some address → memory.Present address) :
    (memory.unlinkOrder del).orderLinks = memory.orderLinks.unlink del := by
  rw [unlinkOrder, orderLinks_assignAt_prev, orderLinks_assignAt_next prevPresent]
  · rfl
  · intro address isNext
    exact present_assignAt.mpr (nextPresent address isNext)

theorem identity_unlinkOrder (del : ℕ) : (memory.unlinkOrder del).identity = memory.identity := by
  exact (identity_assignAt_of_kept (by intro _; rfl)).trans
    (identity_assignAt_of_kept (by intro _; rfl))

theorem bucketLinks_unlinkOrder (del : ℕ) :
    (memory.unlinkOrder del).bucketLinks = memory.bucketLinks := by
  exact (bucketLinks_assignAt_of_kept (by intro _; rfl) (by intro _; rfl)).trans
    (bucketLinks_assignAt_of_kept (by intro _; rfl) (by intro _; rfl))

/-- The table of an element that is out of the order but still in its bucket. -/
structure Leaves (hashFcn : List UInt8 → BitVec 32) (memory : HashMemory) (tbl : ℕ)
    (table : UTHashTable) (chained : HashTable) (entry : HashEntry) : Prop where
  found : memory.table tbl = some table
  order : memory.orderLinks.IsList (addresses (chained.order.erase entry))
  tail : table.tail = (addresses (chained.order.erase entry)).getLast?
  numItems : table.numItems = chained.order.length
  counts : table.Counts memory chained
  stored : ∀ other ∈ chained.order, memory.Stores hashFcn tbl other
  apart : (addresses chained.order).Nodup
  wellFormed : chained.WellFormed HashEntry.key (hashNumber hashFcn)

/-- The table whose tail is not the deleted element. -/
def leftTable (memory : HashMemory) (table : UTHashTable) (del : ℕ) : UTHashTable :=
  { table with tail := if table.tail = some del then memory.orderLinks.prev del else table.tail }

/-- The memory after an element left the order. -/
def left (memory : HashMemory) (tbl : ℕ) (table : UTHashTable) (del : ℕ) : HashMemory :=
  (memory.unlinkOrder del).setTable tbl (memory.leftTable table del)

namespace Describes

theorem leaves (describes : memory.Describes hashFcn tbl table chained)
    (inOrder : entry ∈ chained.order) :
    (memory.left tbl table entry.address).Leaves hashFcn tbl
      (memory.leftTable table entry.address) chained entry where
  found := table_setTable_self
  order := by
    have cell_mem : entry.address ∈ addresses chained.order := List.mem_map_of_mem inOrder
    change (memory.unlinkOrder entry.address).orderLinks.IsList _
    rw [orderLinks_unlinkOrder, addresses_erase describes.apart inOrder]
    · exact Links.isList_unlink describes.order describes.apart cell_mem
    · exact fun address points => describes.present_of_mem (describes.order.prev_mem cell_mem points)
    · exact fun address points => describes.present_of_mem (describes.order.next_mem cell_mem points)
  tail := by
    rw [addresses_erase describes.apart inOrder, describes.order.getLast?_erase describes.apart
      (List.mem_map_of_mem inOrder), ← describes.tail]
    rfl
  numItems := describes.numItems
  counts := by
    have counts : table.Counts (memory.left tbl table entry.address) chained :=
      describes.counts.congr (bucketLinks_unlinkOrder _)
    exact ⟨counts.fills, counts.numBuckets, counts.log2NumBuckets, counts.idealChainMaxlen,
      counts.nonidealItems, counts.ineffExpands, counts.noexpand⟩
  stored := by
    intro other isOld
    rw [Stores]
    change (memory.unlinkOrder _).identity other.address = _
    rw [identity_unlinkOrder]
    exact describes.stored other isOld
  apart := describes.apart
  wellFormed := describes.wellFormed

end Describes

theorem keeps_left {del : ℕ} : memory.Keeps (memory.left tbl table del) tbl where
  present := fun _ => present_congr (identity_unlinkOrder _)
  others := by
    intro other different
    rw [left, table_setTable_of_ne different, unlinkOrder, table_assignAt, table_assignAt]

/-! ### Leaving the bucket -/

namespace Leaves

/-- The bucket of the element that leaves. -/
abbrev index (hashFcn : List UInt8 → BitVec 32) (chained : HashTable) (entry : HashEntry) : ℕ :=
  slot (hashNumber hashFcn) chained.bits entry.key

/-- The table without the element in its bucket. -/
def emptied (hashFcn : List UInt8 → BitVec 32) (table : UTHashTable) (chained : HashTable)
    (entry : HashEntry) : UTHashTable :=
  { table with
    buckets := { table.buckets with
      bucket := Function.update table.buckets.bucket (index hashFcn chained entry)
        ⟨(addresses ((chained.chain (index hashFcn chained entry)).erase entry)).head?,
          (chained.chain (index hashFcn chained entry)).length - 1,
          chained.mult (index hashFcn chained entry)⟩ } }

/-- The memory without the element in its bucket. -/
def popped (hashFcn : List UInt8 → BitVec 32) (memory : HashMemory) (tbl : ℕ)
    (table : UTHashTable) (chained : HashTable) (entry : HashEntry) : HashMemory :=
  (memory.unlinkBucket entry.address).setTable tbl (emptied hashFcn table chained entry)

theorem inChain (leaves : memory.Leaves hashFcn tbl table chained entry)
    (inOrder : entry ∈ chained.order) :
    entry ∈ chained.chain (index hashFcn chained entry) :=
  (leaves.wellFormed.mem_chain _ (slot_lt _ _ _) entry).mpr ⟨inOrder, rfl⟩

theorem chainPresent (leaves : memory.Leaves hashFcn tbl table chained entry) {address : ℕ}
    (isCell : address ∈ addresses (chained.chain (index hashFcn chained entry))) :
    memory.Present address := by
  rcases address_mem_chain leaves.wellFormed (slot_lt _ _ _) isCell with ⟨other, inOrder, rfl, -⟩
  exact (leaves.stored other inOrder).present

theorem hashDelInBkt_eq (leaves : memory.Leaves hashFcn tbl table chained entry)
    (inOrder : entry ∈ chained.order) :
    hashDelInBkt memory tbl (hashToBkt (hashFcn entry.key) table.numBuckets) entry.address =
      some (popped hashFcn memory tbl table chained entry) := by
  have below : index hashFcn chained entry < 2 ^ chained.bits := slot_lt _ _ _
  have isList := leaves.counts.fills.isList _ below
  have inChain := leaves.inChain inOrder
  have cell_mem : entry.address ∈ addresses (chained.chain (index hashFcn chained entry)) :=
    List.mem_map_of_mem inChain
  rcases (leaves.stored entry inOrder).handle with
    ⟨handle, found, -, -, -, -, nextEq, prevEq, -, -⟩
  have prevPresent : ∀ address, memory.bucketLinks.prev entry.address = some address →
      memory.Present address :=
    fun address points => leaves.chainPresent (isList.prev_mem cell_mem points)
  have nextPresent : ∀ address, memory.bucketLinks.next entry.address = some address →
      memory.Present address :=
    fun address points => leaves.chainPresent (isList.next_mem cell_mem points)
  have headEq := isList.head?_erase cell_mem
  rw [← addresses_erase (nodup_addresses_chain leaves.wellFormed leaves.apart below) inChain]
    at headEq
  rw [hashDelInBkt, leaves.counts.numBuckets, hashToBkt_two_pow, ← index]
  simp only [leaves.found, Option.bind_eq_bind, Option.bind_some, leaves.counts.fills.read below,
    found, nextEq, prevEq, setHandleAt_of_present prevPresent, setHandleAt_assignAt nextPresent,
    BucketArray.write, leaves.counts.fills.size, if_pos below]
  rw [← leaves.counts.fills.size, ← headEq]
  rfl

theorem stores_popped (leaves : memory.Leaves hashFcn tbl table chained entry)
    {other : HashEntry} (isOld : other ∈ chained.order) :
    (popped hashFcn memory tbl table chained entry).Stores hashFcn tbl other := by
  rw [Stores]
  change (memory.unlinkBucket _).identity other.address = _
  rw [identity_unlinkBucket]
  exact leaves.stored other isOld

theorem tableOf_popped (leaves : memory.Leaves hashFcn tbl table chained entry)
    {other : HashEntry} (isOld : other ∈ chained.order) :
    (popped hashFcn memory tbl table chained entry).tableOf other.address =
      some (tbl, emptied hashFcn table chained entry) :=
  (leaves.stores_popped isOld).tableOf table_setTable_self

/-- The table without the element in its bucket, and one less in number. -/
def lessened (hashFcn : List UInt8 → BitVec 32) (table : UTHashTable) (chained : HashTable)
    (entry : HashEntry) : UTHashTable :=
  { emptied hashFcn table chained entry with numItems := table.numItems - 1 }

/-- The element has left, once it is not counted any more. -/
theorem describes_erase (leaves : memory.Leaves hashFcn tbl table chained entry)
    (inOrder : entry ∈ chained.order) :
    ((popped hashFcn memory tbl table chained entry).setTable tbl
      (lessened hashFcn table chained entry)).Describes hashFcn tbl
      (lessened hashFcn table chained entry)
      (chained.erase HashEntry.key (hashNumber hashFcn) entry) where
  found := table_setTable_self
  order := by
    change (memory.unlinkBucket entry.address).orderLinks.IsList _
    rw [orderLinks_unlinkBucket]
    exact leaves.order
  tail := leaves.tail
  numItems := by
    change table.numItems - 1 = (chained.order.erase entry).length
    rw [leaves.numItems, List.length_erase_of_mem inOrder]
  counts := by
    have below : index hashFcn chained entry < 2 ^ chained.bits := slot_lt _ _ _
    have isList := leaves.counts.fills.isList _ below
    have inChain := leaves.inChain inOrder
    have cell_mem : entry.address ∈ addresses (chained.chain (index hashFcn chained entry)) :=
      List.mem_map_of_mem inChain
    have links := bucketLinks_unlinkBucket
      (fun address points => leaves.chainPresent (isList.prev_mem cell_mem points))
      (fun address points => leaves.chainPresent (isList.next_mem cell_mem points))
    have fills := leaves.counts.fills.erase below
      (nodup_addresses_chain leaves.wellFormed leaves.apart below)
      (chains_apart leaves.wellFormed leaves.apart below) inChain links
    have counts : (lessened hashFcn table chained entry).Counts
        (memory.unlinkBucket entry.address)
        (chained.erase HashEntry.key (hashNumber hashFcn) entry) :=
      ⟨fills, leaves.counts.numBuckets, leaves.counts.log2NumBuckets,
        leaves.counts.idealChainMaxlen, leaves.counts.nonidealItems, leaves.counts.ineffExpands,
        leaves.counts.noexpand⟩
    exact counts.congr rfl
  stored := fun other isLeft => leaves.stores_popped (List.mem_of_mem_erase isLeft)
  apart := by
    change (addresses (chained.order.erase entry)).Nodup
    rw [addresses_erase leaves.apart inOrder]
    exact leaves.apart.erase _
  wellFormed := leaves.wellFormed.erase entry

theorem keeps_lessened : memory.Keeps ((popped hashFcn memory tbl table chained entry).setTable tbl
    (lessened hashFcn table chained entry)) tbl where
  present := fun _ => present_congr (identity_unlinkBucket _)
  others := by
    intro other different
    rw [table_setTable_of_ne different, popped, table_setTable_of_ne different, unlinkBucket,
      table_assignAt, table_assignAt]

end Leaves

/-! ### The whole deletion -/

namespace Describes

/-- Where the order begins without an element. -/
theorem head_erase (describes : memory.Describes hashFcn tbl table chained)
    (inOrder : entry ∈ chained.order) :
    (if memory.orderLinks.prev entry.address = none then memory.orderLinks.next entry.address
      else (addresses chained.order).head?) = (addresses (chained.order.erase entry)).head? := by
  have cell_mem : entry.address ∈ addresses chained.order := List.mem_map_of_mem inOrder
  rw [addresses_erase describes.apart inOrder, describes.order.head?_erase cell_mem]
  simp only [describes.order.prev_eq_none_iff describes.apart cell_mem]

/-- Only the last element of all has no neighbours. -/
theorem alone_iff (describes : memory.Describes hashFcn tbl table chained)
    (inOrder : entry ∈ chained.order) :
    memory.orderLinks.prev entry.address = none ∧ memory.orderLinks.next entry.address = none ↔
      chained.order = [entry] := by
  have cell_mem : entry.address ∈ addresses chained.order := List.mem_map_of_mem inOrder
  rw [describes.order.prev_eq_none_iff describes.apart cell_mem,
    describes.order.next_eq_none_iff describes.apart cell_mem]
  constructor
  · rintro ⟨isHead, isLast⟩
    have apart := describes.apart
    rcases List.exists_cons_of_ne_nil (List.ne_nil_of_mem inOrder) with ⟨first, rest, orderEq⟩
    rw [orderEq, addresses_cons] at isHead isLast apart
    have same : first.address = entry.address := Option.some_inj.mp isHead
    have isFirst := eq_of_address describes.apart (by simp [orderEq]) inOrder same
    cases rest with
    | nil => rw [orderEq, isFirst]
    | cons second rest =>
        rw [addresses_cons, List.getLast?_cons_cons] at isLast
        have inRest := List.mem_of_mem_getLast? isLast
        exact absurd (same ▸ inRest) (List.nodup_cons.mp apart).1
  · intro single
    simp [single]

/-- The memory after an element that is not the only one was deleted. -/
def deleted (hashFcn : List UInt8 → BitVec 32) (memory : HashMemory) (tbl : ℕ)
    (table : UTHashTable) (chained : HashTable) (entry : HashEntry) : HashMemory :=
  (Leaves.popped hashFcn (memory.left tbl table entry.address) tbl
    (memory.leftTable table entry.address) chained entry).setTable tbl
      (Leaves.lessened hashFcn (memory.leftTable table entry.address) chained entry)

theorem hashDelete_eq (describes : memory.Describes hashFcn tbl table chained)
    (inOrder : entry ∈ chained.order) (more : chained.order ≠ [entry]) :
    hashDelete memory (addresses chained.order).head? entry.address =
      some ((addresses (chained.order.erase entry)).head?,
        deleted hashFcn memory tbl table chained entry) := by
  have cell_mem : entry.address ∈ addresses chained.order := List.mem_map_of_mem inOrder
  have leaves := describes.leaves inOrder
  have leftNonempty : chained.order.erase entry ≠ [] := by
    intro nothing
    rcases List.erase_eq_nil_iff.mp nothing with isNil | isSingle
    · exact List.ne_nil_of_mem inOrder isNil
    · exact more isSingle
  rcases List.exists_cons_of_ne_nil leftNonempty with ⟨second, others, leftEq⟩
  rcases List.exists_cons_of_ne_nil (List.ne_nil_of_mem inOrder) with ⟨first, rest, orderEq⟩
  have first_mem : first ∈ chained.order := by simp [orderEq]
  have second_mem : second ∈ chained.order :=
    List.mem_of_mem_erase (leftEq ▸ List.mem_cons_self)
  have tableFound := (describes.stored first first_mem).tableOf describes.found
  have leftTableFound := (leaves.stored second second_mem).tableOf leaves.found
  rcases (describes.stored entry inOrder).handle with
    ⟨handle, found, -, -, -, hashvEq, -, -, nextEq, prevEq⟩
  have prevPresent : ∀ address, memory.orderLinks.prev entry.address = some address →
      (memory.setTable tbl (memory.leftTable table entry.address)).Present address :=
    fun address points => describes.present_of_mem (describes.order.prev_mem cell_mem points)
  have nextPresent : ∀ address, memory.orderLinks.next entry.address = some address →
      (memory.setTable tbl (memory.leftTable table entry.address)).Present address :=
    fun address points => describes.present_of_mem (describes.order.next_mem cell_mem points)
  have headEq := describes.head_erase inOrder
  have notAlone := mt (describes.alone_iff inOrder).mp more
  have isHead : (addresses chained.order).head? = some first.address := by simp [orderEq]
  have isLeftHead : (addresses (chained.order.erase entry)).head? = some second.address := by
    simp [leftEq]
  rw [isHead, isLeftHead] at headEq
  rw [isHead, isLeftHead, hashDelete]
  simp only [found, Option.bind_eq_bind, Option.bind_some, tableFound, nextEq, prevEq, notAlone,
    if_false, hashvEq]
  rw [← leftTable, setHandleAt_of_present prevPresent, Option.bind_some,
    setHandleAt_assignAt nextPresent, Option.bind_some]
  simp only [setTable_assignAt, headEq, Option.bind_some]
  -- From here on the table is reached through an element that stays.
  change (Option.bind ((memory.left tbl table entry.address).tableOf second.address) _) = _
  rw [leftTableFound, Option.bind_some]
  change Option.bind (hashDelInBkt (memory.left tbl table entry.address) _ _ _) _ = _
  rw [leaves.hashDelInBkt_eq inOrder, Option.bind_some, leaves.tableOf_popped second_mem]
  rfl

/-- Deleting an element that is not the only one. -/
theorem delete (describes : memory.Describes hashFcn tbl table chained)
    (only : ∀ other ≠ tbl, memory.table other = none) (inOrder : entry ∈ chained.order)
    (more : chained.order ≠ [entry]) :
    ∃ later, hashDelete memory (addresses chained.order).head? entry.address =
        some ((addresses (chained.order.erase entry)).head?, later) ∧
      later.Represents hashFcn (addresses (chained.order.erase entry)).head?
        (chained.erase HashEntry.key (hashNumber hashFcn) entry) ∧
      ∀ address, later.Present address ↔ memory.Present address := by
  refine ⟨_, describes.hashDelete_eq inOrder more, ?_, ?_⟩
  · refine .filled ?_ ((describes.leaves inOrder).describes_erase inOrder) fun other different => ?_
    · intro nothing
      rcases List.erase_eq_nil_iff.mp nothing with isNil | isSingle
      · exact List.ne_nil_of_mem inOrder isNil
      · exact more isSingle
    · rw [Leaves.keeps_lessened.others other different, keeps_left.others other different]
      exact only other different
  · exact fun address => (Leaves.keeps_lessened.present address).trans (keeps_left.present address)

/-- Deleting the only element. -/
theorem delete_last (describes : memory.Describes hashFcn tbl table chained)
    (only : ∀ other ≠ tbl, memory.table other = none) (single : chained.order = [entry]) :
    ∃ later, hashDelete memory (addresses chained.order).head? entry.address = some (none, later) ∧
      later.Represents hashFcn none (Chained.initial hashInitialNumBucketsLog2) ∧
      ∀ address, later.Present address ↔ memory.Present address := by
  have inOrder : entry ∈ chained.order := by simp [single]
  have tableFound := (describes.stored entry inOrder).tableOf describes.found
  rcases (describes.stored entry inOrder).handle with
    ⟨handle, found, -, -, -, -, -, -, nextEq, prevEq⟩
  have alone := (describes.alone_iff inOrder).mpr single
  rw [← nextEq, ← prevEq] at alone
  have isHead : (addresses chained.order).head? = some entry.address := by simp [single]
  refine ⟨{ memory with table := Function.update memory.table tbl none }, ?_, .empty ?_,
    fun address => Iff.rfl⟩
  · rw [isHead, hashDelete]
    simp only [found, Option.bind_eq_bind, Option.bind_some, tableFound, alone, and_self, if_true]
  · intro other
    by_cases same : other = tbl
    · subst same
      exact Function.update_self ..
    · exact (Function.update_of_ne same ..).trans (only other same)

end Describes

/-- Deleting an element of the table. -/
theorem Represents.delete (represents : memory.Represents hashFcn head chained)
    (inOrder : entry ∈ chained.order) :
    ∃ rest later, hashDelete memory head entry.address = some (rest, later) ∧
      later.Represents hashFcn rest (chained.delete hashFcn entry) ∧
      ∀ address, later.Present address ↔ memory.Present address := by
  cases represents with
  | empty noTable => cases inOrder
  | filled nonempty describes only =>
      rw [HashTable.delete, Chained.remove]
      split
      · rename_i single
        exact ⟨none, describes.delete_last only single⟩
      · rename_i more
        exact ⟨_, describes.delete only inOrder more⟩

end HashMemory

end Kieker
