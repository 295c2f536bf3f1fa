import Kieker.Hash.Expanding

/-!
# The macros refine the operations on chained tables

A memory represents a chained table if the handles link its elements in the order
of their addition and chain by chain, and if the table's counters say what they
should. Finding, adding and deleting an element are then always defined, follow no
dangling pointer, and do what the operations of the chained table do.
-/

namespace Kieker

open Chained (slot slot_lt)

/-- The elements of the table, by their addresses and keys. -/
abbrev HashTable := Chained HashEntry

namespace HashTable

/-- `HASH_ADD`, for chained tables. -/
def insert (hashFcn : List UInt8 → BitVec 32) (table : HashTable) (entry : HashEntry) : HashTable :=
  table.add HashEntry.key (hashNumber hashFcn) hashBktCapacityThresh entry

/-- `HASH_DELETE`, for chained tables. -/
def delete (hashFcn : List UInt8 → BitVec 32) (table : HashTable) (entry : HashEntry) : HashTable :=
  table.remove HashEntry.key (hashNumber hashFcn) hashInitialNumBucketsLog2 entry

/-- `HASH_FIND`, for chained tables. -/
def lookup (hashFcn : List UInt8 → BitVec 32) (table : HashTable) (key : List UInt8) :
    Option HashEntry :=
  table.find HashEntry.key (hashNumber hashFcn) key

end HashTable

section Chains

variable {hashFcn : List UInt8 → BitVec 32} {chained : HashTable} {index : ℕ}

theorem address_mem_chain {address : ℕ}
    (wellFormed : chained.WellFormed HashEntry.key (hashNumber hashFcn))
    (below : index < 2 ^ chained.bits) (isCell : address ∈ addresses (chained.chain index)) :
    ∃ entry ∈ chained.order, entry.address = address ∧
      slot (hashNumber hashFcn) chained.bits entry.key = index := by
  rcases List.mem_map.mp isCell with ⟨entry, inChain, rfl⟩
  rcases (wellFormed.mem_chain index below entry).mp inChain with ⟨inOrder, here⟩
  exact ⟨entry, inOrder, rfl, here⟩

theorem nodup_addresses_chain
    (wellFormed : chained.WellFormed HashEntry.key (hashNumber hashFcn))
    (apart : (addresses chained.order).Nodup) (below : index < 2 ^ chained.bits) :
    (addresses (chained.chain index)).Nodup := by
  refine (List.nodup_map_iff_inj_on (wellFormed.nodup_chain index below)).mpr ?_
  intro one oneIn other otherIn same
  exact eq_of_address apart ((wellFormed.mem_chain index below one).mp oneIn).1
    ((wellFormed.mem_chain index below other).mp otherIn).1 same

/-- Chains of different buckets have no element in common. -/
theorem chains_apart (wellFormed : chained.WellFormed HashEntry.key (hashNumber hashFcn))
    (apart : (addresses chained.order).Nodup) (below : index < 2 ^ chained.bits) :
    ∀ other < 2 ^ chained.bits, other ≠ index → ∀ cell ∈ addresses (chained.chain other),
      cell ∉ addresses (chained.chain index) := by
  intro other otherBelow different cell isOther isHere
  rcases address_mem_chain wellFormed otherBelow isOther with ⟨one, oneIn, rfl, oneSlot⟩
  rcases address_mem_chain wellFormed below isHere with ⟨two, twoIn, same, twoSlot⟩
  rw [eq_of_address apart twoIn oneIn same, oneSlot] at twoSlot
  exact different twoSlot

end Chains

/-- A table stores chains in its buckets, and its counters are those of a chained table. -/
structure UTHashTable.Counts (table : UTHashTable) (memory : HashMemory) (chained : HashTable) :
    Prop where
  fills : memory.Fills table.buckets (2 ^ chained.bits) chained.chain chained.mult
  numBuckets : table.numBuckets = 2 ^ chained.bits
  log2NumBuckets : table.log2NumBuckets = chained.bits
  idealChainMaxlen : table.idealChainMaxlen = chained.ideal
  nonidealItems : table.nonidealItems = chained.nonideal
  ineffExpands : table.ineffExpands = chained.ineffective
  noexpand : table.noexpand = if chained.fixed then 1 else 0

/-- Only the links of buckets matter to what a table counts. -/
theorem UTHashTable.Counts.congr {table : UTHashTable} {before after : HashMemory}
    {chained : HashTable} (counts : table.Counts before chained)
    (links : after.bucketLinks = before.bucketLinks) : table.Counts after chained :=
  { counts with
    fills := ⟨counts.fills.size, links ▸ counts.fills.isList, counts.fills.bucket⟩ }

namespace HashMemory

/-- The table at `tbl` is a chained table that is not empty. -/
structure Describes (hashFcn : List UInt8 → BitVec 32) (memory : HashMemory) (tbl : ℕ)
    (table : UTHashTable) (chained : HashTable) : Prop where
  found : memory.table tbl = some table
  order : memory.orderLinks.IsList (addresses chained.order)
  tail : table.tail = (addresses chained.order).getLast?
  numItems : table.numItems = chained.order.length
  counts : table.Counts memory chained
  stored : ∀ entry ∈ chained.order, memory.Stores hashFcn tbl entry
  apart : (addresses chained.order).Nodup
  wellFormed : chained.WellFormed HashEntry.key (hashNumber hashFcn)

/-- A head and a memory represent a chained table; without elements nothing is allocated. -/
inductive Represents (hashFcn : List UInt8 → BitVec 32) (memory : HashMemory) :
    Option ℕ → HashTable → Prop
  | empty (noTable : ∀ tbl, memory.table tbl = none) :
      Represents hashFcn memory none (Chained.initial hashInitialNumBucketsLog2)
  | filled {tbl : ℕ} {table : UTHashTable} {chained : HashTable} (nonempty : chained.order ≠ [])
      (describes : memory.Describes hashFcn tbl table chained)
      (only : ∀ other ≠ tbl, memory.table other = none) :
      Represents hashFcn memory (addresses chained.order).head? chained

/-- The same handles are there, and the same other tables. -/
structure Keeps (before after : HashMemory) (tbl : ℕ) : Prop where
  present : ∀ address, after.Present address ↔ before.Present address
  others : ∀ other ≠ tbl, after.table other = before.table other

variable {hashFcn : List UInt8 → BitVec 32} {memory before after : HashMemory} {tbl fuel : ℕ}
  {table : UTHashTable} {chained : HashTable} {entry : HashEntry} {head : Option ℕ}

theorem Keeps.trans {middle : HashMemory} (first : before.Keeps middle tbl)
    (second : middle.Keeps after tbl) : before.Keeps after tbl where
  present := fun address => (second.present address).trans (first.present address)
  others := fun other different => (second.others other different).trans (first.others other different)

theorem present_congr {address : ℕ} (same : after.identity = before.identity) :
    after.Present address ↔ before.Present address := by
  have here := congrArg Option.isSome (congrFun same address)
  simp only [HashMemory.identity, Option.isSome_map] at here
  rw [Present, Present, here]

@[simp]
theorem handle_setTable : (memory.setTable tbl table).handle = memory.handle := rfl

@[simp]
theorem table_setTable_self : (memory.setTable tbl table).table tbl = some table :=
  Function.update_self ..

theorem table_setTable_of_ne {other : ℕ} (different : other ≠ tbl) :
    (memory.setTable tbl table).table other = memory.table other :=
  Function.update_of_ne different ..

/-- The table of an element is there. -/
theorem table_of_tableOf {first : ℕ} (found : memory.tableOf first = some (tbl, table)) :
    memory.table tbl = some table := by
  simp only [HashMemory.tableOf, Option.bind_eq_bind, Option.bind_eq_some_iff, Option.some.injEq,
    Prod.mk.injEq] at found
  rcases found with ⟨handle, -, place, -, here, isTable, rfl, rfl⟩
  exact isTable

theorem Stores.tableOf (stores : memory.Stores hashFcn tbl entry)
    (found : memory.table tbl = some table) : memory.tableOf entry.address = some (tbl, table) := by
  rcases stores.handle with ⟨handle, handleFound, tblEq, -⟩
  simp [HashMemory.tableOf, handleFound, tblEq, found]

namespace Describes

theorem mem_chain {index : ℕ} (describes : memory.Describes hashFcn tbl table chained)
    (below : index < 2 ^ chained.bits) : entry ∈ chained.chain index ↔
      entry ∈ chained.order ∧ slot (hashNumber hashFcn) chained.bits entry.key = index :=
  describes.wellFormed.mem_chain index below entry

theorem length_chain_le {index : ℕ} (describes : memory.Describes hashFcn tbl table chained)
    (below : index < 2 ^ chained.bits) :
    (chained.chain index).length ≤ chained.order.length := by
  have inside : chained.chain index ⊆ chained.order := fun entry inChain =>
    ((describes.mem_chain below).mp inChain).1
  exact ((describes.wellFormed.nodup_chain index below).subperm inside).length_le

theorem present_of_mem {address : ℕ} (describes : memory.Describes hashFcn tbl table chained)
    (isOld : address ∈ addresses chained.order) : memory.Present address := by
  rcases List.mem_map.mp isOld with ⟨other, inOrder, rfl⟩
  exact (describes.stored other inOrder).present

/-- Only the handles of its own elements matter to a table. -/
theorem frame (describes : before.Describes hashFcn tbl table chained)
    (same : ∀ address ∈ addresses chained.order, after.handle address = before.handle address)
    (sameTable : after.table = before.table) : after.Describes hashFcn tbl table chained where
  found := by rw [sameTable, describes.found]
  order := Links.Joins.congr describes.order (fun address isOld => by simp [orderLinks, same _ isOld])
    fun address isOld => by simp [orderLinks, same _ isOld]
  tail := describes.tail
  numItems := describes.numItems
  counts := by
    have counts := describes.counts
    have sameInChain : ∀ index < 2 ^ chained.bits, ∀ cell ∈ addresses (chained.chain index),
        after.handle cell = before.handle cell := by
      intro index below cell isCell
      rcases address_mem_chain describes.wellFormed below isCell with ⟨entry, inOrder, rfl, -⟩
      exact same _ (List.mem_map_of_mem inOrder)
    refine ⟨⟨counts.fills.size, fun index below => ?_, counts.fills.bucket⟩, counts.numBuckets,
      counts.log2NumBuckets, counts.idealChainMaxlen, counts.nonidealItems, counts.ineffExpands,
      counts.noexpand⟩
    exact Links.Joins.congr (counts.fills.isList index below)
      (fun cell isCell => by simp [bucketLinks, sameInChain index below cell isCell])
      fun cell isCell => by simp [bucketLinks, sameInChain index below cell isCell]
  stored := by
    intro entry inOrder
    rw [Stores, identity, same _ (List.mem_map_of_mem inOrder)]
    exact describes.stored entry inOrder
  apart := describes.apart
  wellFormed := describes.wellFormed

/-! ### Finding -/

theorem find (describes : memory.Describes hashFcn tbl table chained) (asked : List UInt8)
    (enough : chained.order.length ≤ fuel) (nonempty : chained.order ≠ []) :
    hashFind hashFcn fuel memory (addresses chained.order).head? asked =
      some ((chained.lookup hashFcn asked).map HashEntry.address) := by
  rcases List.exists_cons_of_ne_nil nonempty with ⟨first, rest, orderEq⟩
  have below := slot_lt (hashNumber hashFcn) chained.bits asked
  have tableFound := (describes.stored first (by simp [orderEq])).tableOf describes.found
  have searched := hashFindInBkt_eq asked (describes.counts.fills.isList _ below)
    (fun entry inChain => describes.stored entry ((describes.mem_chain below).mp inChain).1)
    ((describes.length_chain_le below).trans enough)
  simp only [orderEq, addresses_cons, List.head?_cons, hashFind, tableFound, Option.bind_eq_bind,
    Option.bind_some, describes.counts.numBuckets, hashToBkt_two_pow,
    describes.counts.fills.read below, searched]
  rfl

/-! ### Expanding -/

theorem idealChainMaxlen_eq (describes : memory.Describes hashFcn tbl table chained) :
    (table.numItems >>> (table.log2NumBuckets + 1) +
      if table.numItems &&& (table.numBuckets * 2 - 1) ≠ 0 then 1 else 0) =
      Chained.idealLength chained.order.length (chained.bits + 1) := by
  rw [describes.numItems, describes.counts.numBuckets, describes.counts.log2NumBuckets,
    Nat.shiftRight_eq_div_pow, ← Nat.pow_succ, Nat.and_two_pow_sub_one_eq_mod]
  unfold Chained.idealLength
  congr 1
  split <;> simp_all

/-- Expanding the buckets of a table with elements. -/
theorem expand (describes : memory.Describes hashFcn tbl table chained)
    (nonempty : chained.order ≠ []) (enough : chained.order.length ≤ fuel) :
    ∃ later laterTable, hashExpandBuckets fuel memory tbl = some later ∧
      later.Describes hashFcn tbl laterTable
        (chained.expand HashEntry.key (hashNumber hashFcn)) ∧ memory.Keeps later tbl := by
  have positive : 0 < Chained.idealLength chained.order.length (chained.bits + 1) :=
    Chained.idealLength_pos (List.length_pos_iff.mpr nonempty) _
  have perm := describes.wellFormed.perm_walk
  have walkApart : (addresses chained.walk).Nodup :=
    ((perm.map HashEntry.address).nodup_iff).mpr describes.apart
  have start := moves_nothing hashFcn memory
    (Chained.idealLength chained.order.length (chained.bits + 1)) (chained.bits + 1)
  rcases start.chains positive
    describes.counts.fills (fun index inRange => List.mem_range.mp inRange)
    (by rwa [List.nil_append]) (fun entry isMoved => describes.stored entry (perm.mem_iff.mp isMoved))
    (fun index inRange => (describes.length_chain_le (List.mem_range.mp inRange)).trans enough) with
    ⟨expansion, moved, moves⟩
  rw [List.nil_append] at moves
  -- All elements are in new chains now; what is left is the bookkeeping of the table.
  have counts : (table.expanded (Chained.idealLength chained.order.length (chained.bits + 1))
      expansion).Counts expansion.memory
      (chained.expand HashEntry.key (hashNumber hashFcn)) := by
    have half : table.numItems >>> 1 = chained.order.length / 2 := by
      rw [describes.numItems, Nat.shiftRight_one]
    have nonideal : expansion.nonidealItems =
        (chained.expand HashEntry.key (hashNumber hashFcn)).nonideal := moves.nonideal
    have ineffective : (if table.numItems >>> 1 < expansion.nonidealItems
        then table.ineffExpands + 1 else 0) =
        (chained.expand HashEntry.key (hashNumber hashFcn)).ineffective := by
      rw [half, nonideal, describes.counts.ineffExpands]
      rfl
    refine ⟨moves.fills, ?_, ?_, rfl, nonideal, ineffective, ?_⟩
    · change table.numBuckets * 2 = 2 ^ (chained.bits + 1)
      rw [describes.counts.numBuckets, Nat.pow_succ]
    · exact congrArg (· + 1) describes.counts.log2NumBuckets
    · have fixed : (chained.expand HashEntry.key (hashNumber hashFcn)).fixed =
          if 1 < (chained.expand HashEntry.key (hashNumber hashFcn)).ineffective then true
          else chained.fixed := rfl
      simp only [UTHashTable.expanded, ineffective, fixed, describes.counts.noexpand]
      by_cases ends : 1 < (chained.expand HashEntry.key (hashNumber hashFcn)).ineffective
      · simp only [if_pos ends, if_true]
      · simp only [if_neg ends]
  refine ⟨expansion.memory.setTable tbl (table.expanded (Chained.idealLength
    chained.order.length (chained.bits + 1)) expansion), _, ?_,
    ⟨table_setTable_self, ?_, describes.tail,
    describes.numItems, counts.congr rfl, ?_, describes.apart, describes.wellFormed.expand⟩, ?_⟩
  · simp only [hashExpandBuckets, describes.found, Option.bind_eq_bind, Option.bind_some,
      describes.idealChainMaxlen_eq]
    rw [describes.counts.numBuckets, ← Nat.pow_succ, moved, Option.bind_some]
  · change expansion.memory.orderLinks.IsList _
    rw [moves.relinks.order]
    exact describes.order
  · exact fun entry inOrder => moves.relinks.stores (describes.stored entry inOrder)
  · refine ⟨fun address => present_congr moves.relinks.identity, fun other different => ?_⟩
    rw [table_setTable_of_ne different, moves.relinks.table]

end Describes

namespace Represents

theorem frame (represents : before.Represents hashFcn head chained)
    (same : ∀ address ∈ addresses chained.order, after.handle address = before.handle address)
    (sameTable : after.table = before.table) : after.Represents hashFcn head chained := by
  cases represents with
  | empty noTable => exact .empty fun tbl => by rw [sameTable, noTable]
  | filled nonempty describes only =>
      exact .filled nonempty (describes.frame same sameTable) fun other different => by
        rw [sameTable, only other different]

theorem apart (represents : memory.Represents hashFcn head chained) :
    (addresses chained.order).Nodup := by
  cases represents with
  | empty => exact List.nodup_nil
  | filled _ describes _ => exact describes.apart

theorem wellFormed (represents : memory.Represents hashFcn head chained) :
    chained.WellFormed HashEntry.key (hashNumber hashFcn) := by
  cases represents with
  | empty => exact Chained.wellFormed_initial
  | filled _ describes _ => exact describes.wellFormed

/-- The only table there may be is that of the elements. -/
theorem describes (represents : memory.Represents hashFcn head chained)
    (isTable : memory.table tbl = some table) :
    memory.Describes hashFcn tbl table chained := by
  cases represents with
  | empty noTable =>
      rw [noTable] at isTable
      cases isTable
  | filled nonempty describes only =>
      by_cases isOwn : memory.table tbl = none
      · rw [isOwn] at isTable
        cases isTable
      · have same := not_imp_comm.mp (only tbl) isOwn
        subst same
        rw [describes.found, Option.some.injEq] at isTable
        exact isTable ▸ describes

/-- The elements of a table are there. -/
theorem present (represents : memory.Represents hashFcn head chained) {address : ℕ}
    (isOld : address ∈ addresses chained.order) : memory.Present address := by
  cases represents with
  | empty => cases isOld
  | filled _ describes _ => exact describes.present_of_mem isOld

/-- The head leads to the first element, and the elements to one another. -/
theorem order (represents : memory.Represents hashFcn head chained) :
    head = (addresses chained.order).head? ∧
      memory.orderLinks.IsList (addresses chained.order) := by
  cases represents with
  | empty => exact ⟨rfl, trivial⟩
  | filled _ describes _ => exact ⟨rfl, describes.order⟩

/-- Finding an element by its key. -/
theorem find (represents : memory.Represents hashFcn head chained) (asked : List UInt8)
    (enough : chained.order.length ≤ fuel) :
    hashFind hashFcn fuel memory head asked =
      some ((chained.lookup hashFcn asked).map HashEntry.address) := by
  cases represents with
  | empty => rfl
  | filled nonempty describes _ => exact describes.find asked enough nonempty

end Represents

end HashMemory

end Kieker
