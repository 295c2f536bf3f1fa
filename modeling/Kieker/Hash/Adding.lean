import Kieker.Hash.Refinement

/-!
# Adding to the table

An element is added in two halves. First it becomes the last element, and the
only one if there was no table; then it is put in front of the chain of its
bucket. Between the halves the table counts an element that no bucket holds yet.
-/

namespace Kieker

open Chained (slot slot_lt)

namespace HashMemory

variable {hashFcn : List UInt8 → BitVec 32} {memory before after : HashMemory} {tbl fuel : ℕ}
  {table : UTHashTable} {chained : HashTable} {entry : HashEntry} {head : Option ℕ}

/-! ### Adding -/

/-- The table of an element that is the last one already but not in its bucket yet. -/
structure Awaits (hashFcn : List UInt8 → BitVec 32) (memory : HashMemory) (tbl : ℕ)
    (table : UTHashTable) (chained : HashTable) (entry : HashEntry) : Prop where
  found : memory.table tbl = some table
  order : memory.orderLinks.IsList (addresses (chained.order ++ [entry]))
  tail : table.tail = some entry.address
  numItems : table.numItems = chained.order.length + 1
  counts : table.Counts memory chained
  stored : ∀ other ∈ chained.order ++ [entry], memory.Stores hashFcn tbl other
  apart : (addresses (chained.order ++ [entry])).Nodup
  wellFormed : chained.WellFormed HashEntry.key (hashNumber hashFcn)

namespace Awaits

/-- The bucket of the element that is waiting. -/
abbrev index (hashFcn : List UInt8 → BitVec 32) (chained : HashTable) (entry : HashEntry) : ℕ :=
  slot (hashNumber hashFcn) chained.bits entry.key

/-- The table after the element was put into its bucket. -/
def filled (hashFcn : List UInt8 → BitVec 32) (table : UTHashTable) (chained : HashTable)
    (entry : HashEntry) : UTHashTable :=
  { table with
    buckets := { table.buckets with
      bucket := Function.update table.buckets.bucket (index hashFcn chained entry)
        ⟨some entry.address, (chained.chain (index hashFcn chained entry)).length + 1,
          chained.mult (index hashFcn chained entry)⟩ } }

/-- The memory after the element was put into its bucket. -/
def pushed (hashFcn : List UInt8 → BitVec 32) (memory : HashMemory) (tbl : ℕ)
    (table : UTHashTable) (chained : HashTable) (entry : HashEntry) : HashMemory :=
  (memory.pushBucket (addresses (chained.chain (index hashFcn chained entry))).head?
    entry.address).setTable tbl (filled hashFcn table chained entry)

theorem entryStored (awaits : memory.Awaits hashFcn tbl table chained entry) :
    memory.Stores hashFcn tbl entry :=
  awaits.stored entry (List.mem_append_right _ (List.mem_singleton.mpr rfl))

theorem fresh (awaits : memory.Awaits hashFcn tbl table chained entry) :
    entry.address ∉ addresses chained.order := by
  intro isOld
  have apart := awaits.apart
  rw [addresses_append] at apart
  exact (List.nodup_append.mp apart).2.2 _ isOld _ (List.mem_singleton.mpr rfl) rfl

theorem firstPresent (awaits : memory.Awaits hashFcn tbl table chained entry) :
    ∀ address, (addresses (chained.chain (index hashFcn chained entry))).head? = some address →
      memory.Present address := by
  intro address isFirst
  rcases List.mem_map.mp (mem_head isFirst) with ⟨first, inChain, rfl⟩
  have inOrder := ((awaits.wellFormed.mem_chain _ (slot_lt _ _ _) first).mp inChain).1
  exact (awaits.stored first (List.mem_append_left _ inOrder)).present

/-- Adding to the bucket, up to the expansion. -/
theorem hashAddToBkt_eq (awaits : memory.Awaits hashFcn tbl table chained entry) (fuel : ℕ) :
    hashAddToBkt fuel memory tbl (hashToBkt (hashFcn entry.key) table.numBuckets) entry.address =
      if (chained.mult (index hashFcn chained entry) + 1) * hashBktCapacityThresh ≤
          (chained.chain (index hashFcn chained entry)).length + 1 ∧ chained.fixed = false
      then hashExpandBuckets fuel (pushed hashFcn memory tbl table chained entry) tbl
      else some (pushed hashFcn memory tbl table chained entry) := by
  have below : index hashFcn chained entry < 2 ^ chained.bits := slot_lt _ _ _
  have entryPresent := awaits.entryStored.present
  have entryStored : (pushed hashFcn memory tbl table chained entry).Stores hashFcn tbl entry := by
    rw [Stores]
    change (memory.pushBucket _ _).identity entry.address = _
    rw [identity_pushBucket]
    exact awaits.entryStored
  have tableOf : (pushed hashFcn memory tbl table chained entry).tableOf entry.address =
      some (tbl, filled hashFcn table chained entry) := entryStored.tableOf table_setTable_self
  have noexpand : (filled hashFcn table chained entry).noexpand ≠ 1 ↔ chained.fixed = false := by
    change table.noexpand ≠ 1 ↔ _
    rw [awaits.counts.noexpand]
    cases chained.fixed <;> simp
  rw [hashAddToBkt, awaits.counts.numBuckets, hashToBkt_two_pow, ← index]
  simp only [awaits.found, Option.bind_eq_bind, Option.bind_some,
    awaits.counts.fills.read below, setHandle_of_present entryPresent,
    setHandleAt_assign awaits.firstPresent, BucketArray.write, awaits.counts.fills.size, if_pos below]
  rw [← awaits.counts.fills.size]
  change (Option.bind ((pushed hashFcn memory tbl table chained entry).tableOf entry.address) _) = _
  rw [tableOf, Option.bind_some]
  simp only [noexpand]
  rfl

/-- Without an expansion the element has been pushed. -/
theorem describes_pushed (awaits : memory.Awaits hashFcn tbl table chained entry) :
    (pushed hashFcn memory tbl table chained entry).Describes hashFcn tbl
      (filled hashFcn table chained entry) (chained.push HashEntry.key (hashNumber hashFcn) entry) ∧
      memory.Keeps (pushed hashFcn memory tbl table chained entry) tbl := by
  have below : index hashFcn chained entry < 2 ^ chained.bits := slot_lt _ _ _
  have fresh := awaits.fresh
  have identity : (memory.pushBucket (addresses (chained.chain
      (index hashFcn chained entry))).head? entry.address).identity = memory.identity :=
    identity_pushBucket _ _
  have oldApart : (addresses chained.order).Nodup := by
    have apart := awaits.apart
    rw [addresses_append] at apart
    exact (List.nodup_append.mp apart).1
  have links := bucketLinks_pushBucket awaits.entryStored.present awaits.firstPresent
  have notIn : ∀ other < 2 ^ chained.bits, entry.address ∉ addresses (chained.chain other) := by
    intro other otherBelow isCell
    rcases address_mem_chain awaits.wellFormed otherBelow isCell with ⟨one, oneIn, same, -⟩
    exact fresh (same ▸ List.mem_map_of_mem oneIn)
  have fills := awaits.counts.fills.push below
    (nodup_addresses_chain awaits.wellFormed oldApart below)
    (chains_apart awaits.wellFormed oldApart below) notIn links
    (chained.mult (index hashFcn chained entry))
  rw [Function.update_eq_self] at fills
  have counts : (filled hashFcn table chained entry).Counts (memory.pushBucket (addresses
      (chained.chain (index hashFcn chained entry))).head? entry.address)
      (chained.push HashEntry.key (hashNumber hashFcn) entry) :=
    ⟨fills, awaits.counts.numBuckets, awaits.counts.log2NumBuckets,
      awaits.counts.idealChainMaxlen, awaits.counts.nonidealItems, awaits.counts.ineffExpands,
      awaits.counts.noexpand⟩
  refine ⟨⟨table_setTable_self, ?_, ?_, ?_, counts.congr rfl, ?_, awaits.apart, ?_⟩, ?_, ?_⟩
  · change (memory.pushBucket _ _).orderLinks.IsList _
    rw [orderLinks_pushBucket]
    exact awaits.order
  · change table.tail = (addresses (chained.order ++ [entry])).getLast?
    rw [awaits.tail, addresses_append]
    exact List.getLast?_concat.symm
  · change table.numItems = (chained.order ++ [entry]).length
    rw [awaits.numItems, List.length_append, List.length_singleton]
  · intro other inOrder
    rw [Stores]
    change (memory.pushBucket _ _).identity other.address = _
    rw [identity]
    exact awaits.stored other inOrder
  · apply awaits.wellFormed.push
    exact fun isOld => fresh (List.mem_map_of_mem isOld)
  · exact fun address => present_congr identity
  · intro other different
    rw [pushed, table_setTable_of_ne different, pushBucket, table_assignAt, table_assign]

/-- The element gets into its bucket, and the buckets are expanded if need be. -/
theorem insert (awaits : memory.Awaits hashFcn tbl table chained entry)
    (enough : chained.order.length + 1 ≤ fuel) :
    ∃ later laterTable, hashAddToBkt fuel memory tbl
        (hashToBkt (hashFcn entry.key) table.numBuckets) entry.address = some later ∧
      later.Describes hashFcn tbl laterTable (chained.insert hashFcn entry) ∧
      memory.Keeps later tbl := by
  rcases awaits.describes_pushed with ⟨describes, keeps⟩
  have pushedLength : ((chained.push HashEntry.key (hashNumber hashFcn) entry).chain
      (index hashFcn chained entry)).length =
        (chained.chain (index hashFcn chained entry)).length + 1 := by
    simp [Chained.push, index]
  rw [awaits.hashAddToBkt_eq]
  simp only [HashTable.insert, Chained.add, ← pushedLength]
  -- The test is made after the element was counted, on both sides.
  split
  · rcases describes.expand (by simp [Chained.push]) (by simpa [Chained.push] using enough) with
      ⟨later, laterTable, expanded, laterDescribes, laterKeeps⟩
    exact ⟨later, laterTable, expanded, laterDescribes, keeps.trans laterKeeps⟩
  · exact ⟨_, _, rfl, describes, keeps⟩

end Awaits

/-! ### The first half -/

/-- The table of an element that is the last one but not counted yet. -/
structure Linked (hashFcn : List UInt8 → BitVec 32) (memory : HashMemory) (tbl : ℕ)
    (table : UTHashTable) (chained : HashTable) (entry : HashEntry) : Prop where
  found : memory.table tbl = some table
  order : memory.orderLinks.IsList (addresses (chained.order ++ [entry]))
  tail : table.tail = some entry.address
  numItems : table.numItems = chained.order.length
  counts : table.Counts memory chained
  stored : ∀ other ∈ chained.order, memory.Stores hashFcn tbl other
  named : ∃ identity, memory.identity entry.address = some identity ∧
    identity.key = entry.key ∧ identity.keylen = entry.key.length
  apart : (addresses (chained.order ++ [entry])).Nodup
  wellFormed : chained.WellFormed HashEntry.key (hashNumber hashFcn)

/-- The memory after the element was counted and knows its table and its hash. -/
def counted (hashFcn : List UInt8 → BitVec 32) (memory : HashMemory) (tbl : ℕ)
    (table : UTHashTable) (entry : HashEntry) : HashMemory :=
  (memory.setTable tbl { table with numItems := table.numItems + 1 }).assign entry.address
    fun handle => { handle with tbl := some tbl, hashv := hashFcn entry.key }

theorem Linked.awaits (linked : memory.Linked hashFcn tbl table chained entry) :
    (counted hashFcn memory tbl table entry).Awaits hashFcn tbl
      { table with numItems := table.numItems + 1 } chained entry := by
  have notOld : ∀ other ∈ chained.order, other.address ≠ entry.address := by
    intro other isOld same
    have apart := linked.apart
    rw [addresses_append] at apart
    exact (List.nodup_append.mp apart).2.2 _ (List.mem_map_of_mem isOld) _
      (List.mem_singleton.mpr rfl) same
  have order : (counted hashFcn memory tbl table entry).orderLinks = memory.orderLinks :=
    orderLinks_assign_of_kept (by intro _; rfl) (by intro _; rfl)
  have bucket : (counted hashFcn memory tbl table entry).bucketLinks = memory.bucketLinks :=
    bucketLinks_assign_of_kept (by intro _; rfl) (by intro _; rfl)
  refine ⟨table_setTable_self, order ▸ linked.order, linked.tail,
    congrArg (· + 1) linked.numItems, ?_, ?_, linked.apart, linked.wellFormed⟩
  · have counts := linked.counts.congr bucket
    exact ⟨counts.fills, counts.numBuckets, counts.log2NumBuckets, counts.idealChainMaxlen,
      counts.nonidealItems, counts.ineffExpands, counts.noexpand⟩
  · intro other inOrder
    rcases List.mem_append.mp inOrder with isOld | isNew
    · rw [Stores, counted, identity_assign_of_ne (notOld other isOld)]
      exact linked.stored other isOld
    · rw [List.mem_singleton.mp isNew, Stores, counted, identity_assign_self]
      rcases linked.named with ⟨identity, isNamed, keyEq, keylenEq⟩
      rcases Option.map_eq_some_iff.mp isNamed with ⟨handle, handleFound, rfl⟩
      rw [handle_setTable, handleFound, Option.map_some]
      simp only [UTHashHandle.identity] at keyEq keylenEq ⊢
      rw [keyEq, keylenEq]

theorem keeps_counted : memory.Keeps (counted hashFcn memory tbl table entry) tbl where
  present := fun _ => present_assign
  others := fun _ different => table_setTable_of_ne different

/-- The memory after the key of an element was set. -/
def keyed (memory : HashMemory) (entry : HashEntry) : HashMemory :=
  memory.assign entry.address fun handle =>
    { handle with next := none, key := entry.key, keylen := entry.key.length }

theorem orderLinks_keyed (present : memory.Present entry.address) :
    (memory.keyed entry).orderLinks = memory.orderLinks.setNext entry.address none :=
  congrArg₂ Links.mk (bind_assign present fun _ => rfl)
    (funext fun _ => bind_assign_of_kept fun _ => rfl)

theorem bucketLinks_keyed : (memory.keyed entry).bucketLinks = memory.bucketLinks :=
  bucketLinks_assign_of_kept (by intro _; rfl) (by intro _; rfl)

theorem named_keyed (present : memory.Present entry.address) :
    ∃ identity, (memory.keyed entry).identity entry.address = some identity ∧
      identity.key = entry.key ∧ identity.keylen = entry.key.length := by
  rcases Option.isSome_iff_exists.mp present with ⟨handle, found⟩
  exact ⟨⟨handle.tbl, entry.key, entry.key.length, handle.hashv⟩,
    by rw [keyed, identity_assign_self, found]; rfl, rfl, rfl⟩

/-- A new table, whose only element is not counted yet. -/
def newTable (head : ℕ) : UTHashTable where
  buckets := .zeroed hashInitialNumBuckets
  numBuckets := hashInitialNumBuckets
  log2NumBuckets := hashInitialNumBucketsLog2
  numItems := 0
  tail := some head
  idealChainMaxlen := 0
  nonidealItems := 0
  ineffExpands := 0
  noexpand := 0

/-- The memory after the first element got a new table. -/
def founded (memory : HashMemory) (entry : HashEntry) : HashMemory :=
  { (((memory.keyed entry).assign entry.address fun handle =>
      { handle with prev := none }).assign entry.address fun handle =>
      { handle with tbl := some memory.tables }).setTable memory.tables
        (newTable entry.address) with
    tables := memory.tables + 1 }

theorem hashLinkElement_none (present : memory.Present entry.address) :
    hashLinkElement (memory.keyed entry) none entry.address =
      some (entry.address, memory.founded entry) := by
  have keyedPresent : (memory.keyed entry).Present entry.address := present_assign.mpr present
  have startPresent : ((memory.keyed entry).assign entry.address
      fun handle => { handle with prev := none }).Present entry.address :=
    present_assign.mpr keyedPresent
  rw [hashLinkElement, setHandle_of_present keyedPresent]
  simp only [Option.bind_eq_bind, Option.bind_some, hashMakeTable,
    setHandle_of_present startPresent]
  rfl

theorem orderLinks_founded (present : memory.Present entry.address) :
    (memory.founded entry).orderLinks =
      (memory.orderLinks.setNext entry.address none).setPrev entry.address none := by
  have keyedPresent : (memory.keyed entry).Present entry.address := present_assign.mpr present
  change (((memory.keyed entry).assign entry.address _).assign entry.address _).orderLinks = _
  rw [orderLinks_assign_of_kept (by intro _; rfl) (by intro _; rfl),
    orderLinks_assign_prev keyedPresent, orderLinks_keyed present]

theorem identity_founded (present : memory.Present entry.address) :
    ∃ hashv, (memory.founded entry).identity entry.address =
      some ⟨some memory.tables, entry.key, entry.key.length, hashv⟩ := by
  rcases Option.isSome_iff_exists.mp present with ⟨handle, found⟩
  refine ⟨handle.hashv, ?_⟩
  change (((memory.keyed entry).assign entry.address _).assign entry.address _).identity _ = _
  rw [identity_assign_self, handle_assign_self, keyed, handle_assign_self, found]
  rfl

theorem table_founded_self :
    (memory.founded entry).table memory.tables = some (newTable entry.address) :=
  Function.update_self ..

/-- The first element is the only one of a new table. -/
theorem linked_first (present : memory.Present entry.address) :
    (memory.founded entry).Linked hashFcn memory.tables (newTable entry.address)
      (Chained.initial hashInitialNumBucketsLog2) entry where
  found := table_founded_self
  order := by
    rw [orderLinks_founded present]
    exact ⟨Links.prev_setPrev_self, Links.next_setNext_self, trivial⟩
  tail := rfl
  numItems := rfl
  counts := ⟨⟨rfl, fun _ _ => trivial, fun _ _ => rfl⟩, rfl, rfl, rfl, rfl, rfl, rfl⟩
  stored := fun _ isOld => absurd isOld List.not_mem_nil
  named := by
    rcases identity_founded present with ⟨hashv, identity⟩
    exact ⟨_, identity, rfl, rfl⟩
  apart := List.nodup_singleton _
  wellFormed := Chained.wellFormed_initial

/-- The memory after an element got behind the last one of a table. -/
def appended (memory : HashMemory) (tbl : ℕ) (table : UTHashTable) (tail : ℕ)
    (entry : HashEntry) : HashMemory :=
  (((memory.keyed entry).assign tail fun handle =>
      { handle with next := some entry.address }).assign entry.address fun handle =>
      { handle with prev := some tail }).setTable tbl { table with tail := some entry.address }

theorem orderLinks_appended {tail : ℕ} (present : memory.Present entry.address)
    (tailPresent : memory.Present tail) :
    (memory.appended tbl table tail entry).orderLinks =
      memory.orderLinks.append (some tail) entry.address := by
  have keyedTail : (memory.keyed entry).Present tail := present_assign.mpr tailPresent
  have keyedPresent : ((memory.keyed entry).assign tail fun handle =>
      { handle with next := some entry.address }).Present entry.address :=
    present_assign.mpr (present_assign.mpr present)
  change (((memory.keyed entry).assign tail _).assign entry.address _).orderLinks = _
  rw [orderLinks_assign_prev keyedPresent, orderLinks_assign_next keyedTail,
    orderLinks_keyed present]
  rfl

theorem identity_appended {tail : ℕ} :
    (memory.appended tbl table tail entry).identity = (memory.keyed entry).identity :=
  (identity_assign_of_kept (by intro _; rfl)).trans (identity_assign_of_kept (by intro _; rfl))

theorem bucketLinks_appended {tail : ℕ} :
    (memory.appended tbl table tail entry).bucketLinks = memory.bucketLinks :=
  ((bucketLinks_assign_of_kept (by intro _; rfl) (by intro _; rfl)).trans
    (bucketLinks_assign_of_kept (by intro _; rfl) (by intro _; rfl))).trans bucketLinks_keyed

theorem keeps_appended {tail : ℕ} : memory.Keeps (memory.appended tbl table tail entry) tbl where
  present := fun _ => present_assign.trans (present_assign.trans present_assign)
  others := fun _ different => table_setTable_of_ne different

namespace Describes

variable {tail : ℕ}

theorem stores_keyed (describes : memory.Describes hashFcn tbl table chained)
    (fresh : entry.address ∉ addresses chained.order) {other : HashEntry}
    (isOld : other ∈ chained.order) : (memory.keyed entry).Stores hashFcn tbl other := by
  have different : other.address ≠ entry.address := fun same =>
    fresh (same ▸ List.mem_map_of_mem isOld)
  rw [Stores, keyed, identity_assign_of_ne different]
  exact describes.stored other isOld

theorem hashLinkElement_some (describes : memory.Describes hashFcn tbl table chained)
    {first : HashEntry} (first_mem : first ∈ chained.order)
    (isTail : (addresses chained.order).getLast? = some tail)
    (fresh : entry.address ∉ addresses chained.order) (present : memory.Present entry.address) :
    hashLinkElement (memory.keyed entry) (some first.address) entry.address =
      some (first.address, memory.appended tbl table tail entry) := by
  have tableFound := (describes.stores_keyed fresh first_mem).tableOf describes.found
  have tailPresent : (memory.keyed entry).Present tail :=
    present_assign.mpr (describes.present_of_mem (List.mem_of_mem_getLast? isTail))
  have laterPresent : ((memory.keyed entry).assign tail fun handle =>
      { handle with next := some entry.address }).Present entry.address :=
    present_assign.mpr (present_assign.mpr present)
  rw [hashLinkElement, tableFound]
  simp only [Option.bind_eq_bind, Option.bind_some, describes.tail, isTail,
    setHandle_of_present tailPresent, setHandle_of_present laterPresent]
  rfl

/-- Any other element comes behind the last one. -/
theorem linked (describes : memory.Describes hashFcn tbl table chained)
    (isTail : (addresses chained.order).getLast? = some tail)
    (fresh : entry.address ∉ addresses chained.order) (present : memory.Present entry.address) :
    (memory.appended tbl table tail entry).Linked hashFcn tbl
      { table with tail := some entry.address } chained entry where
  found := table_setTable_self
  order := by
    have tailPresent := describes.present_of_mem (List.mem_of_mem_getLast? isTail)
    rw [orderLinks_appended present tailPresent, addresses_append, ← isTail]
    exact Links.isList_append describes.order describes.apart fresh
  tail := rfl
  numItems := describes.numItems
  counts := by
    have counts : table.Counts (memory.appended tbl table tail entry) chained :=
      describes.counts.congr bucketLinks_appended
    exact ⟨counts.fills, counts.numBuckets, counts.log2NumBuckets, counts.idealChainMaxlen,
      counts.nonidealItems, counts.ineffExpands, counts.noexpand⟩
  stored := by
    intro other isOld
    rw [Stores, identity_appended]
    exact describes.stores_keyed fresh isOld
  named := by
    rw [identity_appended]
    exact named_keyed present
  apart := by
    rw [addresses_append]
    refine List.nodup_append.mpr ⟨describes.apart, List.nodup_singleton _, ?_⟩
    rintro address isOld _ isNew rfl
    exact fresh (List.mem_singleton.mp isNew ▸ isOld)
  wellFormed := describes.wellFormed

end Describes

/-- The second half, for an element that was linked. -/
theorem Linked.count {first : ℕ} (linked : memory.Linked hashFcn tbl table chained entry)
    (tableFound : memory.tableOf first = some (tbl, table))
    (enough : chained.order.length + 1 ≤ fuel) :
    ∃ later laterTable, hashCountElement hashFcn fuel memory first entry.key entry.address =
        some later ∧
      later.Describes hashFcn tbl laterTable (chained.insert hashFcn entry) ∧
      memory.Keeps later tbl := by
  rcases linked.awaits.insert enough with ⟨later, laterTable, added, describes, keeps⟩
  rcases linked.named with ⟨identity, isNamed, -⟩
  have present : (memory.setTable tbl { table with numItems := table.numItems + 1 }).Present
      entry.address := present_of_identity isNamed
  refine ⟨later, laterTable, ?_, describes, keeps_counted.trans keeps⟩
  simp only [hashCountElement, tableFound, Option.bind_eq_bind, Option.bind_some,
    setHandle_of_present present]
  exact added

theorem order_insert : (chained.insert hashFcn entry).order = chained.order ++ [entry] := by
  simp only [HashTable.insert, Chained.add]
  split <;> rfl

/-- The first element of all. -/
theorem add_first (noTable : ∀ tbl, memory.table tbl = none)
    (present : memory.Present entry.address) (enough : 1 ≤ fuel) :
    ∃ later, hashAddKeyptr hashFcn fuel memory none entry.key entry.address =
        some (entry.address, later) ∧
      later.Represents hashFcn (some entry.address)
        (HashTable.insert hashFcn (Chained.initial hashInitialNumBucketsLog2) entry) ∧
      ∀ address, later.Present address ↔ memory.Present address := by
  have linked : (memory.founded entry).Linked hashFcn memory.tables (newTable entry.address)
      (Chained.initial hashInitialNumBucketsLog2) entry := linked_first present
  have tableFound : (memory.founded entry).tableOf entry.address =
      some (memory.tables, newTable entry.address) := by
    rcases identity_founded present with ⟨hashv, identity⟩
    rcases Option.map_eq_some_iff.mp identity with ⟨handle, found, isIdentity⟩
    have tblEq : handle.tbl = some memory.tables := congrArg HandleIdentity.tbl isIdentity
    simp [HashMemory.tableOf, found, tblEq, table_founded_self]
  rcases linked.count tableFound enough with ⟨later, laterTable, counted, describes, keeps⟩
  refine ⟨later, ?_, ?_, ?_⟩
  · rw [hashAddKeyptr, setHandle_of_present present]
    change Option.bind (hashLinkElement (memory.keyed entry) none entry.address) _ = _
    simp only [hashLinkElement_none present, Option.bind_some, counted]
    rfl
  · have isHead : (addresses (HashTable.insert hashFcn
        (Chained.initial hashInitialNumBucketsLog2) entry).order).head? = some entry.address := by
      rw [order_insert]
      rfl
    rw [← isHead]
    refine .filled (by simp [order_insert]) describes fun other different => ?_
    rw [keeps.others other different]
    exact (Function.update_of_ne different ..).trans (noTable other)
  · intro address
    exact (keeps.present address).trans (present_assign.trans (present_assign.trans present_assign))

/-- Any other element. -/
theorem Describes.add (describes : memory.Describes hashFcn tbl table chained)
    (nonempty : chained.order ≠ []) (only : ∀ other ≠ tbl, memory.table other = none)
    (fresh : entry.address ∉ addresses chained.order) (present : memory.Present entry.address)
    (enough : chained.order.length + 1 ≤ fuel) :
    ∃ first later, hashAddKeyptr hashFcn fuel memory (addresses chained.order).head? entry.key
        entry.address = some (first, later) ∧
      later.Represents hashFcn (some first) (chained.insert hashFcn entry) ∧
      ∀ address, later.Present address ↔ memory.Present address := by
  rcases List.exists_cons_of_ne_nil nonempty with ⟨first, rest, orderEq⟩
  have first_mem : first ∈ chained.order := by simp [orderEq]
  have isHead : (addresses chained.order).head? = some first.address := by simp [orderEq]
  have addressed : addresses chained.order ≠ [] := by simp [orderEq]
  have isTail := List.getLast?_eq_some_getLast addressed
  have linked := describes.linked isTail fresh present
  have stored := describes.stores_keyed fresh first_mem
  rw [Stores, ← identity_appended] at stored
  have tableFound := Stores.tableOf stored linked.found
  rcases linked.count tableFound enough with ⟨later, laterTable, counted, laterDescribes, keeps⟩
  refine ⟨first.address, later, ?_, ?_, ?_⟩
  · rw [hashAddKeyptr, setHandle_of_present present, isHead]
    change Option.bind (hashLinkElement (memory.keyed entry) _ entry.address) _ = _
    simp only [describes.hashLinkElement_some first_mem isTail fresh present, Option.bind_some,
      counted]
    rfl
  · have laterHead : (addresses (chained.insert hashFcn entry).order).head? =
        some first.address := by
      simp [order_insert, orderEq]
    rw [← laterHead]
    refine .filled (by simp [order_insert]) laterDescribes fun other different => ?_
    rw [keeps.others other different, keeps_appended.others other different]
    exact only other different
  · exact fun address => (keeps.present address).trans (keeps_appended.present address)

/-- Adding an element to the table, or to none. -/
theorem Represents.add (represents : memory.Represents hashFcn head chained)
    (fresh : entry.address ∉ addresses chained.order) (present : memory.Present entry.address)
    (enough : chained.order.length + 1 ≤ fuel) :
    ∃ first later, hashAddKeyptr hashFcn fuel memory head entry.key entry.address =
        some (first, later) ∧ later.Represents hashFcn (some first) (chained.insert hashFcn entry) ∧
      ∀ address, later.Present address ↔ memory.Present address := by
  cases represents with
  | empty noTable => exact ⟨entry.address, add_first noTable present enough⟩
  | filled nonempty describes only => exact describes.add nonempty only fresh present enough

end HashMemory

end Kieker
