import Mathlib.Algebra.Group.Nat.Defs
import Mathlib.Logic.Function.Basic

/-!
# The hash table behind the trace map

The macros of `uthash.h` that `kieker_trace.c` uses, on a memory of handles and
tables. An element and the handle inside it are known by one number, since the
distance between them is the same for all elements. A pointer to a freed table or
to no element leads nowhere, and a macro that follows one has no value; neither
has a loop over a chain that does not end within `fuel` rounds. The counters, which
have 32 bits in the source, are numbers that do not wrap around: the macros do what
they do here as long as every table `FitsUnsigned`.

The Bloom filter and the emitted keys are left out, as they are in the library's
build, and so is the exit of the process when `malloc` fails.
-/

namespace Kieker

/-! ### Data -/

/-- `UT_hash_handle`. -/
structure UTHashHandle where
  tbl : Option ℕ
  prev : Option ℕ
  next : Option ℕ
  hhPrev : Option ℕ
  hhNext : Option ℕ
  /-- The bytes that `key` points to, which do not change while the element is in a table. -/
  key : List UInt8
  keylen : ℕ
  hashv : BitVec 32

/-- `UT_hash_bucket`. -/
structure UTHashBucket where
  hhHead : Option ℕ
  count : ℕ
  expandMult : ℕ

/-- An allocated array of buckets. -/
structure BucketArray where
  size : ℕ
  bucket : ℕ → UTHashBucket

namespace BucketArray

/-- Buckets after `uthash_malloc` and `memset`. -/
def zeroed (size : ℕ) : BucketArray where
  size := size
  bucket := fun _ => ⟨none, 0, 0⟩

/-- Reads a bucket, inside the array only. -/
def read (buckets : BucketArray) (index : ℕ) : Option UTHashBucket :=
  if index < buckets.size then some (buckets.bucket index) else none

/-- Writes a bucket, inside the array only. -/
def write (buckets : BucketArray) (index : ℕ) (bucket : UTHashBucket) : Option BucketArray :=
  if index < buckets.size then
    some { buckets with bucket := Function.update buckets.bucket index bucket }
  else none

end BucketArray

/-- `UT_hash_table`. -/
structure UTHashTable where
  buckets : BucketArray
  numBuckets : ℕ
  log2NumBuckets : ℕ
  numItems : ℕ
  tail : Option ℕ
  idealChainMaxlen : ℕ
  nonidealItems : ℕ
  ineffExpands : ℕ
  noexpand : ℕ

/-- The handles of the elements there are, and the tables allocated. -/
structure HashMemory where
  handle : ℕ → Option UTHashHandle
  table : ℕ → Option UTHashTable
  /-- How many tables were allocated so far. -/
  tables : ℕ

namespace HashMemory

/-- Nothing is allocated. -/
def empty : HashMemory where
  handle := fun _ => none
  table := fun _ => none
  tables := 0

/-- `malloc` of an element, whose handle has some contents. -/
def malloc (memory : HashMemory) (address : ℕ) (handle : UTHashHandle) : HashMemory :=
  { memory with handle := Function.update memory.handle address (some handle) }

/-- `free` of an element. -/
def free (memory : HashMemory) (address : ℕ) : HashMemory :=
  { memory with handle := Function.update memory.handle address none }

/-- Assigns to members of a handle. -/
def setHandle (memory : HashMemory) (address : ℕ) (change : UTHashHandle → UTHashHandle) :
    Option HashMemory := do
  let handle ← memory.handle address
  some { memory with handle := Function.update memory.handle address (some (change handle)) }

/-- Assigns to members of the handle at a pointer, if it is not null. -/
def setHandleAt (memory : HashMemory) (pointer : Option ℕ)
    (change : UTHashHandle → UTHashHandle) : Option HashMemory :=
  match pointer with
  | none => some memory
  | some address => memory.setHandle address change

/-- Puts back the members of a table. -/
def setTable (memory : HashMemory) (address : ℕ) (table : UTHashTable) : HashMemory :=
  { memory with table := Function.update memory.table address (some table) }

/-- `(head)->hh.tbl`: where the table is, and the table. -/
def tableOf (memory : HashMemory) (head : ℕ) : Option (ℕ × UTHashTable) := do
  let handle ← memory.handle head
  let tbl ← handle.tbl
  let table ← memory.table tbl
  some (tbl, table)

end HashMemory

/-! ### Hashing -/

/-- `HASH_JEN_MIX`. -/
def hashJenMix (a b c : BitVec 32) : BitVec 32 × BitVec 32 × BitVec 32 :=
  let a := a - b - c ^^^ c >>> 13
  let b := b - c - a ^^^ a <<< 8
  let c := c - a - b ^^^ b >>> 13
  let a := a - b - c ^^^ c >>> 12
  let b := b - c - a ^^^ a <<< 16
  let c := c - a - b ^^^ b >>> 5
  let a := a - b - c ^^^ c >>> 3
  let b := b - c - a ^^^ a <<< 10
  let c := c - a - b ^^^ b >>> 15
  (a, b, c)

/-- A byte of the key, moved to its place in a word; there is none behind the end of the key. -/
def hashJenByte (key : List UInt8) (index shift : ℕ) : BitVec 32 :=
  BitVec.ofNat 32 (key.getD index 0).toNat <<< shift

/-- Four bytes of the key as a word, the first one lowest. -/
def hashJenWord (key : List UInt8) (index : ℕ) : BitVec 32 :=
  hashJenByte key index 0 + hashJenByte key (index + 1) 8 + hashJenByte key (index + 2) 16 +
    hashJenByte key (index + 3) 24

/-- The loop of `HASH_JEN`, which mixes in twelve bytes each time while there are as many. -/
def hashJenLoop : ℕ → BitVec 32 × BitVec 32 × BitVec 32 → List UInt8 →
    (BitVec 32 × BitVec 32 × BitVec 32) × List UInt8
  | 0, state, key => (state, key)
  | rounds + 1, (i, j, hashv), key =>
      hashJenLoop rounds (hashJenMix (i + hashJenWord key 0) (j + hashJenWord key 4)
        (hashv + hashJenWord key 8)) (key.drop 12)

/-- `HASH_JEN`: the hash value. -/
def hashJen (key : List UInt8) : BitVec 32 :=
  let ((i, j, hashv), rest) :=
    hashJenLoop (key.length / 12) (0x9e3779b9, 0x9e3779b9, 0xfeedbeef) key
  let hashv := hashv + BitVec.ofNat 32 key.length
  let hashv := hashv + hashJenByte rest 10 24 + hashJenByte rest 9 16 + hashJenByte rest 8 8
  let j := j + hashJenWord rest 4
  let i := i + hashJenWord rest 0
  (hashJenMix i j hashv).2.2

/-- `HASH_TO_BKT`, which is also how a hash function selects the bucket. -/
def hashToBkt (hashv : BitVec 32) (numBkts : ℕ) : ℕ :=
  hashv.toNat &&& (numBkts - 1)

/-! ### The macros -/

/-- `HASH_INITIAL_NUM_BUCKETS_LOG2`. -/
def hashInitialNumBucketsLog2 : ℕ := 5

/-- `HASH_INITIAL_NUM_BUCKETS`. -/
def hashInitialNumBuckets : ℕ := 32

/-- `HASH_BKT_CAPACITY_THRESH`. -/
def hashBktCapacityThresh : ℕ := 10

/-- `HASH_MAKE_TABLE`. -/
def hashMakeTable (memory : HashMemory) (head : ℕ) : Option HashMemory := do
  let tbl := memory.tables
  let memory ← memory.setHandle head fun handle => { handle with tbl := some tbl }
  some { memory.setTable tbl {
      buckets := .zeroed hashInitialNumBuckets
      numBuckets := hashInitialNumBuckets
      log2NumBuckets := hashInitialNumBucketsLog2
      numItems := 0
      tail := some head
      idealChainMaxlen := 0
      nonidealItems := 0
      ineffExpands := 0
      noexpand := 0 } with
    tables := tbl + 1 }

/-- `HASH_FIND_IN_BKT`, from an element of the bucket on. -/
def hashFindInBkt (memory : HashMemory) (key : List UInt8) : ℕ → Option ℕ → Option (Option ℕ)
  | _, none => some none
  | 0, some _ => none
  | fuel + 1, some out => do
      let handle ← memory.handle out
      if handle.keylen = key.length ∧ handle.key = key then some (some out)
      else hashFindInBkt memory key fuel handle.hhNext

/-- `HASH_FIND`. -/
def hashFind (hashFcn : List UInt8 → BitVec 32) (fuel : ℕ) (memory : HashMemory)
    (head : Option ℕ) (key : List UInt8) : Option (Option ℕ) :=
  match head with
  | none => some none
  | some head => do
      let (_, table) ← memory.tableOf head
      let bucket ← table.buckets.read (hashToBkt (hashFcn key) table.numBuckets)
      hashFindInBkt memory key fuel bucket.hhHead

/-- What the loops of `HASH_EXPAND_BUCKETS` change. -/
structure Expansion where
  memory : HashMemory
  newBuckets : BucketArray
  nonidealItems : ℕ

/-- One round of the inner loop of `HASH_EXPAND_BUCKETS`: an element moves to its new bucket. -/
def hashMoveElement (numBkts idealChainMaxlen : ℕ) (expansion : Expansion) (thh : ℕ)
    (hashv : BitVec 32) : Option Expansion := do
  let bkt := hashToBkt hashv numBkts
  let newbkt ← expansion.newBuckets.read bkt
  let count := newbkt.count + 1
  let (nonidealItems, expandMult) ←
    if idealChainMaxlen < count then
      if idealChainMaxlen = 0 then none
      else some (expansion.nonidealItems + 1, count / idealChainMaxlen)
    else some (expansion.nonidealItems, newbkt.expandMult)
  let memory ← expansion.memory.setHandle thh fun handle =>
    { handle with hhPrev := none, hhNext := newbkt.hhHead }
  let memory ← memory.setHandleAt newbkt.hhHead fun handle => { handle with hhPrev := some thh }
  let newBuckets ← expansion.newBuckets.write bkt ⟨some thh, count, expandMult⟩
  some ⟨memory, newBuckets, nonidealItems⟩

/-- The inner loop of `HASH_EXPAND_BUCKETS`, from an element of an old bucket on. -/
def hashMoveChain (numBkts idealChainMaxlen : ℕ) :
    ℕ → Expansion → Option ℕ → Option Expansion
  | _, expansion, none => some expansion
  | 0, _, some _ => none
  | fuel + 1, expansion, some thh => do
      let handle ← expansion.memory.handle thh
      let expansion ← hashMoveElement numBkts idealChainMaxlen expansion thh handle.hashv
      hashMoveChain numBkts idealChainMaxlen fuel expansion handle.hhNext

/-- The outer loop of `HASH_EXPAND_BUCKETS`, over buckets of the old array. -/
def hashMoveBuckets (fuel numBkts idealChainMaxlen : ℕ) (buckets : BucketArray) :
    List ℕ → Expansion → Option Expansion
  | [], expansion => some expansion
  | index :: rest, expansion => do
      let bucket ← buckets.read index
      let expansion ← hashMoveChain numBkts idealChainMaxlen fuel expansion bucket.hhHead
      hashMoveBuckets fuel numBkts idealChainMaxlen buckets rest expansion

/-- The assignments of `HASH_EXPAND_BUCKETS` to the table, with the results of the loops. -/
def UTHashTable.expanded (table : UTHashTable) (idealChainMaxlen : ℕ) (expansion : Expansion) :
    UTHashTable :=
  let ineffExpands :=
    if table.numItems >>> 1 < expansion.nonidealItems then table.ineffExpands + 1 else 0
  { table with
    buckets := expansion.newBuckets
    numBuckets := table.numBuckets * 2
    log2NumBuckets := table.log2NumBuckets + 1
    idealChainMaxlen := idealChainMaxlen
    nonidealItems := expansion.nonidealItems
    ineffExpands := ineffExpands
    noexpand := if 1 < ineffExpands then 1 else table.noexpand }

/-- `HASH_EXPAND_BUCKETS`. -/
def hashExpandBuckets (fuel : ℕ) (memory : HashMemory) (tbl : ℕ) : Option HashMemory := do
  let table ← memory.table tbl
  let idealChainMaxlen := table.numItems >>> (table.log2NumBuckets + 1) +
    if table.numItems &&& (table.numBuckets * 2 - 1) ≠ 0 then 1 else 0
  let expansion ← hashMoveBuckets fuel (table.numBuckets * 2) idealChainMaxlen table.buckets
    (List.range table.numBuckets) ⟨memory, .zeroed (table.numBuckets * 2), 0⟩
  some (expansion.memory.setTable tbl (table.expanded idealChainMaxlen expansion))

/-- `HASH_ADD_TO_BKT`, for a bucket of the table at `tbl`. -/
def hashAddToBkt (fuel : ℕ) (memory : HashMemory) (tbl bkt add : ℕ) : Option HashMemory := do
  let table ← memory.table tbl
  let bucket ← table.buckets.read bkt
  let count := bucket.count + 1
  let memory ← memory.setHandle add fun handle =>
    { handle with hhNext := bucket.hhHead, hhPrev := none }
  let memory ← memory.setHandleAt bucket.hhHead fun handle => { handle with hhPrev := some add }
  let buckets ← table.buckets.write bkt { bucket with hhHead := some add, count := count }
  let memory := memory.setTable tbl { table with buckets := buckets }
  let (addTbl, addTable) ← memory.tableOf add
  if (bucket.expandMult + 1) * hashBktCapacityThresh ≤ count ∧ addTable.noexpand ≠ 1 then
    hashExpandBuckets fuel memory addTbl
  else some memory

/--
The first half of `HASH_ADD_KEYPTR`: the element becomes the head of an empty
table, and of any other table the tail.
-/
def hashLinkElement (memory : HashMemory) (head : Option ℕ) (add : ℕ) :
    Option (ℕ × HashMemory) :=
  match head with
  | none => do
      let memory ← memory.setHandle add fun handle => { handle with prev := none }
      let memory ← hashMakeTable memory add
      some (add, memory)
  | some head => do
      let (tbl, table) ← memory.tableOf head
      let tail ← table.tail
      let memory ← memory.setHandle tail fun handle => { handle with next := some add }
      let memory ← memory.setHandle add fun handle => { handle with prev := some tail }
      some (head, memory.setTable tbl { table with tail := some add })

/--
The second half of `HASH_ADD_KEYPTR`: the element is counted, and gets into the
bucket of its key.
-/
def hashCountElement (hashFcn : List UInt8 → BitVec 32) (fuel : ℕ) (memory : HashMemory)
    (head : ℕ) (key : List UInt8) (add : ℕ) : Option HashMemory := do
  let (tbl, table) ← memory.tableOf head
  let memory := memory.setTable tbl { table with numItems := table.numItems + 1 }
  let hashv := hashFcn key
  let memory ← memory.setHandle add fun handle => { handle with tbl := some tbl, hashv := hashv }
  hashAddToBkt fuel memory tbl (hashToBkt hashv table.numBuckets) add

/-- `HASH_ADD_KEYPTR`: the head afterwards, and what was done. -/
def hashAddKeyptr (hashFcn : List UInt8 → BitVec 32) (fuel : ℕ) (memory : HashMemory)
    (head : Option ℕ) (key : List UInt8) (add : ℕ) : Option (ℕ × HashMemory) := do
  let memory ← memory.setHandle add fun handle =>
    { handle with next := none, key := key, keylen := key.length }
  let (head, memory) ← hashLinkElement memory head add
  let memory ← hashCountElement hashFcn fuel memory head key add
  some (head, memory)

/-- `HASH_DEL_IN_BKT`, for a bucket of the table at `tbl`. -/
def hashDelInBkt (memory : HashMemory) (tbl bkt del : ℕ) : Option HashMemory := do
  let table ← memory.table tbl
  let bucket ← table.buckets.read bkt
  let handle ← memory.handle del
  let hhHead := if bucket.hhHead = some del then handle.hhNext else bucket.hhHead
  let memory ← memory.setHandleAt handle.hhPrev fun before =>
    { before with hhNext := handle.hhNext }
  let memory ← memory.setHandleAt handle.hhNext fun after =>
    { after with hhPrev := handle.hhPrev }
  let buckets ← table.buckets.write bkt { bucket with hhHead := hhHead, count := bucket.count - 1 }
  some (memory.setTable tbl { table with buckets := buckets })

/--
`HASH_DELETE`: the head afterwards, and what was done. The members of the deleted
handle are read once, since no handle points to itself. The table of an element
without neighbours is freed.
-/
def hashDelete (memory : HashMemory) (head : Option ℕ) (del : ℕ) :
    Option (Option ℕ × HashMemory) := do
  let handle ← memory.handle del
  let (tbl, table) ← memory.tableOf (← head)
  if handle.prev = none ∧ handle.next = none then
    some (none, { memory with table := Function.update memory.table tbl none })
  else
    let tail := if table.tail = some del then handle.prev else table.tail
    let memory := memory.setTable tbl { table with tail := tail }
    let memory ← memory.setHandleAt handle.prev fun before => { before with next := handle.next }
    let head := if handle.prev = none then handle.next else head
    let memory ← memory.setHandleAt handle.next fun after => { after with prev := handle.prev }
    let (tbl, table) ← memory.tableOf (← head)
    let memory ← hashDelInBkt memory tbl (hashToBkt handle.hashv table.numBuckets) del
    let (tbl, table) ← memory.tableOf (← head)
    some (head, memory.setTable tbl { table with numItems := table.numItems - 1 })

/-! ### Counters of 32 bits -/

/--
Every `unsigned` that the macros compute for a table and its buckets is less than
`2 ^ 32`, also in the test whether a bucket is full; shifts are by less than 32.
-/
structure UTHashTable.FitsUnsigned (table : UTHashTable) : Prop where
  numBuckets : table.numBuckets < 2 ^ 32
  log2NumBuckets : table.log2NumBuckets < 32
  numItems : table.numItems < 2 ^ 32
  idealChainMaxlen : table.idealChainMaxlen < 2 ^ 32
  nonidealItems : table.nonidealItems < 2 ^ 32
  ineffExpands : table.ineffExpands < 2 ^ 32
  count : ∀ index < table.numBuckets, (table.buckets.bucket index).count < 2 ^ 32
  threshold : ∀ index < table.numBuckets,
    ((table.buckets.bucket index).expandMult + 1) * hashBktCapacityThresh < 2 ^ 32

/-! ### The integrity check -/

/--
The loops of `HASH_FSCK` along pointers, from an element on: how many elements
there are, or nothing if an element does not point back to the one before it.
-/
def hashCheckLinks (memory : HashMemory) (next prev : UTHashHandle → Option ℕ) :
    ℕ → Option ℕ → Option ℕ → Option (Option ℕ)
  | _, _, none => some (some 0)
  | 0, _, some _ => none
  | fuel + 1, before, some thh => do
      let handle ← memory.handle thh
      if before ≠ prev handle then some none
      else
        let count ← hashCheckLinks memory next prev fuel (some thh) (next handle)
        some (count.map (· + 1))

/-- The loop of `HASH_FSCK` over the buckets: how many elements they have together. -/
def hashCheckBuckets (fuel : ℕ) (memory : HashMemory) (buckets : BucketArray) :
    List ℕ → Option (Option ℕ)
  | [] => some (some 0)
  | index :: rest => do
      let bucket ← buckets.read index
      let bktCount ← hashCheckLinks memory UTHashHandle.hhNext UTHashHandle.hhPrev fuel none
        bucket.hhHead
      if bktCount ≠ some bucket.count then some none
      else
        let count ← hashCheckBuckets fuel memory buckets rest
        some (count.map (bucket.count + ·))

/-- `HASH_FSCK`: whether the table passes the check. -/
def hashFsck (fuel : ℕ) (memory : HashMemory) (head : Option ℕ) : Option Bool :=
  match head with
  | none => some true
  | some head => do
      let (_, table) ← memory.tableOf head
      let count ← hashCheckBuckets fuel memory table.buckets (List.range table.numBuckets)
      if count ≠ some table.numItems then some false
      else
        let count ← hashCheckLinks memory UTHashHandle.next UTHashHandle.prev fuel none (some head)
        some (count = some table.numItems)

end Kieker
