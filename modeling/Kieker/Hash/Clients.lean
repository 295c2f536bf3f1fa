import Kieker.Hash.Adding
import Kieker.Hash.Checking
import Kieker.Hash.Deleting
import Kieker.Library.Replay

/-!
# Clients of the hash table

A client allocates elements, adds them under keys, deletes them and frees them. As
long as it adds what is allocated and not in the table, deletes what is in the
table and frees what is not, every call is defined, whatever the hash function is,
and the table is what the client takes it for. With not too many elements and
buckets at any time, no counter of the table needs more than 32 bits.
-/

namespace Kieker

/-- What a client of the macros does. -/
inductive HashCall
  /-- `malloc` of an element, whose handle has some contents. -/
  | malloc (address : ℕ) (handle : UTHashHandle)
  /-- `HASH_ADD_KEYPTR`. -/
  | add (key : List UInt8) (address : ℕ)
  /-- `HASH_DEL`. -/
  | delete (address : ℕ)
  /-- `free` of an element. -/
  | free (address : ℕ)

/-- What a call does to the head and the memory. -/
def HashCall.run (hashFcn : List UInt8 → BitVec 32) (fuel : ℕ) :
    Option ℕ × HashMemory → HashCall → Option (Option ℕ × HashMemory)
  | (head, memory), .malloc address handle => some (head, memory.malloc address handle)
  | (head, memory), .add key address => do
      let (first, memory) ← hashAddKeyptr hashFcn fuel memory head key address
      some (some first, memory)
  | (head, memory), .delete address => hashDelete memory head address
  | (head, memory), .free address => some (head, memory.free address)

/-- What a client keeps in mind: its elements, and those in the table, oldest first. -/
structure HashClient where
  objects : List ℕ
  entries : List HashEntry

namespace HashClient

/-- A client without elements. -/
def initial : HashClient where
  objects := []
  entries := []

/-- What a call changes for the client. -/
def next (client : HashClient) : HashCall → HashClient
  | .malloc address _ => { client with objects := address :: client.objects }
  | .add key address => { client with entries := client.entries ++ [⟨address, key⟩] }
  | .delete address =>
      { client with entries := client.entries.filter fun entry => entry.address ≠ address }
  | .free address => { client with objects := client.objects.filter fun object => object ≠ address }

/-- The calls that the macros are made for; the length of a key is an `unsigned`. -/
def Allows (client : HashClient) : HashCall → Prop
  | .malloc address _ => address ∉ client.objects
  | .add key address =>
      address ∈ client.objects ∧ address ∉ addresses client.entries ∧ key.length < 2 ^ 32
  | .delete address => address ∈ addresses client.entries
  | .free address => address ∈ client.objects ∧ address ∉ addresses client.entries

end HashClient

namespace HashMemory

/-- With so many elements at most, no counter of a table but that of its buckets wraps around. -/
def maxItems : ℕ := 2 ^ 28

/-- So many buckets can be counted, but they cannot be doubled. -/
def maxBuckets : ℕ := 2 ^ 31

/-- At all times during some calls the table is of a moderate size. -/
structure Moderate (hashFcn : List UInt8 → BitVec 32) (fuel : ℕ) (calls : List HashCall) :
    Prop where
  items : ∀ front, front <+: calls →
    (front.foldl HashClient.next .initial).entries.length ≤ maxItems
  buckets : ∀ front, front <+: calls → ∀ head memory,
    front.foldlM (HashCall.run hashFcn fuel) (none, empty) = some (head, memory) →
      ∀ tbl table, memory.table tbl = some table → table.numBuckets ≤ maxBuckets

/-- At all times during some calls the counters of the table have 32 bits. -/
def CountersFit (hashFcn : List UInt8 → BitVec 32) (fuel : ℕ) (calls : List HashCall) : Prop :=
  ∀ front, front <+: calls → ∃ head memory,
    front.foldlM (HashCall.run hashFcn fuel) (none, empty) = some (head, memory) ∧
      ∀ tbl table, memory.table tbl = some table → table.FitsUnsigned

/-- A head and a memory serve a client. -/
structure Serves (hashFcn : List UInt8 → BitVec 32) (memory : HashMemory)
    (head : Option ℕ) (client : HashClient) (chained : HashTable) : Prop where
  represents : memory.Represents hashFcn head chained
  order : chained.order = client.entries
  objects : ∀ address, memory.Present address ↔ address ∈ client.objects
  loaded : chained.Loaded hashBktCapacityThresh
  within : chained.Within maxItems

variable {hashFcn : List UInt8 → BitVec 32} {memory : HashMemory} {head : Option ℕ}
  {client : HashClient} {chained : HashTable} {fuel : ℕ} {calls : List HashCall} {address : ℕ}

theorem serves_empty : empty.Serves hashFcn none .initial (Chained.initial hashInitialNumBucketsLog2)
    where
  represents := .empty fun _ => rfl
  order := rfl
  objects := fun _ => by simp [Present, empty, HashClient.initial]
  loaded := fun _ => Chained.bounded_initial
  within := .initial _ _

theorem handle_malloc_of_ne {other : ℕ} {handle : UTHashHandle} (different : other ≠ address) :
    (memory.malloc address handle).handle other = memory.handle other :=
  Function.update_of_ne different ..

theorem handle_free_of_ne {other : ℕ} (different : other ≠ address) :
    (memory.free address).handle other = memory.handle other :=
  Function.update_of_ne different ..

theorem present_malloc {other : ℕ} {handle : UTHashHandle} :
    (memory.malloc address handle).Present other ↔ other = address ∨ memory.Present other := by
  by_cases same : other = address
  · subst same
    simp [Present, malloc]
  · simp [Present, handle_malloc_of_ne same, same]

theorem present_free {other : ℕ} :
    (memory.free address).Present other ↔ memory.Present other ∧ other ≠ address := by
  by_cases same : other = address
  · subst same
    simp [Present, free]
  · simp [Present, handle_free_of_ne same, same]

/-- Allocating an element leaves the table as it is. -/
theorem Represents.malloc (represents : memory.Represents hashFcn head chained)
    (fresh : address ∉ addresses chained.order) (handle : UTHashHandle) :
    (memory.malloc address handle).Represents hashFcn head chained :=
  represents.frame (fun _ isOld => handle_malloc_of_ne fun same => fresh (same ▸ isOld)) rfl

/-- Freeing what is not in the table leaves the table as it is. -/
theorem Represents.free (represents : memory.Represents hashFcn head chained)
    (notIn : address ∉ addresses chained.order) :
    (memory.free address).Represents hashFcn head chained :=
  represents.frame (fun _ isOld => handle_free_of_ne fun same => notIn (same ▸ isOld)) rfl

theorem order_delete {entry : HashEntry} (apart : (addresses chained.order).Nodup)
    (inOrder : entry ∈ chained.order) : (chained.delete hashFcn entry).order =
      chained.order.filter fun other => other.address ≠ entry.address := by
  have erased : (chained.delete hashFcn entry).order = chained.order.erase entry := by
    rw [HashTable.delete, Chained.remove]
    split
    · rename_i single
      simp [single, Chained.initial]
    · rfl
  rw [erased, List.Nodup.erase_eq_filter apart.of_map]
  refine List.filter_congr fun other isOther => ?_
  by_cases same : other.address = entry.address
  · simp [eq_of_address apart isOther inOrder same]
  · have different : other ≠ entry := fun isEntry => same (congrArg HashEntry.address isEntry)
    simp [same, different]

/-- A call adds one element at most. -/
theorem length_entries_next (client : HashClient) (call : HashCall) :
    (client.next call).entries.length ≤ client.entries.length + 1 := by
  cases call with
  | malloc address handle => exact Nat.le_succ _
  | add key address => simp [HashClient.next]
  | delete address => exact (List.length_filter_le _ _).trans (Nat.le_succ _)
  | free address => exact Nat.le_succ _

theorem length_entries_foldl (client : HashClient) (calls : List HashCall) :
    (calls.foldl HashClient.next client).entries.length ≤ client.entries.length + calls.length := by
  induction calls generalizing client with
  | nil => exact le_refl _
  | cons call calls ih =>
      have first := length_entries_next client call
      have rest := ih (client.next call)
      rw [List.foldl_cons, List.length_cons]
      omega

namespace Serves

/-- An allowed call is defined, and the table serves the client afterwards. -/
theorem step (serves : memory.Serves hashFcn head client chained) {call : HashCall}
    (allowed : client.Allows call) (enough : client.entries.length + 1 ≤ fuel)
    (few : (client.next call).entries.length ≤ maxItems) :
    ∃ laterHead later laterChained,
      call.run hashFcn fuel (head, memory) = some (laterHead, later) ∧
      later.Serves hashFcn laterHead (client.next call) laterChained ∧
      laterChained.bits ≤ max hashInitialNumBucketsLog2 chained.bits + 1 := by
  have orderEq := serves.order
  cases call with
  | malloc address handle =>
      have fresh : address ∉ addresses chained.order := fun isOld =>
        allowed ((serves.objects address).mp (serves.represents.present isOld))
      refine ⟨head, _, chained, rfl, ⟨serves.represents.malloc fresh handle, orderEq, ?_,
        serves.loaded, serves.within⟩, by omega⟩
      intro other
      rw [present_malloc, serves.objects]
      exact List.mem_cons.symm
  | add key address =>
      rcases allowed with ⟨isObject, fresh, -⟩
      rw [HashClient.next, List.length_append, List.length_singleton, ← orderEq] at few
      rw [← orderEq] at fresh enough
      have present : memory.Present (HashEntry.mk address key).address :=
        (serves.objects address).mpr isObject
      rcases serves.represents.add fresh present enough with
        ⟨first, later, added, represents, present⟩
      have notOld : HashEntry.mk address key ∉ chained.order :=
        fun isOld => fresh (List.mem_map_of_mem isOld)
      have doubled : (chained.insert hashFcn ⟨address, key⟩).bits ≤ chained.bits + 1 :=
        Chained.bits_add_le _ _
      refine ⟨some first, later, _, by simp only [HashCall.run, added]; rfl,
        ⟨represents, ?_, ?_, ?_, ?_⟩, by omega⟩
      · rw [order_insert, orderEq]
        rfl
      · exact fun other => (present other).trans (serves.objects other)
      · exact serves.loaded.add serves.represents.wellFormed (by decide) notOld
      · exact serves.within.add serves.represents.wellFormed notOld few
  | delete address =>
      have isEntry : address ∈ addresses chained.order := orderEq ▸ allowed
      rcases List.mem_map.mp isEntry with ⟨entry, inOrder, rfl⟩
      rcases serves.represents.delete inOrder with ⟨rest, later, deleted, represents, present⟩
      have shrunk : (chained.delete hashFcn entry).bits ≤
          max hashInitialNumBucketsLog2 chained.bits := Chained.bits_remove_le _ _
      refine ⟨rest, later, _, deleted, ⟨represents, ?_, ?_, ?_, ?_⟩, by omega⟩
      · rw [order_delete serves.represents.apart inOrder, orderEq]
        rfl
      · exact fun other => (present other).trans (serves.objects other)
      · exact serves.loaded.remove _ _
      · exact serves.within.remove _ _
  | free address =>
      have notIn : address ∉ addresses chained.order := orderEq ▸ allowed.2
      refine ⟨head, _, chained, rfl, ⟨serves.represents.free notIn, orderEq, ?_,
        serves.loaded, serves.within⟩, by omega⟩
      intro other
      rw [present_free, serves.objects]
      simp [HashClient.next]

/-- A run of allowed calls is defined, and the table serves the client all the time. -/
theorem run (serves : memory.Serves hashFcn head client chained)
    (guarded : Replay.Guarded HashClient.next HashClient.Allows client calls)
    (enough : client.entries.length + calls.length ≤ fuel)
    (few : ∀ front, front <+: calls →
      (front.foldl HashClient.next client).entries.length ≤ maxItems) :
    ∃ laterHead later laterChained,
      calls.foldlM (HashCall.run hashFcn fuel) (head, memory) = some (laterHead, later) ∧
      later.Serves hashFcn laterHead (calls.foldl HashClient.next client) laterChained ∧
      laterChained.bits ≤ max hashInitialNumBucketsLog2 chained.bits + calls.length := by
  induction calls generalizing memory head client chained with
  | nil => exact ⟨head, memory, chained, rfl, serves, le_max_right _ _⟩
  | cons call calls ih =>
      rw [List.length_cons] at enough
      rcases serves.step guarded.1 (by omega : client.entries.length + 1 ≤ fuel)
        (few [call] (List.cons_prefix_cons.mpr ⟨rfl, List.nil_prefix⟩)) with
        ⟨middleHead, middle, middleChained, called, middleServes, middleBits⟩
      have bound := length_entries_next client call
      rcases ih middleServes guarded.2 (by omega) (fun front isFront =>
        few (call :: front) (List.cons_prefix_cons.mpr ⟨rfl, isFront⟩)) with
        ⟨laterHead, later, laterChained, rested, laterServes, laterBits⟩
      refine ⟨laterHead, later, laterChained, ?_, laterServes, ?_⟩
      · rw [List.foldlM_cons, called]
        exact rested
      · rw [List.length_cons]
        omega

/-- The table of a client with few elements needs no counters of more than 32 bits. -/
theorem fitsUnsigned (serves : memory.Serves hashFcn head client chained)
    (few : client.entries.length ≤ maxItems) {tbl : ℕ} {table : UTHashTable}
    (isTable : memory.table tbl = some table) (moderate : table.numBuckets ≤ maxBuckets) :
    table.FitsUnsigned := by
  have within := serves.within
  have orderEq := serves.order
  have describes := serves.represents.describes isTable
  have counts := describes.counts
  have bits : chained.bits ≤ 31 := by
    rw [counts.numBuckets] at moderate
    exact (Nat.pow_le_pow_iff_right (by decide)).mp moderate
  have atBucket := counts.fills.bucket
  rw [← counts.numBuckets] at atBucket
  unfold maxItems at few within
  unfold maxBuckets at moderate
  refine ⟨by omega, ?_, ?_, ?_, ?_, ?_, ?_, ?_⟩
  · rw [counts.log2NumBuckets]
    omega
  · rw [describes.numItems, orderEq]
    omega
  · rw [counts.idealChainMaxlen]
    exact within.ideal.trans_lt (by decide)
  · rw [counts.nonidealItems]
    exact within.nonideal.trans_lt (by decide)
  · rw [counts.ineffExpands]
    exact within.ineffective.trans_lt (by decide)
  · intro index below
    have short := describes.length_chain_le (counts.numBuckets ▸ below)
    rw [atBucket index below]
    rw [orderEq] at short
    exact (short.trans few).trans_lt (by decide)
  · intro index below
    rw [atBucket index below]
    have low := within.mult index
    simp only [hashBktCapacityThresh]
    omega

end Serves

/-! ### Runs of a moderate size -/

theorem guarded_front {front : List HashCall}
    (guarded : Replay.Guarded HashClient.next HashClient.Allows .initial calls)
    (isFront : front <+: calls) :
    Replay.Guarded HashClient.next HashClient.Allows .initial front := by
  rcases isFront with ⟨back, rfl⟩
  exact ((Replay.Guarded.append_iff front back).mp guarded).1

/-- The table after any allowed calls on an empty memory. -/
theorem serves_of_guarded (hashFcn : List UInt8 → BitVec 32)
    (guarded : Replay.Guarded HashClient.next HashClient.Allows .initial calls)
    (enough : calls.length ≤ fuel)
    (few : ∀ front, front <+: calls →
      (front.foldl HashClient.next .initial).entries.length ≤ maxItems) :
    ∃ head memory chained,
      calls.foldlM (HashCall.run hashFcn fuel) (none, empty) = some (head, memory) ∧
      memory.Serves hashFcn head (calls.foldl HashClient.next .initial) chained ∧
      chained.bits ≤ hashInitialNumBucketsLog2 + calls.length ∧
      chained.order.length ≤ fuel := by
  have start : empty.Serves hashFcn none .initial (Chained.initial hashInitialNumBucketsLog2) :=
    serves_empty
  rcases start.run guarded (by simpa [HashClient.initial] using enough) few with
    ⟨head, memory, chained, done, serves, bits⟩
  refine ⟨head, memory, chained, done, serves, by simpa [Chained.initial] using bits, ?_⟩
  have bound := length_entries_foldl .initial calls
  rw [serves.order]
  exact bound.trans (by simpa [HashClient.initial] using enough)

/-- Allowed calls that keep the table at a moderate size keep its counters within 32 bits. -/
theorem Moderate.countersFit (moderate : Moderate hashFcn fuel calls)
    (guarded : Replay.Guarded HashClient.next HashClient.Allows .initial calls)
    (enough : calls.length ≤ fuel) : CountersFit hashFcn fuel calls := by
  intro front isFront
  have items := moderate.items
  rcases serves_of_guarded hashFcn (guarded_front guarded isFront)
    (isFront.length_le.trans enough) (fun earlier isEarlier =>
      items earlier (isEarlier.trans isFront)) with ⟨head, memory, chained, done, serves, -, -⟩
  exact ⟨head, memory, done, fun tbl table isTable => serves.fitsUnsigned (items front isFront)
    isTable (moderate.buckets front isFront head memory done tbl table isTable)⟩

/-- Few calls cannot make a table large, since each of them doubles the buckets once at most. -/
theorem moderate_of_length_le (hashFcn : List UInt8 → BitVec 32)
    (guarded : Replay.Guarded HashClient.next HashClient.Allows .initial calls)
    (enough : calls.length ≤ fuel) (brief : calls.length ≤ 26) :
    Moderate hashFcn fuel calls := by
  have items : ∀ front, front <+: calls →
      (front.foldl HashClient.next .initial).entries.length ≤ maxItems := by
    intro front isFront
    have bound := length_entries_foldl .initial front
    have short := isFront.length_le
    have nothing : HashClient.initial.entries.length = 0 := rfl
    unfold maxItems
    omega
  refine ⟨items, fun front isFront head memory done tbl table isTable => ?_⟩
  rcases serves_of_guarded hashFcn (guarded_front guarded isFront)
    (isFront.length_le.trans enough) (fun earlier isEarlier =>
      items earlier (isEarlier.trans isFront)) with
    ⟨sameHead, sameMemory, chained, sameDone, serves, bits, -⟩
  rw [done] at sameDone
  cases sameDone
  have short := isFront.length_le
  rw [(serves.represents.describes isTable).counts.numBuckets]
  exact Nat.pow_le_pow_right (by decide) (by unfold hashInitialNumBucketsLog2 at bits; omega)

/-! ### What a client can rely on -/

/-- These bytes, followed by three zeros, get into one bucket out of 32. -/
def collidingBytes : List UInt8 := [6, 10, 15, 18, 41, 59, 77, 79, 81, 143]

/--
Ten elements of one bucket are added, the last of which makes the buckets expand, and
one of them is taken out again.
-/
def someCalls : List HashCall :=
  let handle : UTHashHandle := ⟨none, none, none, none, none, [], 0, 0⟩
  collidingBytes.map (fun byte => .malloc byte.toNat handle) ++
    collidingBytes.map (fun byte => .add [byte, 0, 0, 0] byte.toNat) ++ [.delete 15, .free 15]

/-- The elements that are left. -/
def someEntries : List HashEntry :=
  (collidingBytes.erase 15).map fun byte => ⟨byte.toNat, [byte, 0, 0, 0]⟩

theorem guarded_someCalls :
    Replay.Guarded HashClient.next HashClient.Allows .initial someCalls := by
  simp [someCalls, collidingBytes, Replay.Guarded, HashClient.Allows, HashClient.next,
    HashClient.initial]

theorem moderate_someCalls : Moderate hashJen 22 someCalls :=
  moderate_of_length_le hashJen guarded_someCalls (by decide) (by decide)

/-- The buckets were expanded. -/
example : (someCalls.foldlM (HashCall.run hashJen 22) (none, empty)).bind
    (fun reached => (reached.2.table 0).map UTHashTable.numBuckets) = some 64 := by
  decide +kernel

/--
`HASH_FIND` finds an element with the key exactly if there is one in the table,
after any allowed calls that keep the table at a moderate size, and whatever the
hash function is: no expansion of the buckets loses an element.
-/
theorem hashFind_after_run (hashFcn : List UInt8 → BitVec 32) (calls : List HashCall) (fuel : ℕ)
    (guarded : Replay.Guarded HashClient.next HashClient.Allows .initial calls)
    (enough : calls.length ≤ fuel) (moderate : Moderate hashFcn fuel calls) :
    CountersFit hashFcn fuel calls ∧
    ∃ head memory,
      calls.foldlM (HashCall.run hashFcn fuel) (none, empty) = some (head, memory) ∧
      ∀ key, ∃ out, hashFind hashFcn fuel memory head key = some out ∧
        (∀ address, out = some address →
          ⟨address, key⟩ ∈ (calls.foldl HashClient.next .initial).entries) ∧
        (out = none →
          ∀ entry ∈ (calls.foldl HashClient.next .initial).entries, entry.key ≠ key) := by
  rcases serves_of_guarded hashFcn guarded enough moderate.items with
    ⟨head, memory, chained, done, serves, -, short⟩
  refine ⟨moderate.countersFit guarded enough, head, memory, done,
    fun key => ⟨_, serves.represents.find key short, ?_, ?_⟩⟩
  · intro address isFound
    rcases Option.map_eq_some_iff.mp isFound with ⟨entry, found, rfl⟩
    rcases Chained.mem_of_find serves.represents.wellFormed found with ⟨inOrder, rfl⟩
    exact serves.order ▸ inOrder
  · intro missing
    rw [← serves.order]
    exact (Chained.find_eq_none_iff serves.represents.wellFormed).mp
      (Option.map_eq_none_iff.mp missing)

/-- The elements that are left are found. -/
theorem hashFind_after_someCalls : CountersFit hashJen 22 someCalls ∧ ∃ head memory,
    someCalls.foldlM (HashCall.run hashJen 22) (none, empty) = some (head, memory) ∧
      ∀ key, ∃ out, hashFind hashJen 22 memory head key = some out ∧
        (∀ address, out = some address → (⟨address, key⟩ : HashEntry) ∈ someEntries) ∧
        (out = none → ∀ entry ∈ someEntries, entry.key ≠ key) :=
  hashFind_after_run hashJen someCalls 22 guarded_someCalls (by decide) moderate_someCalls

/-- The integrity check passes after any allowed calls that keep the table at a moderate size. -/
theorem hashFsck_after_run (hashFcn : List UInt8 → BitVec 32) (calls : List HashCall) (fuel : ℕ)
    (guarded : Replay.Guarded HashClient.next HashClient.Allows .initial calls)
    (enough : calls.length ≤ fuel) (moderate : Moderate hashFcn fuel calls) :
    CountersFit hashFcn fuel calls ∧
    ∃ head memory,
      calls.foldlM (HashCall.run hashFcn fuel) (none, empty) = some (head, memory) ∧
      hashFsck fuel memory head = some true := by
  rcases serves_of_guarded hashFcn guarded enough moderate.items with
    ⟨head, memory, chained, done, serves, -, short⟩
  exact ⟨moderate.countersFit guarded enough, head, memory, done, serves.represents.hashFsck short⟩

theorem hashFsck_after_someCalls : CountersFit hashJen 22 someCalls ∧ ∃ head memory,
    someCalls.foldlM (HashCall.run hashJen 22) (none, empty) = some (head, memory) ∧
      hashFsck 22 memory head = some true :=
  hashFsck_after_run hashJen someCalls 22 guarded_someCalls (by decide) moderate_someCalls

/--
The elements in the table are linked in the order in which they were added. Without
elements no table is allocated, and with elements only theirs.
-/
theorem order_after_run (hashFcn : List UInt8 → BitVec 32) (calls : List HashCall) (fuel : ℕ)
    (guarded : Replay.Guarded HashClient.next HashClient.Allows .initial calls)
    (enough : calls.length ≤ fuel) (moderate : Moderate hashFcn fuel calls) :
    CountersFit hashFcn fuel calls ∧
    ∃ head memory,
      calls.foldlM (HashCall.run hashFcn fuel) (none, empty) = some (head, memory) ∧
      head = (addresses (calls.foldl HashClient.next .initial).entries).head? ∧
      memory.orderLinks.IsList (addresses (calls.foldl HashClient.next .initial).entries) ∧
      ∀ tbl, memory.table tbl ≠ none ↔
        ∃ first, head = some first ∧ (memory.tableOf first).map Prod.fst = some tbl := by
  rcases serves_of_guarded hashFcn guarded enough moderate.items with
    ⟨head, memory, chained, done, serves, -, short⟩
  rcases serves.represents.order with ⟨headEq, isList⟩
  rw [serves.order] at headEq isList
  refine ⟨moderate.countersFit guarded enough, head, memory, done, headEq, isList, fun tbl => ?_⟩
  cases serves.represents with
  | empty noTable => simp [noTable]
  | filled nonempty describes only =>
      rcases List.exists_cons_of_ne_nil nonempty with ⟨first, rest, orderEq⟩
      have tableFound := (describes.stored first (by simp [orderEq])).tableOf describes.found
      have isHead : (addresses chained.order).head? = some first.address := by simp [orderEq]
      rw [isHead]
      constructor
      · intro allocated
        refine ⟨first.address, rfl, ?_⟩
        rw [tableFound]
        by_contra different
        exact allocated (only tbl fun same => different (congrArg some same.symm))
      · rintro ⟨other, isFirst, isTable⟩
        cases isFirst
        rw [tableFound] at isTable
        cases isTable
        simp [describes.found]

theorem order_after_someCalls : CountersFit hashJen 22 someCalls ∧ ∃ head memory,
    someCalls.foldlM (HashCall.run hashJen 22) (none, empty) = some (head, memory) ∧
      head = some 6 ∧ memory.orderLinks.IsList [6, 10, 18, 41, 59, 77, 79, 81, 143] ∧
      ∀ tbl, memory.table tbl ≠ none ↔
        ∃ first, head = some first ∧ (memory.tableOf first).map Prod.fst = some tbl :=
  order_after_run hashJen someCalls 22 guarded_someCalls (by decide) moderate_someCalls

/-- Unless expansion has been given up, there are fewer than twenty elements for each bucket. -/
theorem load_after_run (hashFcn : List UInt8 → BitVec 32) (calls : List HashCall) (fuel : ℕ)
    (guarded : Replay.Guarded HashClient.next HashClient.Allows .initial calls)
    (enough : calls.length ≤ fuel) (moderate : Moderate hashFcn fuel calls) :
    CountersFit hashFcn fuel calls ∧
    ∃ head memory,
      calls.foldlM (HashCall.run hashFcn fuel) (none, empty) = some (head, memory) ∧
      ∀ first tbl table, head = some first → memory.tableOf first = some (tbl, table) →
        table.noexpand ≠ 1 → table.numItems < 20 * table.numBuckets := by
  rcases serves_of_guarded hashFcn guarded enough moderate.items with
    ⟨head, memory, chained, done, serves, -, short⟩
  refine ⟨moderate.countersFit guarded enough, head, memory, done, ?_⟩
  intro first tbl table isHead tableFound expands
  have describes := serves.represents.describes (table_of_tableOf tableFound)
  have notFixed : chained.fixed = false := by
    rw [describes.counts.noexpand] at expands
    cases isFixed : chained.fixed with
    | false => rfl
    | true => simp [isFixed] at expands
  rw [describes.numItems, describes.counts.numBuckets]
  exact (serves.loaded notFixed).length_order describes.wellFormed (by decide)

theorem load_after_someCalls : CountersFit hashJen 22 someCalls ∧ ∃ head memory,
    someCalls.foldlM (HashCall.run hashJen 22) (none, empty) = some (head, memory) ∧
      ∀ first tbl table, head = some first → memory.tableOf first = some (tbl, table) →
        table.noexpand ≠ 1 → table.numItems < 20 * table.numBuckets :=
  load_after_run hashJen someCalls 22 guarded_someCalls (by decide) moderate_someCalls

end HashMemory

end Kieker
