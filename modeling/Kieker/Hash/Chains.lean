import Kieker.Hash.Memory
import Kieker.Library.Chaining

/-!
# Buckets and their chains

An array of buckets stores chains of entries: each bucket points to the first
element of its chain, which the elements continue in both directions, and counts
them. Searching a bucket, adding to it and taking from it do to the chain what
they should, and the expansion of the buckets places every element once.
-/

namespace Kieker

/-- An element in the table: where it is, and its key. -/
structure HashEntry where
  address : ℕ
  key : List UInt8
  deriving DecidableEq

/-- Where the elements of a list are. -/
def addresses (entries : List HashEntry) : List ℕ :=
  entries.map HashEntry.address

@[simp]
theorem addresses_nil : addresses [] = [] := rfl

@[simp]
theorem addresses_cons (entry : HashEntry) (entries : List HashEntry) :
    addresses (entry :: entries) = entry.address :: addresses entries := rfl

@[simp]
theorem addresses_append (front back : List HashEntry) :
    addresses (front ++ back) = addresses front ++ addresses back :=
  List.map_append

theorem eq_of_address {entries : List HashEntry} {entry other : HashEntry}
    (apart : (addresses entries).Nodup) (entry_mem : entry ∈ entries) (other_mem : other ∈ entries)
    (same : entry.address = other.address) : entry = other :=
  List.inj_on_of_nodup_map apart entry_mem other_mem same

/-- Taking out an element takes out its address. -/
theorem addresses_erase {entries : List HashEntry} {entry : HashEntry}
    (apart : (addresses entries).Nodup) (entry_mem : entry ∈ entries) :
    addresses (entries.erase entry) = (addresses entries).erase entry.address := by
  rcases List.append_of_mem entry_mem with ⟨front, back, rfl⟩
  rw [addresses_append, addresses_cons] at apart
  have notFront : entry.address ∉ addresses front := fun inFront =>
    (List.nodup_append.mp apart).2.2 _ inFront _ List.mem_cons_self rfl
  rw [List.erase_append_right _ fun inFront => notFront (List.mem_map_of_mem inFront),
    List.erase_cons_head, addresses_append, addresses_append, addresses_cons,
    List.erase_append_right _ notFront, List.erase_cons_head]

/-- The hash value of a key as a number. -/
def hashNumber (hashFcn : List UInt8 → BitVec 32) (key : List UInt8) : ℕ :=
  (hashFcn key).toNat

theorem hashToBkt_two_pow (hashFcn : List UInt8 → BitVec 32) (key : List UInt8) (bits : ℕ) :
    hashToBkt (hashFcn key) (2 ^ bits) = Chained.slot (hashNumber hashFcn) bits key :=
  Nat.and_two_pow_sub_one_eq_mod _ _

namespace HashMemory

/-- The handle of an entry says that it is in a table, and what its key and hash are. -/
def Stores (hashFcn : List UInt8 → BitVec 32) (memory : HashMemory) (tbl : ℕ)
    (entry : HashEntry) : Prop :=
  memory.identity entry.address =
    some ⟨some tbl, entry.key, entry.key.length, hashFcn entry.key⟩

/-- An array of buckets stores chains. -/
structure Fills (memory : HashMemory) (buckets : BucketArray) (count : ℕ)
    (chain : ℕ → List HashEntry) (mult : ℕ → ℕ) : Prop where
  size : buckets.size = count
  isList : ∀ index < count, memory.bucketLinks.IsList (addresses (chain index))
  bucket : ∀ index < count, buckets.bucket index =
    ⟨(addresses (chain index)).head?, (chain index).length, mult index⟩

variable {hashFcn : List UInt8 → BitVec 32} {memory before after : HashMemory} {tbl : ℕ}
  {entry other : HashEntry} {entries done rest : List HashEntry} {buckets : BucketArray}
  {count bits : ℕ} {chain : ℕ → List HashEntry} {mult : ℕ → ℕ}

theorem present_of_identity {address : ℕ} {identity : HandleIdentity}
    (known : memory.identity address = some identity) : memory.Present address := by
  rw [HashMemory.identity, Option.map_eq_some_iff] at known
  rcases known with ⟨handle, found, -⟩
  exact Option.isSome_iff_exists.mpr ⟨handle, found⟩

theorem Stores.present (stores : memory.Stores hashFcn tbl entry) :
    memory.Present entry.address :=
  present_of_identity stores

theorem Stores.handle (stores : memory.Stores hashFcn tbl entry) :
    ∃ handle, memory.handle entry.address = some handle ∧
      handle.tbl = some tbl ∧ handle.key = entry.key ∧ handle.keylen = entry.key.length ∧
      handle.hashv = hashFcn entry.key ∧
      handle.hhNext = memory.bucketLinks.next entry.address ∧
      handle.hhPrev = memory.bucketLinks.prev entry.address ∧
      handle.next = memory.orderLinks.next entry.address ∧
      handle.prev = memory.orderLinks.prev entry.address := by
  rcases Option.map_eq_some_iff.mp stores with ⟨handle, found, isIdentity⟩
  cases handle with
  | mk handleTbl prev next hhPrev hhNext key keylen hashv =>
      cases isIdentity
      exact ⟨_, found, rfl, rfl, rfl, rfl, by simp [bucketLinks, found],
        by simp [bucketLinks, found], by simp [orderLinks, found], by simp [orderLinks, found]⟩

theorem Fills.read (fills : memory.Fills buckets count chain mult) {index : ℕ}
    (below : index < count) : buckets.read index =
      some ⟨(addresses (chain index)).head?, (chain index).length, mult index⟩ := by
  rw [BucketArray.read, fills.size, if_pos below, fills.bucket index below]

/-! ### Searching -/

theorem hashFindInBkt_eq (asked : List UInt8) {start : Option ℕ} {fuel : ℕ}
    (joins : memory.bucketLinks.Joins start (addresses entries) none)
    (stored : ∀ entry ∈ entries, memory.Stores hashFcn tbl entry) (enough : entries.length ≤ fuel) :
    hashFindInBkt memory asked fuel (addresses entries).head? =
      some ((entries.find? fun entry => entry.key = asked).map HashEntry.address) := by
  induction entries generalizing start fuel with
  | nil => cases fuel <;> rfl
  | cons entry entries ih =>
      cases fuel with
      | zero => simp at enough
      | succ fuel =>
          rcases (stored entry List.mem_cons_self).handle with
            ⟨handle, found, -, keyEq, keylenEq, -, nextEq, -⟩
          rw [addresses_cons, Links.Joins, Option.or_none] at joins
          rcases joins with ⟨-, pointsOn, joins⟩
          rw [pointsOn] at nextEq
          have later := ih joins
            (fun later later_mem => stored later (List.mem_cons_of_mem _ later_mem))
            (Nat.le_of_succ_le_succ enough)
          simp only [addresses_cons, List.head?_cons, hashFindInBkt, found, Option.bind_eq_bind,
            Option.bind_some, keyEq, keylenEq, nextEq, later]
          by_cases same : entry.key = asked
          · simp [same]
          · simp [same]

/-! ### Memories that differ in the links of some buckets -/

/-- Nothing changed but the links between elements of buckets, at some elements. -/
structure Relinks (before after : HashMemory) (cells : List ℕ) : Prop where
  order : after.orderLinks = before.orderLinks
  identity : after.identity = before.identity
  table : after.table = before.table
  tables : after.tables = before.tables
  next : ∀ cell ∉ cells, after.bucketLinks.next cell = before.bucketLinks.next cell
  prev : ∀ cell ∉ cells, after.bucketLinks.prev cell = before.bucketLinks.prev cell

theorem Relinks.refl (memory : HashMemory) (cells : List ℕ) : memory.Relinks memory cells :=
  ⟨rfl, rfl, rfl, rfl, fun _ _ => rfl, fun _ _ => rfl⟩

theorem Relinks.stores {cells : List ℕ} (relinks : before.Relinks after cells)
    (stores : before.Stores hashFcn tbl entry) : after.Stores hashFcn tbl entry := by
  rw [Stores, relinks.identity]
  exact stores

/-! ### Putting an element into a bucket -/

/-- The memory after an element was put in front of the chain that begins at `first`. -/
def pushBucket (memory : HashMemory) (first : Option ℕ) (add : ℕ) : HashMemory :=
  (memory.assign add fun handle => { handle with hhPrev := none, hhNext := first }).assignAt first
    fun handle => { handle with hhPrev := some add }

theorem bucketLinks_pushBucket {first : Option ℕ} {add : ℕ} (present : memory.Present add)
    (firstPresent : ∀ address, first = some address → memory.Present address) :
    (memory.pushBucket first add).bucketLinks = memory.bucketLinks.push first add := by
  rw [pushBucket, bucketLinks_assignAt_prev, bucketLinks_assign_both present]
  · rfl
  · intro address isFirst
    exact present_assign.mpr (firstPresent address isFirst)

theorem identity_pushBucket (first : Option ℕ) (add : ℕ) :
    (memory.pushBucket first add).identity = memory.identity := by
  exact (identity_assignAt_of_kept (by intro _; rfl)).trans
    (identity_assign_of_kept (by intro _; rfl))

theorem orderLinks_pushBucket (first : Option ℕ) (add : ℕ) :
    (memory.pushBucket first add).orderLinks = memory.orderLinks := by
  exact (orderLinks_assignAt_of_kept (by intro _; rfl) (by intro _; rfl)).trans
    (orderLinks_assign_of_kept (by intro _; rfl) (by intro _; rfl))

/-- The chains after an element was put into one of them. -/
theorem Fills.push (fills : memory.Fills buckets count chain mult) {index : ℕ}
    (below : index < count) (apart : (addresses (chain index)).Nodup)
    (others : ∀ other < count, other ≠ index → ∀ cell ∈ addresses (chain other),
      cell ∉ addresses (chain index))
    (fresh : ∀ other < count, entry.address ∉ addresses (chain other))
    (links : after.bucketLinks =
      memory.bucketLinks.push (addresses (chain index)).head? entry.address)
    (raised : ℕ) :
    after.Fills { buckets with
        bucket := Function.update buckets.bucket index
          ⟨some entry.address, (chain index).length + 1, raised⟩ } count
      (Function.update chain index (entry :: chain index)) (Function.update mult index raised) where
  size := fills.size
  isList := by
    intro asked askedBelow
    rw [links]
    by_cases here : asked = index
    · subst here
      rw [Function.update_self]
      exact Links.isList_push (fills.isList asked below) apart (fresh asked below)
    · rw [Function.update_of_ne here]
      exact (fills.isList asked askedBelow).push_other (others asked askedBelow here)
        (fresh asked askedBelow)
  bucket := by
    intro asked askedBelow
    by_cases here : asked = index
    · subst here
      simp
    · simp only [Function.update_of_ne here]
      exact fills.bucket asked askedBelow

/-! ### Taking an element out of a bucket -/

/-- The memory after an element was taken out of its chain. -/
def unlinkBucket (memory : HashMemory) (del : ℕ) : HashMemory :=
  (memory.assignAt (memory.bucketLinks.prev del) fun before =>
      { before with hhNext := memory.bucketLinks.next del }).assignAt
    (memory.bucketLinks.next del) fun after => { after with hhPrev := memory.bucketLinks.prev del }

theorem bucketLinks_unlinkBucket {del : ℕ}
    (prevPresent : ∀ address, memory.bucketLinks.prev del = some address → memory.Present address)
    (nextPresent : ∀ address, memory.bucketLinks.next del = some address →
      memory.Present address) :
    (memory.unlinkBucket del).bucketLinks = memory.bucketLinks.unlink del := by
  rw [unlinkBucket, bucketLinks_assignAt_prev, bucketLinks_assignAt_next prevPresent]
  · rfl
  · intro address isNext
    exact present_assignAt.mpr (nextPresent address isNext)

theorem identity_unlinkBucket (del : ℕ) :
    (memory.unlinkBucket del).identity = memory.identity := by
  exact (identity_assignAt_of_kept (by intro _; rfl)).trans
    (identity_assignAt_of_kept (by intro _; rfl))

theorem orderLinks_unlinkBucket (del : ℕ) :
    (memory.unlinkBucket del).orderLinks = memory.orderLinks := by
  exact (orderLinks_assignAt_of_kept (by intro _; rfl) (by intro _; rfl)).trans
    (orderLinks_assignAt_of_kept (by intro _; rfl) (by intro _; rfl))

/-- The chains after an element was taken out of one of them. -/
theorem Fills.erase (fills : memory.Fills buckets count chain mult) {index : ℕ}
    (below : index < count) (apart : (addresses (chain index)).Nodup)
    (others : ∀ other < count, other ≠ index → ∀ cell ∈ addresses (chain other),
      cell ∉ addresses (chain index))
    (inChain : entry ∈ chain index)
    (links : after.bucketLinks = memory.bucketLinks.unlink entry.address) :
    after.Fills { buckets with
        bucket := Function.update buckets.bucket index
          ⟨(addresses ((chain index).erase entry)).head?, (chain index).length - 1,
            mult index⟩ } count
      (Function.update chain index ((chain index).erase entry)) mult where
  size := fills.size
  isList := by
    intro asked askedBelow
    have cell_mem : entry.address ∈ addresses (chain index) := List.mem_map_of_mem inChain
    rw [links]
    by_cases here : asked = index
    · subst here
      rw [Function.update_self, addresses_erase apart inChain]
      exact Links.isList_unlink (fills.isList asked below) apart cell_mem
    · rw [Function.update_of_ne here]
      exact (fills.isList asked askedBelow).unlink_other (fills.isList index below) cell_mem
        (others asked askedBelow here)
  bucket := by
    intro asked askedBelow
    by_cases here : asked = index
    · subst here
      simp [List.length_erase_of_mem inChain]
    · simp only [Function.update_of_ne here]
      exact fills.bucket asked askedBelow

end HashMemory

end Kieker
