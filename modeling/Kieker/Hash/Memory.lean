import Kieker.Library.Links
import Kieker.Model.UtHash

/-!
# The memory of the hash table

The handles of a memory are two heaps of links, one for the order of the elements
and one for the buckets, and beside the links a handle says what its element is.
Each assignment of the macros changes one of the three.
-/

namespace Kieker

/-- What a handle says about its element, apart from the links. -/
structure HandleIdentity where
  tbl : Option ℕ
  key : List UInt8
  keylen : ℕ
  hashv : BitVec 32

/-- The part of a handle that is not links. -/
def UTHashHandle.identity (handle : UTHashHandle) : HandleIdentity :=
  ⟨handle.tbl, handle.key, handle.keylen, handle.hashv⟩

namespace HashMemory

/-- The pointers between elements in the order of their addition. -/
def orderLinks (memory : HashMemory) : Links ℕ where
  next address := (memory.handle address).bind UTHashHandle.next
  prev address := (memory.handle address).bind UTHashHandle.prev

/-- The pointers between elements of one bucket. -/
def bucketLinks (memory : HashMemory) : Links ℕ where
  next address := (memory.handle address).bind UTHashHandle.hhNext
  prev address := (memory.handle address).bind UTHashHandle.hhPrev

/-- What the handle at an address says about its element. -/
def identity (memory : HashMemory) (address : ℕ) : Option HandleIdentity :=
  (memory.handle address).map UTHashHandle.identity

/-- There is a handle at an address. -/
def Present (memory : HashMemory) (address : ℕ) : Prop :=
  (memory.handle address).isSome

/-- The memory after an assignment to a handle that is there. -/
def assign (memory : HashMemory) (address : ℕ) (change : UTHashHandle → UTHashHandle) :
    HashMemory :=
  { memory with
    handle := Function.update memory.handle address ((memory.handle address).map change) }

/-- The memory after an assignment to the handle at a pointer, if it is not null. -/
def assignAt (memory : HashMemory) (pointer : Option ℕ)
    (change : UTHashHandle → UTHashHandle) : HashMemory :=
  match pointer with
  | none => memory
  | some address => memory.assign address change

variable {memory : HashMemory} {address asked : ℕ} {pointer target back : Option ℕ}
  {change : UTHashHandle → UTHashHandle}

theorem setHandle_of_present (present : memory.Present address)
    (change : UTHashHandle → UTHashHandle) :
    memory.setHandle address change = some (memory.assign address change) := by
  rcases Option.isSome_iff_exists.mp present with ⟨handle, found⟩
  simp [setHandle, assign, found]

theorem setHandleAt_of_present (present : ∀ address, pointer = some address →
    memory.Present address) (change : UTHashHandle → UTHashHandle) :
    memory.setHandleAt pointer change = some (memory.assignAt pointer change) := by
  cases pointer with
  | none => rfl
  | some address => exact setHandle_of_present (present address rfl) change

theorem handle_assign_self :
    (memory.assign address change).handle address = (memory.handle address).map change :=
  Function.update_self ..

theorem handle_assign_of_ne (different : asked ≠ address) :
    (memory.assign address change).handle asked = memory.handle asked :=
  Function.update_of_ne different ..

@[simp]
theorem present_assign : (memory.assign address change).Present asked ↔ memory.Present asked := by
  by_cases same : asked = address
  · subst same
    simp [Present, handle_assign_self]
  · simp [Present, handle_assign_of_ne same]

@[simp]
theorem present_assignAt :
    (memory.assignAt pointer change).Present asked ↔ memory.Present asked := by
  cases pointer with
  | none => rfl
  | some address => exact present_assign

theorem setHandleAt_assign (present : ∀ target, pointer = some target → memory.Present target)
    (address : ℕ) (change other : UTHashHandle → UTHashHandle) :
    (memory.assign address change).setHandleAt pointer other =
      some ((memory.assign address change).assignAt pointer other) :=
  setHandleAt_of_present (fun target isTarget => present_assign.mpr (present target isTarget)) other

theorem setHandleAt_assignAt (present : ∀ target, pointer = some target → memory.Present target)
    (start : Option ℕ) (change other : UTHashHandle → UTHashHandle) :
    (memory.assignAt start change).setHandleAt pointer other =
      some ((memory.assignAt start change).assignAt pointer other) :=
  setHandleAt_of_present (fun target isTarget => present_assignAt.mpr (present target isTarget)) other

theorem setTable_assignAt (tbl : ℕ) (table : UTHashTable) :
    (memory.setTable tbl table).assignAt pointer change =
      (memory.assignAt pointer change).setTable tbl table := by
  cases pointer <;> rfl

@[simp]
theorem table_assign : (memory.assign address change).table = memory.table := rfl

@[simp]
theorem tables_assign : (memory.assign address change).tables = memory.tables := rfl

@[simp]
theorem table_assignAt : (memory.assignAt pointer change).table = memory.table := by
  cases pointer <;> rfl

@[simp]
theorem tables_assignAt : (memory.assignAt pointer change).tables = memory.tables := by
  cases pointer <;> rfl

/-! ### What an assignment keeps -/

/-- A member of the handles is the same after an assignment that does not change it. -/
theorem map_assign_of_kept {Member : Type} {member : UTHashHandle → Member}
    (kept : ∀ handle, member (change handle) = member handle) :
    ((memory.assign address change).handle asked).map member =
      (memory.handle asked).map member := by
  by_cases same : asked = address
  · subst same
    rw [handle_assign_self, Option.map_map]
    congr 1
    exact funext kept
  · rw [handle_assign_of_ne same]

theorem bind_assign_of_kept {Member : Type} {member : UTHashHandle → Option Member}
    (kept : ∀ handle, member (change handle) = member handle) :
    ((memory.assign address change).handle asked).bind member =
      (memory.handle asked).bind member := by
  by_cases same : asked = address
  · subst same
    rw [handle_assign_self, Option.bind_map]
    congr 1
    exact funext kept
  · rw [handle_assign_of_ne same]

theorem identity_assign_of_kept
    (kept : ∀ handle, (change handle).identity = handle.identity) :
    (memory.assign address change).identity = memory.identity :=
  funext fun _ => map_assign_of_kept kept

theorem orderLinks_assign_of_kept (next : ∀ handle, (change handle).next = handle.next)
    (prev : ∀ handle, (change handle).prev = handle.prev) :
    (memory.assign address change).orderLinks = memory.orderLinks :=
  congrArg₂ Links.mk (funext fun _ => bind_assign_of_kept next)
    (funext fun _ => bind_assign_of_kept prev)

theorem bucketLinks_assign_of_kept (next : ∀ handle, (change handle).hhNext = handle.hhNext)
    (prev : ∀ handle, (change handle).hhPrev = handle.hhPrev) :
    (memory.assign address change).bucketLinks = memory.bucketLinks :=
  congrArg₂ Links.mk (funext fun _ => bind_assign_of_kept next)
    (funext fun _ => bind_assign_of_kept prev)

theorem identity_assignAt_of_kept
    (kept : ∀ handle, (change handle).identity = handle.identity) :
    (memory.assignAt pointer change).identity = memory.identity := by
  cases pointer with
  | none => rfl
  | some address => exact identity_assign_of_kept kept

theorem orderLinks_assignAt_of_kept (next : ∀ handle, (change handle).next = handle.next)
    (prev : ∀ handle, (change handle).prev = handle.prev) :
    (memory.assignAt pointer change).orderLinks = memory.orderLinks := by
  cases pointer with
  | none => rfl
  | some address => exact orderLinks_assign_of_kept next prev

theorem bucketLinks_assignAt_of_kept (next : ∀ handle, (change handle).hhNext = handle.hhNext)
    (prev : ∀ handle, (change handle).hhPrev = handle.hhPrev) :
    (memory.assignAt pointer change).bucketLinks = memory.bucketLinks := by
  cases pointer with
  | none => rfl
  | some address => exact bucketLinks_assign_of_kept next prev

theorem identity_assign_of_ne (different : asked ≠ address) :
    (memory.assign address change).identity asked = memory.identity asked := by
  rw [identity, handle_assign_of_ne different, identity]

/-! ### What an assignment changes -/

theorem identity_assign_self : (memory.assign address change).identity address =
    (memory.handle address).map fun handle => (change handle).identity := by
  rw [identity, handle_assign_self, Option.map_map]
  rfl

/-- A member of a handle after an assignment to it. -/
theorem bind_assign {Member : Type} {member : UTHashHandle → Option Member}
    {value : Option Member} (present : memory.Present address)
    (assigned : ∀ handle, member (change handle) = value) :
    (fun asked => ((memory.assign address change).handle asked).bind member) =
      Function.update (fun asked => (memory.handle asked).bind member) address value := by
  rcases Option.isSome_iff_exists.mp present with ⟨handle, found⟩
  funext asked
  by_cases same : asked = address
  · subst same
    simp [handle_assign_self, found, assigned]
  · simp [handle_assign_of_ne same, Function.update_of_ne same]

theorem orderLinks_assign_next (present : memory.Present address) :
    (memory.assign address fun handle => { handle with next := target }).orderLinks =
      memory.orderLinks.setNext address target :=
  congrArg₂ Links.mk (bind_assign present fun _ => rfl)
    (funext fun _ => bind_assign_of_kept fun _ => rfl)

theorem orderLinks_assign_prev (present : memory.Present address) :
    (memory.assign address fun handle => { handle with prev := target }).orderLinks =
      memory.orderLinks.setPrev address target :=
  congrArg₂ Links.mk (funext fun _ => bind_assign_of_kept fun _ => rfl)
    (bind_assign present fun _ => rfl)

theorem bucketLinks_assign_next (present : memory.Present address) :
    (memory.assign address fun handle => { handle with hhNext := target }).bucketLinks =
      memory.bucketLinks.setNext address target :=
  congrArg₂ Links.mk (bind_assign present fun _ => rfl)
    (funext fun _ => bind_assign_of_kept fun _ => rfl)

theorem bucketLinks_assign_prev (present : memory.Present address) :
    (memory.assign address fun handle => { handle with hhPrev := target }).bucketLinks =
      memory.bucketLinks.setPrev address target :=
  congrArg₂ Links.mk (funext fun _ => bind_assign_of_kept fun _ => rfl)
    (bind_assign present fun _ => rfl)

theorem bucketLinks_assign_both (present : memory.Present address) :
    (memory.assign address fun handle =>
      { handle with hhNext := target, hhPrev := back }).bucketLinks =
      (memory.bucketLinks.setNext address target).setPrev address back :=
  congrArg₂ Links.mk (bind_assign present fun _ => rfl) (bind_assign present fun _ => rfl)

theorem orderLinks_assignAt_next (present : ∀ address, pointer = some address →
    memory.Present address) :
    (memory.assignAt pointer fun handle => { handle with next := target }).orderLinks =
      memory.orderLinks.setNextAt pointer target := by
  cases pointer with
  | none => rfl
  | some address => exact orderLinks_assign_next (present address rfl)

theorem orderLinks_assignAt_prev (present : ∀ address, pointer = some address →
    memory.Present address) :
    (memory.assignAt pointer fun handle => { handle with prev := target }).orderLinks =
      memory.orderLinks.setPrevAt pointer target := by
  cases pointer with
  | none => rfl
  | some address => exact orderLinks_assign_prev (present address rfl)

theorem bucketLinks_assignAt_next (present : ∀ address, pointer = some address →
    memory.Present address) :
    (memory.assignAt pointer fun handle => { handle with hhNext := target }).bucketLinks =
      memory.bucketLinks.setNextAt pointer target := by
  cases pointer with
  | none => rfl
  | some address => exact bucketLinks_assign_next (present address rfl)

theorem bucketLinks_assignAt_prev (present : ∀ address, pointer = some address →
    memory.Present address) :
    (memory.assignAt pointer fun handle => { handle with hhPrev := target }).bucketLinks =
      memory.bucketLinks.setPrevAt pointer target := by
  cases pointer with
  | none => rfl
  | some address => exact bucketLinks_assign_prev (present address rfl)

end HashMemory

end Kieker
