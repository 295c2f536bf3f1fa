import Kieker.Hash.Chains

/-!
# Expanding the buckets

The loops of an expansion walk through the old chains while they put the elements
into new ones. The links of an element are the old ones until it is moved, so the
walk is not disturbed, and the elements moved so far are spread over the new
buckets as if they had been placed one after another.
-/

namespace Kieker

open Chained (slot spreadAll slot_lt chain_spreadAll)

namespace HashMemory

/-- The new slot of an entry. -/
def slotOf (hashFcn : List UInt8 → BitVec 32) (bits : ℕ) (entry : HashEntry) : ℕ :=
  slot (hashNumber hashFcn) bits entry.key

/-- The elements in `done` have been moved to the new buckets. -/
structure Moves (hashFcn : List UInt8 → BitVec 32) (before : HashMemory) (ideal bits : ℕ)
    (done : List HashEntry) (expansion : Expansion) : Prop where
  relinks : before.Relinks expansion.memory (addresses done)
  fills : expansion.memory.Fills expansion.newBuckets (2 ^ bits)
    (spreadAll (slotOf hashFcn bits) ideal done).chain
    (spreadAll (slotOf hashFcn bits) ideal done).mult
  nonideal : expansion.nonidealItems = (spreadAll (slotOf hashFcn bits) ideal done).nonideal

variable {hashFcn : List UInt8 → BitVec 32} {memory before after : HashMemory} {tbl : ℕ}
  {entry other : HashEntry} {entries done rest : List HashEntry} {array : BucketArray}
  {ideal bits : ℕ} {expansion : Expansion}

theorem moves_nothing (hashFcn : List UInt8 → BitVec 32) (memory : HashMemory) (ideal bits : ℕ) :
    Moves hashFcn memory ideal bits [] ⟨memory, .zeroed (2 ^ bits), 0⟩ where
  relinks := .refl memory []
  fills := ⟨rfl, fun _ _ => trivial, fun _ _ => rfl⟩
  nonideal := rfl

theorem mem_chain_spreadAll {index : ℕ} :
    entry ∈ (spreadAll (slotOf hashFcn bits) ideal done).chain index ↔
      entry ∈ done ∧ slotOf hashFcn bits entry = index := by
  simp [chain_spreadAll]

theorem mem_of_mem_chain {address index : ℕ}
    (isCell : address ∈ addresses ((spreadAll (slotOf hashFcn bits) ideal done).chain index)) :
    ∃ entry ∈ done, entry.address = address ∧ slotOf hashFcn bits entry = index := by
  rcases List.mem_map.mp isCell with ⟨entry, inChain, rfl⟩
  rcases mem_chain_spreadAll.mp inChain with ⟨isDone, here⟩
  exact ⟨entry, isDone, rfl, here⟩

theorem mem_head {first : ℕ} (isHead : (addresses entries).head? = some first) :
    first ∈ addresses entries :=
  List.mem_of_mem_head? isHead

/-- What moving an element does, if the ideal length is not zero. -/
theorem hashMoveElement_eq (moves : Moves hashFcn before ideal bits done expansion)
    (positive : 0 < ideal) (present : expansion.memory.Present entry.address)
    (donePresent : ∀ entry ∈ done, expansion.memory.Present entry.address) :
    hashMoveElement (2 ^ bits) ideal expansion entry.address (hashFcn entry.key) =
      some {
        memory := expansion.memory.pushBucket (addresses ((spreadAll (slotOf hashFcn bits) ideal
          done).chain (slotOf hashFcn bits entry))).head? entry.address
        newBuckets := { expansion.newBuckets with
          bucket := Function.update expansion.newBuckets.bucket (slotOf hashFcn bits entry)
            ⟨some entry.address, ((spreadAll (slotOf hashFcn bits) ideal done).chain
                (slotOf hashFcn bits entry)).length + 1,
              (spreadAll (slotOf hashFcn bits) ideal (done ++ [entry])).mult
                (slotOf hashFcn bits entry)⟩ }
        nonidealItems := (spreadAll (slotOf hashFcn bits) ideal (done ++ [entry])).nonideal } := by
  have below : slotOf hashFcn bits entry < 2 ^ bits := slot_lt _ _ _
  have read := moves.fills.read below
  have firstPresent : ∀ address, (addresses ((spreadAll (slotOf hashFcn bits) ideal done).chain
      (slotOf hashFcn bits entry))).head? = some address → expansion.memory.Present address := by
    intro address isFirst
    rcases mem_of_mem_chain (mem_head isFirst) with ⟨other, isDone, rfl, -⟩
    exact donePresent other isDone
  rw [hashMoveElement, hashToBkt_two_pow, ← slotOf, read]
  simp only [Option.bind_eq_bind, Option.bind_some, Chained.spreadAll_concat,
    Chained.Spread.place, moves.nonideal, positive.ne', if_false]
  split
  · simp only [Option.bind_some, setHandle_of_present present,
      setHandleAt_assign firstPresent, BucketArray.write, moves.fills.size, below, if_true, Function.update_self]
    rfl
  · simp only [Option.bind_some, setHandle_of_present present,
      setHandleAt_assign firstPresent, BucketArray.write, moves.fills.size, below, if_true]
    rfl

/-- Moving one element more. -/
theorem Moves.concat (moves : Moves hashFcn before ideal bits done expansion)
    (positive : 0 < ideal) (apart : (addresses (done ++ [entry])).Nodup)
    (present : ∀ moved ∈ done ++ [entry], expansion.memory.Present moved.address) :
    ∃ later, hashMoveElement (2 ^ bits) ideal expansion entry.address (hashFcn entry.key) =
        some later ∧ Moves hashFcn before ideal bits (done ++ [entry]) later := by
  have below : slotOf hashFcn bits entry < 2 ^ bits := slot_lt _ _ _
  have entryPresent := present entry (List.mem_append_right _ (List.mem_singleton.mpr rfl))
  have donePresent : ∀ moved ∈ done, expansion.memory.Present moved.address :=
    fun moved isDone => present moved (List.mem_append_left _ isDone)
  rw [addresses_append] at apart
  rcases List.nodup_append.mp apart with ⟨doneApart, -, notDone⟩
  have fresh : entry.address ∉ addresses done := fun isDone =>
    notDone _ isDone _ (List.mem_singleton.mpr rfl) rfl
  have firstPresent : ∀ address, (addresses ((spreadAll (slotOf hashFcn bits) ideal done).chain
      (slotOf hashFcn bits entry))).head? = some address → address ∈ addresses done ∧
        expansion.memory.Present address := by
    intro address isFirst
    rcases mem_of_mem_chain (mem_head isFirst) with ⟨other, isDone, rfl, -⟩
    exact ⟨List.mem_map_of_mem isDone, donePresent other isDone⟩
  have links := bucketLinks_pushBucket entryPresent
    fun address isFirst => (firstPresent address isFirst).2
  refine ⟨_, hashMoveElement_eq moves positive entryPresent donePresent, ?_, ?_, rfl⟩
  · refine ⟨(orderLinks_pushBucket _ _).trans moves.relinks.order,
      (identity_pushBucket _ _).trans moves.relinks.identity, ?_, ?_, ?_, ?_⟩
    · rw [pushBucket, table_assignAt, table_assign, moves.relinks.table]
    · rw [pushBucket, tables_assignAt, tables_assign, moves.relinks.tables]
    -- What is still to be moved keeps its links, so the walk along the old chain can go on.
    · intro cell notMoved
      rw [addresses_append, List.mem_append, not_or] at notMoved
      have different : cell ≠ entry.address := fun same =>
        notMoved.2 (List.mem_singleton.mpr same)
      rw [links, Links.push, Links.next_setPrevAt, Links.next_setPrev,
        Links.next_setNext_of_ne different, moves.relinks.next cell notMoved.1]
    · intro cell notMoved
      rw [addresses_append, List.mem_append, not_or] at notMoved
      have different : cell ≠ entry.address := fun same =>
        notMoved.2 (List.mem_singleton.mpr same)
      rw [links, Links.push, Links.prev_setPrevAt_of_ne fun isFirst =>
        notMoved.1 (firstPresent cell isFirst).1, Links.prev_setPrev_of_ne different,
        Links.prev_setNext, moves.relinks.prev cell notMoved.1]
  · have filled := moves.fills.push below ?_ ?_ ?_ links
      ((spreadAll (slotOf hashFcn bits) ideal (done ++ [entry])).mult (slotOf hashFcn bits entry))
    · rw [Chained.spreadAll_concat, ← Chained.Spread.mult_place] at filled
      rw [Chained.spreadAll_concat]
      exact filled
    · rw [chain_spreadAll, addresses, List.map_reverse, List.nodup_reverse]
      exact doneApart.sublist (List.filter_sublist.map _)
    · intro index _ different cell isCell isHere
      rcases mem_of_mem_chain isCell with ⟨one, oneDone, rfl, oneHere⟩
      rcases mem_of_mem_chain isHere with ⟨other, otherDone, same, otherHere⟩
      rw [eq_of_address doneApart otherDone oneDone same, oneHere] at otherHere
      exact different otherHere
    · intro index _ isCell
      rcases mem_of_mem_chain isCell with ⟨other, isDone, same, -⟩
      exact fresh (same ▸ List.mem_map_of_mem isDone)

/-- The inner loop moves what is left of an old chain. -/
theorem Moves.chain {start : Option ℕ} {fuel : ℕ}
    (moves : Moves hashFcn before ideal bits done expansion) (positive : 0 < ideal)
    (joins : before.bucketLinks.Joins start (addresses rest) none)
    (apart : (addresses (done ++ rest)).Nodup)
    (stored : ∀ entry ∈ done ++ rest, before.Stores hashFcn tbl entry)
    (enough : rest.length ≤ fuel) :
    ∃ later, hashMoveChain (2 ^ bits) ideal fuel expansion (addresses rest).head? = some later ∧
      Moves hashFcn before ideal bits (done ++ rest) later := by
  induction rest generalizing start fuel done expansion with
  | nil =>
      rw [List.append_nil]
      exact ⟨expansion, by cases fuel <;> rfl, moves⟩
  | cons entry rest ih =>
      cases fuel with
      | zero => simp at enough
      | succ fuel =>
          have storedNow : ∀ moved ∈ done ++ entry :: rest,
              expansion.memory.Stores hashFcn tbl moved :=
            fun moved isMoved => moves.relinks.stores (stored moved isMoved)
          rcases (storedNow entry (by simp)).handle with
            ⟨handle, found, -, -, -, hashvEq, nextEq, -⟩
          rw [addresses_cons, Links.Joins, Option.or_none] at joins
          rcases joins with ⟨-, pointsOn, joins⟩
          have fresh : entry.address ∉ addresses done := by
            intro isDone
            rw [addresses_append] at apart
            exact (List.nodup_append.mp apart).2.2 _ isDone _ List.mem_cons_self rfl
          rw [moves.relinks.next _ fresh, pointsOn] at nextEq
          rw [← List.singleton_append, ← List.append_assoc] at apart stored storedNow
          have frontApart : (addresses (done ++ [entry])).Nodup := by
            rw [addresses_append] at apart
            exact (List.nodup_append.mp apart).1
          rcases moves.concat positive frontApart (fun moved isMoved =>
            (storedNow moved (List.mem_append_left _ isMoved)).present) with
            ⟨middle, moved, middleMoves⟩
          rcases ih middleMoves joins apart stored (Nat.le_of_succ_le_succ enough) with
            ⟨later, rested, laterMoves⟩
          rw [List.append_assoc, List.singleton_append] at laterMoves
          refine ⟨later, ?_, laterMoves⟩
          simp only [addresses_cons, List.head?_cons, hashMoveChain, found, Option.bind_eq_bind,
            Option.bind_some, hashvEq, moved, nextEq, rested]

/-- The outer loop moves the chains of some old buckets. -/
theorem Moves.chains {chain : ℕ → List HashEntry} {mult : ℕ → ℕ} {count fuel : ℕ}
    {indices : List ℕ} (moves : Moves hashFcn before ideal bits done expansion)
    (positive : 0 < ideal) (fills : before.Fills array count chain mult)
    (inside : ∀ index ∈ indices, index < count)
    (apart : (addresses (done ++ indices.flatMap chain)).Nodup)
    (stored : ∀ entry ∈ done ++ indices.flatMap chain, before.Stores hashFcn tbl entry)
    (enough : ∀ index ∈ indices, (chain index).length ≤ fuel) :
    ∃ later, hashMoveBuckets fuel (2 ^ bits) ideal array indices expansion = some later ∧
      Moves hashFcn before ideal bits (done ++ indices.flatMap chain) later := by
  induction indices generalizing done expansion with
  | nil =>
      rw [List.flatMap_nil, List.append_nil]
      exact ⟨expansion, rfl, moves⟩
  | cons index indices ih =>
      have below := inside index List.mem_cons_self
      rw [List.flatMap_cons, ← List.append_assoc] at apart stored ⊢
      have frontApart : (addresses (done ++ chain index)).Nodup := by
        rw [addresses_append] at apart
        exact (List.nodup_append.mp apart).1
      rcases moves.chain positive (fills.isList index below) frontApart
        (fun entry isMoved => stored entry (List.mem_append_left _ isMoved))
        (enough index List.mem_cons_self) with ⟨middle, moved, middleMoves⟩
      rcases ih middleMoves (fun later isLater => inside later (List.mem_cons_of_mem _ isLater))
        apart stored (fun later isLater => enough later (List.mem_cons_of_mem _ isLater)) with
        ⟨later, rested, laterMoves⟩
      refine ⟨later, ?_, laterMoves⟩
      simp only [hashMoveBuckets, fills.read below, Option.bind_eq_bind, Option.bind_some, moved,
        rested]

end HashMemory

end Kieker
