import Kieker.Channel.Interning
import Mathlib.Data.List.Dedup
import Mathlib.Data.List.Perm.Subperm

/-!
# Runs of string uses

A sequence of calls of `kieker_lookup_find_key_by_string` numbers the strings in
order of first use and announces each of them once, as long as every string fits
into the string buffer behind the header of its registry entry. A longer string
overruns the buffer, so that limit is exactly where the numbering stops working.
-/

namespace Kieker

/-- Calls of `kieker_lookup_find_key_by_string`, one after another, with their results. -/
def lookupAll (kernel : Kernel) : List CString → Channel → Option (List ℕ × Channel)
  | [], channel => some ([], channel)
  | string :: strings, channel => do
      let (key, channel) ← lookupFindKeyByString kernel string channel
      let (keys, channel) ← lookupAll kernel strings channel
      some (key :: keys, channel)

variable {kernel : Kernel} {channel after : Channel} {known strings front back : List CString}
  {string : CString}

/-- Uses of strings that are known or fit perform the interning of all of them. -/
theorem lookupAll_of_usable (kernel : Kernel) (serves : channel.Serves known)
    (usable : Usable known strings) :
    ∃ after,
      lookupAll kernel strings channel =
        some (strings.map (Interning.internAll known strings).idxOf, after) ∧
      Channel.Interns kernel channel after known strings := by
  induction strings generalizing channel known with
  | nil => exact ⟨channel, rfl, .refl serves⟩
  | cons string strings ih =>
      obtain ⟨middle, found, interns⟩ := lookupFindKeyByString_of_fits kernel serves
        (usable string List.mem_cons_self)
      have rest : Usable known strings := fun other other_mem =>
        usable other (List.mem_cons_of_mem string other_mem)
      obtain ⟨after, keys, more⟩ := ih interns.serves rest.internAll
      refine ⟨after, ?_, interns.trans more⟩
      have stable : (Interning.internAll (Interning.intern known string) strings).idxOf string =
          (Interning.intern known string).idxOf string :=
        Interning.idxOf_of_prefix (Interning.prefix_internAll _ _)
          (Interning.mem_intern.mpr (Or.inr rfl))
      simp only [lookupAll, found, keys, List.map_cons, stable, Option.bind_eq_bind,
        Option.bind_some, Interning.internAll_cons, Interning.internAll_nil]

/-- Uses that all have a result were uses of strings that are known or fit. -/
theorem usable_of_lookupAll (serves : channel.Serves known) {keys : List ℕ}
    (done : lookupAll kernel strings channel = some (keys, after)) : Usable known strings := by
  induction strings generalizing channel known keys after with
  | nil => simp [Usable]
  | cons string strings ih =>
      simp only [lookupAll, Option.bind_eq_bind, Option.bind_eq_some_iff, Option.some.injEq,
        Prod.mk.injEq] at done
      rcases done with ⟨⟨key, middle⟩, found, ⟨laterKeys, last⟩, rest, rfl, rfl⟩
      rcases lookupFindKeyByString_eq_some serves found with ⟨usable, -, interns⟩
      have first : Usable known [string] := fun other other_mem =>
        List.mem_singleton.mp other_mem ▸ usable
      exact first.append (ih interns.serves rest)

theorem length_internAll_nil (strings : List CString) :
    (Interning.internAll [] strings).length = strings.dedup.length := by
  have sameMembers : (Interning.internAll [] strings).Perm strings.dedup := by
    rw [List.perm_ext_iff_of_nodup (Interning.nodup_internAll List.nodup_nil strings)
      (List.nodup_dedup strings)]
    intro string
    simp [Interning.mem_internAll]
  exact sameMembers.length_eq

/--
A use of `string` after the uses `front`: it happens inside the allocated array,
a new string gets the next number and is announced under it, and a string used
before changes nothing.
-/
def NumberedUse (kernel : Kernel) (start : Channel) (front : List CString) (string : CString) :
    Prop :=
  ∃ keys before key after, lookupAll kernel front start = some (keys, before) ∧
    lookupFindKeyByString kernel string before = some (key, after) ∧
    after.lookup.tableTop ≤ after.lookup.tableMax ∧ (key : ℤ) < 2 ^ 31 ∧
    if string ∈ front then after.world.log = before.world.log
    else key = front.dedup.length ∧
      after.world.log = before.world.log ++ [.write start.controller.socket
        (registryBytes key string.bytes) (registryBytes key string.bytes).length]

/--
The numbers given to some strings identify them, and each string is announced
exactly once, at its first use, under the number it gets.
-/
def NumbersStrings (kernel : Kernel) (start : Channel) (strings : List CString) : Prop :=
  ∃ keys after, lookupAll kernel strings start = some (keys, after) ∧
    keys.length = strings.length ∧
    (∀ first second, first < strings.length → second < strings.length →
      (keys[first]? = keys[second]? ↔ strings[first]? = strings[second]?)) ∧
    ∀ front string back, strings = front ++ string :: back →
      NumberedUse kernel start front string

theorem numberedUse_of_usable (serves : channel.Serves []) (usable : Usable [] (front ++ [string]))
    (complete : kernel.CompleteOn channel.controller.socket)
    (few : (front ++ [string]).dedup.length < 2 ^ 31) :
    NumberedUse kernel channel front string := by
  obtain ⟨before, looked, interns⟩ := lookupAll_of_usable kernel serves
    (fun other other_mem => usable other (List.mem_append_left _ other_mem))
  have stringUsable : string ∈ Interning.internAll [] front ∨ string.Fits :=
    Or.inr ((usable string (by simp)).resolve_left (by simp))
  obtain ⟨after, found, last⟩ := lookupFindKeyByString_of_fits kernel interns.serves
    stringUsable
  have known : string ∈ Interning.internAll [] front ↔ string ∈ front := by
    simp [Interning.mem_internAll]
  have later : Interning.intern (Interning.internAll [] front) string =
      Interning.internAll [] (front ++ [string]) := by
    simp [Interning.internAll_append]
  have completeBefore : kernel.CompleteOn before.controller.socket := by
    rw [interns.socket]
    exact complete
  refine ⟨_, before, _, after, looked, found, last.serves.holds.room, ?_, ?_⟩
  · have inTable : (Interning.intern (Interning.internAll [] front) string).idxOf string <
        (Interning.intern (Interning.internAll [] front) string).length :=
      List.idxOf_lt_length_iff.mpr (Interning.mem_intern.mpr (Or.inr rfl))
    rw [later, length_internAll_nil] at inTable
    rw [later]
    omega
  · by_cases old : string ∈ front
    · rw [if_pos old, last.log, registryPieces_of_mem (known.mpr old)]
      rfl
    · have isNew := fun inTable => old (known.mp inTable)
      have next := Interning.idxOf_intern_of_notMem isNew
      rw [length_internAll_nil] at next
      rw [if_neg old, next]
      refine ⟨rfl, ?_⟩
      rw [last.log, registryPieces_of_notMem isNew, length_internAll_nil,
        Kernel.offerAll_of_complete completeBefore, interns.socket]
      simp

/--
Strings passed to `kieker_lookup_find_key_by_string` from an empty table are
numbered, and announced, as intended exactly if each of them has at most 8180 bytes.
-/
theorem numbersStrings_iff (serves : channel.Serves [])
    (complete : kernel.CompleteOn channel.controller.socket)
    (few : strings.dedup.length < 2 ^ 31) :
    NumbersStrings kernel channel strings ↔ ∀ string ∈ strings, string.length ≤ 8180 := by
  constructor
  · rintro ⟨keys, after, looked, -⟩ string string_mem
    exact ((usable_of_lookupAll serves looked string string_mem).resolve_left (by simp)).length_le
  · intro short
    have usable : Usable [] strings := by
      intro string string_mem
      have := short string string_mem
      right
      unfold CString.Fits bufferSize
      omega
    obtain ⟨after, looked, -⟩ := lookupAll_of_usable kernel serves usable
    refine ⟨_, after, looked, by simp, ?_, ?_⟩
    · intro first second firstInside secondInside
      have firstKnown : strings[first] ∈ Interning.internAll [] strings := by
        simp [Interning.mem_internAll]
      simp only [List.getElem?_map, List.getElem?_eq_getElem firstInside,
        List.getElem?_eq_getElem secondInside, Option.map_some, Option.some.injEq]
      exact List.idxOf_inj firstKnown
    · rintro front string back rfl
      have sub : (front ++ [string]).Sublist (front ++ string :: back) := by simp
      refine numberedUse_of_usable serves (fun other other_mem => usable other (sub.subset other_mem))
        complete (lt_of_le_of_lt ?_ few)
      apply ((List.nodup_dedup _).subperm ?_).length_le
      intro other other_mem
      rw [List.mem_dedup] at other_mem ⊢
      exact sub.subset other_mem

/-- A channel with an empty table, as an initialisation on descriptor 3 leaves its buffers. -/
def unusedChannel : Channel where
  controller := { Controller.initial with
    socket := 3
    buffer := some { size := 8192, byte := fun _ => 0 }
    stringBuffer := some { size := 8192, byte := fun _ => 0 }
    localHostname := some (.literal "host") }
  lookup := LookupTable.initial
  world := { log := [], clockReads := 0 }

theorem serves_unusedChannel : unusedChannel.Serves [] where
  holds := LookupTable.holds_initial
  ready := ⟨_, rfl, rfl⟩

theorem numbersStrings_three_uses : NumbersStrings Kernel.accepting unusedChannel
    [.literal "int main()", .literal "Main", .literal "int main()"] :=
  (numbersStrings_iff serves_unusedChannel (Kernel.completeOn_accepting (by decide))
    (by decide)).mpr (by decide)

/-- One byte more than fits behind the header of a registry entry. -/
def overlongString : CString where
  bytes := List.replicate 8181 97
  nulFree := fun zero_mem => absurd (List.eq_of_mem_replicate zero_mem) (by decide)

theorem length_overlongString : overlongString.length = 8181 := List.length_replicate

/-- The only string used has 8181 bytes: the string buffer is overrun before it gets a number. -/
theorem overlong_not_numbered :
    unusedChannel.Serves [] ∧ Kernel.accepting.CompleteOn unusedChannel.controller.socket ∧
      [overlongString].length = 1 ∧
      ¬NumbersStrings Kernel.accepting unusedChannel [overlongString] := by
  refine ⟨serves_unusedChannel, Kernel.completeOn_accepting (by decide), rfl, ?_⟩
  rintro ⟨keys, after, looked, -⟩
  have usable := usable_of_lookupAll serves_unusedChannel looked overlongString (by simp)
  have short := (usable.resolve_left (by simp)).length_le
  rw [length_overlongString] at short
  omega

end Kieker
