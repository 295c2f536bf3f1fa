import Kieker.Library.Fragments
import Kieker.Wire.Entries

/-!
# Entries offered to a socket that may take less

Each write of the library offers a registry entry or the records of one probe
call, and the system answers with a count. A count that stops inside an entry is
noticed by nobody, so the entries behind it are read in the wrong places.
-/

namespace Kieker

/-- The entries offered by one write, and what the write returned. -/
structure Offer where
  entries : List Entry
  result : ℤ

namespace Offer

/-- The call that made an offer. -/
def call (descriptor : ℤ) (offer : Offer) : Syscall :=
  .write descriptor (Entry.codec.encodeAll offer.entries) offer.result

/-- What became of the entries. -/
def fragments (offer : Offer) : List (Fragment Entry) :=
  Fragment.ofWrite Entry.codec.encode offer.entries offer.result.toNat

/-- The count stops inside an entry. -/
def Severs (offer : Offer) : Prop :=
  Fragment.Severs Entry.codec.encode offer.entries offer.result.toNat

theorem call_injective (descriptor : ℤ) : Function.Injective (call descriptor) := by
  rintro ⟨entries, result⟩ ⟨others, other⟩ same
  simp only [call, Syscall.write.injEq, true_and] at same
  rw [Entry.encodeAll_injective same.1, same.2]

theorem writtenTo_calls (descriptor : ℤ) (offers : List Offer) :
    writtenTo descriptor (offers.map (call descriptor)) =
      (offers.flatMap fragments).flatMap (Fragment.arrived Entry.codec.encode) := by
  induction offers with
  | nil => rfl
  | cons offer offers ih =>
      rw [List.map_cons, ← List.singleton_append, writtenTo_append, ih, List.flatMap_cons,
        List.flatMap_append, fragments, Fragment.flatMap_arrived_ofWrite]
      simp [writtenTo, call, Codec.encodeAll]

end Offer

/--
What arrived are whole entries, and perhaps the beginning of a last one; and
nothing arrived behind an entry that was cut short.
-/
structure KeepsFraming (received : List UInt8) (offers : List Offer) : Prop where
  framed : ∃ complete rest, received = Entry.codec.encodeAll complete ++ rest ∧
    (rest = [] ∨ ∃ entry, rest <+: Entry.codec.encode entry)
  intact : Fragment.Intact Entry.codec.encode (offers.flatMap Offer.fragments)

/-- After a count that stops inside an entry, nothing is accepted any more. -/
def StopsWhenSevered (offers : List Offer) : Prop :=
  offers.Pairwise fun offer later => offer.Severs → later.result ≤ 0

/-- The framing survives exactly as long as the socket stops at the first severed entry. -/
theorem keepsFraming_iff {descriptor : ℤ} {offers : List Offer}
    (bounded : ∀ offer ∈ offers, offer.result ≤ (Entry.codec.encodeAll offer.entries).length) :
    KeepsFraming (writtenTo descriptor (offers.map (Offer.call descriptor))) offers ↔
      StopsWhenSevered offers := by
  have nothing : ∀ offer ∈ offers,
      ((offer.entries.flatMap Entry.codec.encode).take offer.result.toNat = [] ↔
        offer.result ≤ 0) := by
    intro offer offer_mem
    have limit := bounded offer offer_mem
    rw [List.take_eq_nil_iff, Int.toNat_eq_zero]
    constructor
    · rintro (none | empty)
      · exact none
      · rw [Codec.encodeAll, empty] at limit
        simpa using limit
    · exact Or.inl
  have intactIff := @Fragment.intact_iff _ _ Entry.codec.encode _ Offer.entries
    (fun offer => offer.result.toNat) offers
  have same : StopsWhenSevered offers ↔
      Fragment.Intact Entry.codec.encode (offers.flatMap Offer.fragments) := by
    rw [show offers.flatMap Offer.fragments = offers.flatMap fun offer =>
      Fragment.ofWrite Entry.codec.encode offer.entries offer.result.toNat from rfl, intactIff]
    apply List.Pairwise.iff_of_mem
    intro offer later _ later_mem
    rw [nothing later later_mem]
    rfl
  rw [same]
  constructor
  · exact KeepsFraming.intact
  · intro intact
    rcases intact.arrived_eq with ⟨complete, rest, -, arrived, last⟩
    refine ⟨⟨complete, rest, ?_, ?_⟩, intact⟩
    · rw [Offer.writtenTo_calls, arrived]
      rfl
    · refine last.imp_right ?_
      rintro ⟨entry, -, beginning⟩
      exact ⟨entry, beginning⟩

/-! ### The offers of an emission -/

/-- The entries that an emission offers, by writes: each new string, then all records together. -/
def Emission.offered (known : List CString) (emission : Emission) : List (List Entry) :=
  (registryEntries known emission.strings).map (fun entry => [entry]) ++
    if emission.isSent then
      [emission.built.map (Logged.entry (Interning.internAll known emission.strings))]
    else []

theorem map_encodeAll_singletons (entries : List Entry) :
    (entries.map fun entry => [entry]).map Entry.codec.encodeAll =
      entries.map Entry.codec.encode := by
  rw [List.map_map]
  apply List.map_congr_left
  intro entry _
  simp

theorem Emission.map_encodeAll_offered {known : List CString} {emission : Emission}
    (usable : Usable known emission.strings) :
    (emission.offered known).map Entry.codec.encodeAll = emission.pieces known := by
  rw [offered, pieces, List.map_append, map_encodeAll_singletons,
    map_encode_registryEntries usable]
  split
  · rw [List.map_singleton, Logged.encodeAll_entries]
  · rfl

/-- The offers of some writes, as the kernel answers them from a system call on. -/
def Kernel.answers (kernel : Kernel) (descriptor : ℤ) (index : ℕ)
    (offered : List (List Entry)) : List Offer :=
  offered.zipIdx.map fun write =>
    ⟨write.1, kernel.write (index + write.2) descriptor (Entry.codec.encodeAll write.1).length⟩

theorem Kernel.calls_answers (kernel : Kernel) (descriptor : ℤ) (index : ℕ)
    (offered : List (List Entry)) :
    (kernel.answers descriptor index offered).map (Offer.call descriptor) =
      kernel.offers descriptor index (offered.map Entry.codec.encodeAll) := by
  rw [answers, offers, List.zipIdx_map, List.map_map, List.map_map]
  rfl

theorem Kernel.bounded_answers {kernel : Kernel} {descriptor : ℤ} {index : ℕ}
    {offered : List (List Entry)} :
    ∀ offer ∈ kernel.answers descriptor index offered,
      offer.result ≤ (Entry.codec.encodeAll offer.entries).length := by
  intro offer offer_mem
  rcases List.mem_map.mp offer_mem with ⟨write, -, rfl⟩
  exact kernel.write_le _ _ _

theorem Kernel.answers_concat (kernel : Kernel) (descriptor : ℤ) (index : ℕ)
    (offered : List (List Entry)) (last : List Entry) :
    kernel.answers descriptor index (offered ++ [last]) =
      kernel.answers descriptor index offered ++ [⟨last, kernel.write (index + offered.length)
        descriptor (Entry.codec.encodeAll last).length⟩] := by
  simp [answers, List.zipIdx_append]

/-- The records of an emission are offered by one write. -/
theorem Kernel.mem_answers_built (kernel : Kernel) (descriptor : ℤ) (index : ℕ)
    (known : List CString) {emission : Emission} {count : ℕ} (sent : emission.isSent = true)
    (width : Field.widthAll (Logged.membersAll emission.built) = count) :
    ∃ place, ⟨emission.built.map (Logged.entry (Interning.internAll known emission.strings)),
      kernel.write place descriptor count⟩ ∈
        kernel.answers descriptor index (emission.offered known) := by
  rw [Emission.offered, if_pos sent, answers_concat, Logged.encodeAll_entries, Logged.bytesAll,
    Field.length_bytesAll, width]
  exact ⟨_, List.mem_append_right _ (List.mem_singleton.mpr rfl)⟩

end Kieker
