import Kieker.Model.Symbols

/-!
# Names of different functions

The name of a function is its distance from the load base of its object, printed
in base 16. Printing loses nothing, and the base of one object is the same for
all its functions, but the name does not say which object it comes from: two
functions of different objects that lie at the same distance from the bases of
their objects have the same name.
-/

namespace Kieker

variable {image : ProcessImage} {object other : LoadedObject} {address : BitVec 64}
  {functions : Set (BitVec 64)} {first second : BitVec 64} {result : Block}

/-! ### Printing -/

theorem printPointer_injective : Function.Injective printPointer := by
  intro value otherValue same
  have bytes := congrArg CString.bytes same
  exact BitVec.eq_of_toNat_eq
    (Hexadecimal.hexDigits_injective (List.append_cancel_left bytes))

theorem length_printPointer_lt (value : BitVec 64) :
    (printPointer value).length < fqnResultSize := by
  have digits : (Hexadecimal.hexDigits value.toNat).length ≤ 16 := by
    apply Hexadecimal.length_hexDigits_le (by norm_num)
    have small := value.isLt
    norm_num at small ⊢
    exact small
  simp only [printPointer, CString.length, List.length_append, List.length_cons, List.length_nil,
    fqnResultSize]
  omega

/-- What was printed into a block is what is read there. -/
theorem readString_of_store {after : Block} {name : CString}
    (stored : result.store 0 (name.bytes ++ [0]) = some after) :
    readString after = some name := by
  have written := Block.bytesFrom_store stored
  rcases Block.store_eq_some stored with ⟨fits, size⟩
  rw [Nat.zero_add, ← size] at fits
  have contents : after.bytesFrom 0 after.size = name.bytes ++ 0 ::
      after.bytesFrom (name.bytes ++ [0]).length
        (after.size - (name.bytes ++ [0]).length) := by
    rw [← Nat.add_sub_of_le fits, Block.bytesFrom_add, written]
    simp
  have nonzero : ∀ byte ∈ name.bytes, (byte != 0) = true := by
    intro byte byte_mem
    exact bne_iff_ne.mpr fun zero => name.nulFree (zero ▸ byte_mem)
  have front : (after.bytesFrom 0 after.size).takeWhile (· != 0) = name.bytes := by
    rw [contents, List.takeWhile_append_of_pos nonzero]
    simp
  have terminated : (0 : UInt8) ∈ after.bytesFrom 0 after.size := by
    rw [contents]
    simp
  simp only [readString, if_pos terminated, front]

/-! ### Looking up the object -/

/-- At most one object contains an address. -/
theorem ProcessImage.eq_of_contains (image : ProcessImage) (inImage : object ∈ image.objects)
    (otherInImage : other ∈ image.objects) (contains : object.Contains address)
    (otherContains : other.Contains address) : object = other := by
  by_contra different
  rcases contains with ⟨lower, upper⟩
  rcases otherContains with ⟨otherLower, otherUpper⟩
  rcases image.disjoint.forall inImage otherInImage different with before | after
  · omega
  · omega

theorem ProcessImage.dladdr1_of_contains (image : ProcessImage)
    (inImage : object ∈ image.objects) (contains : object.Contains address) :
    image.dladdr1 address = some object := by
  cases found : image.dladdr1 address with
  | none =>
      have missing := List.find?_eq_none.mp found object inImage
      simp [contains] at missing
  | some other =>
      have otherContains : other.Contains address := by
        simpa using List.find?_some found
      rw [image.eq_of_contains inImage (List.mem_of_find?_eq_some found) contains otherContains]

/-- In an object, the lookup is defined and has the distance from the load base as its name. -/
theorem controllerGetOperationFqn_of_contains (inImage : object ∈ image.objects)
    (contains : object.Contains address) (size : result.size = fqnResultSize) :
    ∃ after, controllerGetOperationFqn image address result =
      some (printPointer (address - object.lAddr), after) := by
  have fits : 0 + ((printPointer (address - object.lAddr)).bytes ++ [0]).length ≤ result.size := by
    have short := length_printPointer_lt (address - object.lAddr)
    simp only [CString.length] at short
    simp only [List.length_append, List.length_singleton, size]
    omega
  rcases Block.store_isSome result 0 _ fits with ⟨after, stored⟩
  refine ⟨after, ?_⟩
  rw [controllerGetOperationFqn, controllerConvertToVma, image.dladdr1_of_contains inImage contains]
  simp [stored, readString_of_store stored]

/-! ### Different functions -/

/-- Every function lies in an object of the process. -/
def ProcessImage.Loads (image : ProcessImage) (functions : Set (BitVec 64)) : Prop :=
  ∀ function ∈ functions, ∃ object ∈ image.objects, object.Contains function

/-- Different functions get names, and the names are different. -/
def ProcessImage.NamesApart (image : ProcessImage) (functions : Set (BitVec 64))
    (result : Block) : Prop :=
  ∀ first ∈ functions, ∀ second ∈ functions, first ≠ second →
    ∃ name otherName after otherAfter,
      controllerGetOperationFqn image first result = some (name, after) ∧
      controllerGetOperationFqn image second result = some (otherName, otherAfter) ∧
      name ≠ otherName

/-- Functions of different objects lie at different distances from the load bases. -/
def ProcessImage.OffsetsApart (image : ProcessImage) (functions : Set (BitVec 64)) : Prop :=
  ∀ object ∈ image.objects, ∀ other ∈ image.objects, object ≠ other →
    ∀ first ∈ functions, ∀ second ∈ functions,
      object.Contains first → other.Contains second →
        first - object.lAddr ≠ second - other.lAddr

/--
Different functions have different names exactly if functions of different objects
lie at different distances from the load bases; every name fits its buffer.
-/
theorem operation_names_apart_iff (loads : image.Loads functions)
    (size : result.size = fqnResultSize) :
    (image.NamesApart functions result ↔ image.OffsetsApart functions) ∧
      ∀ value, (printPointer value).length + 1 ≤ fqnResultSize := by
  refine ⟨⟨?_, ?_⟩, length_printPointer_lt⟩
  · intro namesApart object inImage other otherInImage different first first_mem second second_mem
      contains otherContains sameOffset
    have twoFunctions : first ≠ second := by
      rintro rfl
      exact different (image.eq_of_contains inImage otherInImage contains otherContains)
    rcases namesApart first first_mem second second_mem twoFunctions with
      ⟨name, otherName, after, otherAfter, named, otherNamed, namesDiffer⟩
    rcases controllerGetOperationFqn_of_contains inImage contains size with ⟨_, nameEq⟩
    rcases controllerGetOperationFqn_of_contains otherInImage otherContains size with
      ⟨_, otherNameEq⟩
    rw [named, Option.some.injEq, Prod.mk.injEq] at nameEq
    rw [otherNamed, Option.some.injEq, Prod.mk.injEq] at otherNameEq
    rw [nameEq.1, otherNameEq.1, sameOffset] at namesDiffer
    exact namesDiffer rfl
  · intro offsetsApart first first_mem second second_mem twoFunctions
    rcases loads first first_mem with ⟨object, inImage, contains⟩
    rcases loads second second_mem with ⟨other, otherInImage, otherContains⟩
    rcases controllerGetOperationFqn_of_contains inImage contains size with ⟨after, named⟩
    rcases controllerGetOperationFqn_of_contains otherInImage otherContains size with
      ⟨otherAfter, otherNamed⟩
    refine ⟨_, _, after, otherAfter, named, otherNamed, ?_⟩
    intro sameName
    have sameOffset := printPointer_injective sameName
    by_cases sameObject : object = other
    · subst sameObject
      exact twoFunctions ((BitVec.sub_left_inj object.lAddr).mp sameOffset)
    · exact offsetsApart object inImage other otherInImage sameObject first first_mem second
        second_mem contains otherContains sameOffset

/-! ### Two objects -/

/-- An executable, loaded at its own base. -/
def executable : LoadedObject where
  first := 0x555555554000
  size := 0x5000
  lAddr := 0x555555554000

/-- A shared library in the same process. -/
def sharedLibrary : LoadedObject where
  first := 0x7ffff7c00000
  size := 0x5000
  lAddr := 0x7ffff7c00000

theorem executable_apart_sharedLibrary : [executable, sharedLibrary].Pairwise LoadedObject.Apart := by
  simp [LoadedObject.Apart, executable, sharedLibrary]

def executableAndLibrary : ProcessImage where
  objects := [executable, sharedLibrary]
  disjoint := executable_apart_sharedLibrary

/-- Two functions of the executable have different names. -/
theorem operation_names_apart_executable :
    executableAndLibrary.NamesApart {0x555555555139, 0x555555555150}
      { size := fqnResultSize, byte := fun _ => 0 } := by
  have inExecutable : ∀ function ∈ ({0x555555555139, 0x555555555150} : Set (BitVec 64)),
      executable.Contains function := by
    rintro function (rfl | rfl)
    · decide
    · decide
  have loads : executableAndLibrary.Loads {0x555555555139, 0x555555555150} :=
    fun function function_mem => ⟨executable, List.mem_cons_self, inExecutable function function_mem⟩
  refine (operation_names_apart_iff loads rfl).1.mpr ?_
  intro object inImage other otherInImage different first first_mem second second_mem contains
    otherContains
  have isExecutable := executableAndLibrary.eq_of_contains inImage List.mem_cons_self contains
    (inExecutable first first_mem)
  have otherIsExecutable := executableAndLibrary.eq_of_contains otherInImage List.mem_cons_self
    otherContains (inExecutable second second_mem)
  exact absurd (isExecutable.trans otherIsExecutable.symm) different

/-- A function of the executable and one of the library have the same name. -/
theorem two_objects_same_name :
    executableAndLibrary.Loads {0x555555555139, 0x7ffff7c01139} ∧
      ¬executableAndLibrary.NamesApart {0x555555555139, 0x7ffff7c01139}
        { size := fqnResultSize, byte := fun _ => 0 } ∧
      ∀ kernel self result library,
        cygProfileFuncEnter kernel self executableAndLibrary 0x555555555139 result library =
          cygProfileFuncEnter kernel self executableAndLibrary 0x7ffff7c01139 result library := by
  have sameName : ∀ result,
      controllerGetOperationFqn executableAndLibrary 0x555555555139 result =
        controllerGetOperationFqn executableAndLibrary 0x7ffff7c01139 result := by
    intro result
    have sameVma : controllerConvertToVma executableAndLibrary 0x555555555139 =
        controllerConvertToVma executableAndLibrary 0x7ffff7c01139 := by decide
    rw [controllerGetOperationFqn, controllerGetOperationFqn, sameVma]
  refine ⟨?_, ?_, ?_⟩
  · rintro function (rfl | rfl)
    · exact ⟨executable, List.mem_cons_self, by decide⟩
    · exact ⟨sharedLibrary, List.mem_cons_of_mem _ List.mem_cons_self, by decide⟩
  · intro namesApart
    rcases namesApart 0x555555555139 (Or.inl rfl) 0x7ffff7c01139 (Or.inr rfl) (by decide) with
      ⟨name, otherName, after, otherAfter, named, otherNamed, namesDiffer⟩
    rw [sameName, otherNamed, Option.some.injEq, Prod.mk.injEq] at named
    exact namesDiffer named.1.symm
  · intro kernel self result library
    rw [cygProfileFuncEnter, cygProfileFuncEnter, sameName]

end Kieker
