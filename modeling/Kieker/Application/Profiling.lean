import Kieker.Application.Collecting
import Kieker.Probes.Symbols

/-!
# Programs with compiler hooks

A compiler that instruments functions puts `__cyg_profile_func_enter` and
`__cyg_profile_func_exit` around each of them. Such a program is one with plain
probes: the operations are the functions, under the names that the hooks find for
them. A name can be read back, so a collector gets the call trees of the functions
as they lie in their object files.
-/

namespace Kieker

open Nesting

/-- The operation that the hooks report for a function. -/
def functionOperation (image : ProcessImage) (function : BitVec 64) : Operation where
  probe := .plain
  classSignature := .literal "<package structure>"
  operationSignature := printPointer ((controllerConvertToVma image function).getD 0)

/-- The address in an operation that a hook reported. -/
def readVma (operation : WireOperation) : BitVec 64 :=
  BitVec.ofNat 64 (Hexadecimal.readHexDigits (operation.2.drop 2))

/-- What happens in a program with hooks: threads begin, end, and enter and leave functions. -/
inductive Hooked (Thread : Type) where
  | begin (thread : Thread)
  | finish (thread : Thread)
  | hook (thread : Thread) (event : Event (BitVec 64))

/-- The same as it happens in a process with plain probes. -/
def Hooked.happening {Thread : Type} (image : ProcessImage) : Hooked Thread → Happening Thread
  | .begin thread => .begin thread
  | .finish thread => .finish thread
  | .hook thread event => .call ⟨thread, event.map (functionOperation image)⟩

/-- The library in a program with hooks, and the functions that its threads are in. -/
structure Profiled (Thread : Type) where
  library : Library
  /-- `kieker_controllor_get_operation_fqn_result`. -/
  result : Block
  /-- The functions on the call stacks of all threads, latest first. -/
  running : List (Thread × BitVec 64)
  live : List Thread

variable {Thread : Type} [DecidableEq Thread]

/-- The functions that a thread enters and leaves, in order. -/
def functionsOf (thread : Thread) (hooks : List (Hooked Thread)) : List (Event (BitVec 64)) :=
  hooks.filterMap fun hooked =>
    match hooked with
    | .hook owner event => if owner = thread then some event else none
    | _ => none

namespace Profiled

omit [DecidableEq Thread] in
/-- A program in which no thread runs yet. -/
def start (library : Library) (result : Block) : Profiled Thread where
  library := library
  result := result
  running := []
  live := []

/--
The steps of a program with hooks. A thread leaves the function that it entered
last, and ends when it has left all of them. A call of a hook is one step: while it
formats the name in the static buffer and uses it, no other thread is in a hook.
-/
inductive Step (kernel : Kernel) (selfOf : Thread → PthreadSelf) (image : ProcessImage) :
    Profiled Thread → Hooked Thread → Profiled Thread → Prop
  | begin (program : Profiled Thread) (thread : Thread)
      (different : ∀ other ∈ program.live,
        threadIdOf (selfOf other) ≠ threadIdOf (selfOf thread)) :
      Step kernel selfOf image program (.begin thread)
        { program with live := thread :: program.live }
  | finish (program : Profiled Thread) (thread : Thread)
      (nothingOpen : stackOf Prod.fst thread program.running = []) :
      Step kernel selfOf image program (.finish thread)
        { program with live := program.live.filter fun other => other ≠ thread }
  | enter (program : Profiled Thread) (thread : Thread) (function : BitVec 64) (result : Block)
      (library : Library) (alive : thread ∈ program.live)
      (hook : cygProfileFuncEnter kernel (selfOf thread) image function program.result
        program.library = some (result, library)) :
      Step kernel selfOf image program (.hook thread (.enter function))
        { program with
          library := library
          result := result
          running := (thread, function) :: program.running }
  | leave (program : Profiled Thread) (thread : Thread) (function : BitVec 64) (result : Block)
      (library : Library) (rest : List (Thread × BitVec 64)) (alive : thread ∈ program.live)
      (popped : pop Prod.fst thread program.running = some ((thread, function), rest))
      (hook : cygProfileFuncExit kernel (selfOf thread) image function program.result
        program.library = some (result, library)) :
      Step kernel selfOf image program (.hook thread (.leave function))
        { program with
          library := library
          result := result
          running := rest }

end Profiled

/-! ### Hooks and plain probes -/

variable {kernel : Kernel} {self : PthreadSelf} {image : ProcessImage} {function : BitVec 64}
  {result laterResult : Block} {library after : Library}

/-- A hook looks the function up, stores its name, and is a plain probe from there on. -/
theorem cygProfileFuncEnter_eq_some :
    cygProfileFuncEnter kernel self image function result library = some (laterResult, after) ↔
      ∃ vma, controllerConvertToVma image function = some vma ∧
        result.store 0 ((printPointer vma).bytes ++ [0]) = some laterResult ∧
        probeBeforeOperationEvent kernel self (.literal "<package structure>") (printPointer vma)
          library = some after := by
  simp only [cygProfileFuncEnter, controllerGetOperationFqn, Option.bind_eq_bind,
    Option.bind_eq_some_iff, Option.some.injEq, Prod.mk.injEq, Prod.exists]
  constructor
  · rintro ⟨_, _, ⟨vma, isVma, _, isStored, _, isRead, rfl, rfl⟩, _, probed, rfl, rfl⟩
    rw [readString_of_store isStored, Option.some.injEq] at isRead
    subst isRead
    exact ⟨vma, isVma, isStored, probed⟩
  · rintro ⟨vma, isVma, isStored, probed⟩
    exact ⟨_, _, ⟨vma, isVma, _, isStored, _, readString_of_store isStored, rfl, rfl⟩, _, probed,
      rfl, rfl⟩

theorem cygProfileFuncExit_eq_some :
    cygProfileFuncExit kernel self image function result library = some (laterResult, after) ↔
      ∃ vma, controllerConvertToVma image function = some vma ∧
        result.store 0 ((printPointer vma).bytes ++ [0]) = some laterResult ∧
        probeAfterOperationEvent kernel self (.literal "<package structure>") (printPointer vma)
          library = some after := by
  simp only [cygProfileFuncExit, controllerGetOperationFqn, Option.bind_eq_bind,
    Option.bind_eq_some_iff, Option.some.injEq, Prod.mk.injEq, Prod.exists]
  constructor
  · rintro ⟨_, _, ⟨vma, isVma, _, isStored, _, isRead, rfl, rfl⟩, _, probed, rfl, rfl⟩
    rw [readString_of_store isStored, Option.some.injEq] at isRead
    subst isRead
    exact ⟨vma, isVma, isStored, probed⟩
  · rintro ⟨vma, isVma, isStored, probed⟩
    exact ⟨_, _, ⟨vma, isVma, _, isStored, _, readString_of_store isStored, rfl, rfl⟩, _, probed,
      rfl, rfl⟩

/-- The address in the object file can be read off the name of a function. -/
theorem readVma_functionOperation {vma : BitVec 64}
    (isVma : controllerConvertToVma image function = some vma) :
    readVma (functionOperation image function).onWire = vma := by
  rw [functionOperation, isVma, Option.getD_some]
  simp only [Operation.onWire, readVma, printPointer, List.cons_append, List.nil_append,
    List.drop_succ_cons, List.drop_zero, Hexadecimal.readHexDigits_hexDigits, BitVec.ofNat_toNat,
    BitVec.setWidth_eq]

/-! ### The simulation -/

variable {selfOf : Thread → PthreadSelf} {program later : Profiled Thread}
  {process : Process Thread} {hooks : List (Hooked Thread)} {hooked : Hooked Thread}
  {initialized : Library} {thread : Thread}

/-- A process with plain probes that does what a program with hooks does. -/
structure Profiled.RunsAs (image : ProcessImage) (program : Profiled Thread)
    (process : Process Thread) : Prop where
  library : process.application.library = program.library
  live : process.live = program.live
  running : (process.application.frames.map fun frame => (frame.thread, frame.operation)) =
    program.running.map fun call => (call.1, functionOperation image call.2)

namespace Profiled.RunsAs

omit [DecidableEq Thread] in
theorem start (image : ProcessImage) (library : Library) (result : Block) :
    (Profiled.start library result : Profiled Thread).RunsAs image (Process.start library) :=
  ⟨rfl, rfl, rfl⟩

theorem stackOf_eq (same : program.RunsAs image process) (thread : Thread) :
    (stackOf Frame.thread thread process.application.frames).map Frame.operation =
      (stackOf Prod.fst thread program.running).map fun call => functionOperation image call.2 := by
  have filtered := congrArg (fun named : List (Thread × Operation) =>
    (named.filter fun call => call.1 = thread).map Prod.snd) same.running
  simp only [List.filter_map, List.map_map] at filtered
  exact filtered

/-- The function that a program leaves is the operation that the process has on top. -/
theorem pop_eq (same : program.RunsAs image process) {rest : List (Thread × BitVec 64)}
    (popped : pop Prod.fst thread program.running = some ((thread, function), rest)) :
    ∃ frame frames, pop Frame.thread thread process.application.frames = some (frame, frames) ∧
      frame.operation = functionOperation image function ∧
      (frames.map fun frame => (frame.thread, frame.operation)) =
        rest.map fun call => (call.1, functionOperation image call.2) := by
  have byName := pop_map Prod.fst
    (fun call : Thread × BitVec 64 => (call.1, functionOperation image call.2)) thread
    program.running
  have byFrame := pop_map Prod.fst
    (fun frame : Frame Thread Operation => (frame.thread, frame.operation)) thread
    process.application.frames
  rw [same.running, byName] at byFrame
  simp only at byFrame
  rw [popped, Option.map_some, eq_comm, Option.map_eq_some_iff] at byFrame
  rcases byFrame with ⟨⟨frame, frames⟩, found, sameNames⟩
  simp only [Prod.mk.injEq] at sameNames
  exact ⟨frame, frames, found, sameNames.1.2, sameNames.2⟩

theorem step (same : program.RunsAs image process)
    (stepped : Profiled.Step kernel selfOf image program hooked later) :
    ∃ laterProcess, Process.Step kernel selfOf process (hooked.happening image) laterProcess ∧
      later.RunsAs image laterProcess := by
  cases stepped with
  | begin thread different =>
      refine ⟨_, .begin process thread ?_, same.library, ?_, same.running⟩
      · rw [same.live]
        exact different
      · change thread :: process.live = thread :: program.live
        rw [same.live]
  | finish thread nothingOpen =>
      refine ⟨_, .finish process thread ?_, same.library, ?_, same.running⟩
      · have openHere := same.stackOf_eq thread
        rwa [nothingOpen, List.map_nil, List.map_eq_nil_iff] at openHere
      · change process.live.filter _ = program.live.filter _
        rw [same.live]
  | enter thread function result library alive hook =>
      rcases cygProfileFuncEnter_eq_some.mp hook with ⟨vma, isVma, -, probed⟩
      have entered : process.application.library.enter kernel (selfOf thread)
          (functionOperation image function) =
          some ((program.library.registry.traceGet kernel (selfOf thread)).1, library) := by
        rw [same.library]
        simp only [Library.enter, functionOperation, isVma, Option.getD_some, probed,
          Option.bind_eq_bind, Option.bind_some]
      have called := Application.call_enter_eq_some.mpr ⟨_, _, entered, rfl⟩
      refine ⟨_, .call process ⟨thread, .enter (functionOperation image function)⟩ _ ?_ rfl called,
        rfl, same.live, ?_⟩
      · rw [same.live]
        exact alive
      · exact congrArg (_ :: ·) same.running
  | leave thread function result library rest alive popped hook =>
      rcases cygProfileFuncExit_eq_some.mp hook with ⟨vma, isVma, -, probed⟩
      rcases same.pop_eq popped with ⟨frame, frames, found, isFunction, sameRest⟩
      have left : process.application.library.leave kernel (selfOf thread)
          (functionOperation image function) frame.trace = some library := by
        rw [same.library]
        simp only [Library.leave, functionOperation, isVma, Option.getD_some, probed]
      have called := Application.call_leave_eq_some.mpr
        ⟨frame, frames, library, found, isFunction, left, rfl⟩
      refine ⟨_, .call process ⟨thread, .leave (functionOperation image function)⟩ _ ?_ rfl called,
        rfl, same.live, sameRest⟩
      rw [same.live]
      exact alive

end Profiled.RunsAs

/-- Every run of a program with hooks is one of a process with plain probes. -/
theorem Profiled.exists_process
    (run : Steps (Profiled.Step kernel selfOf image) (Profiled.start initialized result) hooks
      program) :
    ∃ process, Steps (Process.Step kernel selfOf) (Process.start initialized)
        (hooks.map (Hooked.happening image)) process ∧
      program.RunsAs image process := by
  induction run with
  | nil => exact ⟨_, .nil _, .start image initialized result⟩
  | snoc _ last ih =>
      rcases ih with ⟨middle, ran, same⟩
      rcases same.step last with ⟨final, stepped, laterSame⟩
      rw [List.map_append]
      exact ⟨final, ran.snoc stepped, laterSame⟩

/-! ### The functions of a thread -/

theorem functionsOf_append (thread : Thread) (front back : List (Hooked Thread)) :
    functionsOf thread (front ++ back) = functionsOf thread front ++ functionsOf thread back :=
  List.filterMap_append

theorem functionsOf_hook_self (thread : Thread) (event : Event (BitVec 64)) :
    functionsOf thread [.hook thread event] = [event] := by
  simp [functionsOf]

theorem functionsOf_hook_other {other : Thread} (different : other ≠ thread)
    (event : Event (BitVec 64)) : functionsOf thread [.hook other event] = [] := by
  simp [functionsOf, different]

/-- The functions that a thread is in are those that it entered and did not leave. -/
theorem Profiled.openAfter_functionsOf
    (run : Steps (Profiled.Step kernel selfOf image) (Profiled.start initialized result) hooks
      program) (thread : Thread) :
    openAfter (functionsOf thread hooks) =
      some ((stackOf Prod.fst thread program.running).map Prod.snd) := by
  induction run with
  | nil => rfl
  | snoc _ last ih =>
      rw [functionsOf_append]
      cases last with
      | begin other different => exact (congrArg openAfter (List.append_nil _)).trans ih
      | finish other nothingOpen => exact (congrArg openAfter (List.append_nil _)).trans ih
      | enter other function result library alive hook =>
          by_cases mine : other = thread
          · subst mine
            rw [functionsOf_hook_self, openAfter_concat, ih]
            simp [openStep, stackOf]
          · rw [functionsOf_hook_other mine, List.append_nil, ih, stackOf_cons_other _ mine]
      | leave other function result library rest alive popped hook =>
          by_cases mine : other = thread
          · subst mine
            rw [stackOf_of_pop popped] at ih
            rw [functionsOf_hook_self, openAfter_concat, ih, Option.bind_some,
              openStep_leave_eq_some]
            rfl
          · rw [functionsOf_hook_other mine, List.append_nil, ih,
              stackOf_of_pop_of_ne popped (Ne.symm mine)]

theorem Profiled.size_result
    (run : Steps (Profiled.Step kernel selfOf image) (Profiled.start initialized result) hooks
      program) : program.result.size = result.size := by
  induction run with
  | nil => rfl
  | snoc _ last ih =>
      cases last with
      | begin other different => exact ih
      | finish other nothingOpen => exact ih
      | enter other function stored library alive hook =>
          rcases cygProfileFuncEnter_eq_some.mp hook with ⟨vma, -, isStored, -⟩
          exact (Block.store_eq_some isStored).2.trans ih
      | leave other function stored library rest alive popped hook =>
          rcases cygProfileFuncExit_eq_some.mp hook with ⟨vma, -, isStored, -⟩
          exact (Block.store_eq_some isStored).2.trans ih

/-- A hook is defined: the function has an object, its name fits, and its probe is defined. -/
theorem Profiled.exists_step {hostname : CString} {known : List CString}
    (run : Steps (Profiled.Step kernel selfOf image) (Profiled.start initialized result) hooks
      program)
    (idle : initialized.Idle known hostname) (noTraces : initialized.registry.traces = [])
    (hostnameFits : hostname.Fits) (size : result.size = fqnResultSize) {event : Event (BitVec 64)}
    (alive : thread ∈ program.live) {object : LoadedObject} (inImage : object ∈ image.objects)
    (contains : object.Contains event.label)
    (nested : ∃ stack, openAfter (functionsOf thread hooks ++ [event]) = some stack) :
    ∃ later, Profiled.Step kernel selfOf image program (.hook thread event) later := by
  rcases Profiled.exists_process run with ⟨process, ran, same⟩
  rcases Process.Traced.of_run idle noTraces ran with ⟨laterKnown, ids, traced⟩
  rcases nested with ⟨stack, nested⟩
  have isVma : controllerConvertToVma image event.label = some (event.label - object.lAddr) := by
    simp [controllerConvertToVma, image.dladdr1_of_contains inImage contains]
  have fits : (printPointer (event.label - object.lAddr)).Fits := by
    have short := length_printPointer_lt (event.label - object.lAddr)
    unfold fqnResultSize at short
    unfold CString.Fits bufferSize
    omega
  have classFits : (CString.literal "<package structure>").Fits := by decide
  -- The buffer was not resized, and it is long enough for any address.
  have room : 0 + ((printPointer (event.label - object.lAddr)).bytes ++ [0]).length ≤
      program.result.size := by
    have short := length_printPointer_lt (event.label - object.lAddr)
    rw [Profiled.size_result run, size, List.length_append, List.length_singleton, Nat.zero_add]
    exact short
  rcases Block.store_isSome program.result 0 _ room with ⟨stored, isStored⟩
  cases event with
  | enter function =>
      rcases probeBeforeOperationEvent_isSome kernel (selfOf thread) traced.idle hostnameFits
        classFits fits with ⟨after, probed⟩
      rw [same.library] at probed
      exact ⟨_, .enter program thread function stored after alive
        (cygProfileFuncEnter_eq_some.mpr ⟨_, isVma, isStored, probed⟩)⟩
  | leave function =>
      rcases probeAfterOperationEvent_isSome kernel (selfOf thread) traced.idle classFits fits with
        ⟨after, probed⟩
      rw [same.library] at probed
      rw [openAfter_concat, Profiled.openAfter_functionsOf run, Option.bind_some,
        openStep_leave_eq_some, List.map_eq_cons_iff] at nested
      rcases nested with ⟨call, calls, stacked, rfl, -⟩
      rcases pop_of_stackOf stacked with ⟨rest, popped⟩
      have own := owner_of_pop popped
      subst own
      exact ⟨_, .leave program call.1 call.2 stored after rest alive popped
        (cygProfileFuncExit_eq_some.mpr ⟨_, isVma, isStored, probed⟩)⟩

theorem Profiled.Step.live_hook {event : Event (BitVec 64)}
    (stepped : Profiled.Step kernel selfOf image program (.hook thread event) later) :
    later.live = program.live := by
  cases stepped <;> rfl

/-- Living threads can call the functions of loaded objects in any nested order. -/
theorem Profiled.exists_run {hostname : CString} {known : List CString}
    (run : Steps (Profiled.Step kernel selfOf image) (Profiled.start initialized result) hooks
      program)
    (idle : initialized.Idle known hostname) (noTraces : initialized.registry.traces = [])
    (hostnameFits : hostname.Fits) (size : result.size = fqnResultSize)
    (more : List (Thread × Event (BitVec 64)))
    (alive : ∀ call ∈ more, call.1 ∈ program.live)
    (loaded : ∀ call ∈ more, ∃ object ∈ image.objects, object.Contains call.2.label)
    (nested : ∀ thread, ∃ stack, openAfter (functionsOf thread (hooks ++
      more.map fun call => .hook call.1 call.2)) = some stack) :
    ∃ later, Steps (Profiled.Step kernel selfOf image) (Profiled.start initialized result)
      (hooks ++ more.map fun call => .hook call.1 call.2) later := by
  induction more generalizing hooks program with
  | nil => exact ⟨program, by simpa using run⟩
  | cons next more ih =>
      rcases next with ⟨thread, event⟩
      rcases loaded _ List.mem_cons_self with ⟨object, inImage, contains⟩
      have split : hooks ++ ((thread, event) :: more).map (fun call => .hook call.1 call.2) =
          hooks ++ [.hook thread event] ++ more.map fun call => .hook call.1 call.2 := by simp
      rw [split] at nested ⊢
      have nestedHere : ∃ stack, openAfter (functionsOf thread hooks ++ [event]) = some stack := by
        rcases nested thread with ⟨stack, whole⟩
        rw [functionsOf_append, openAfter_append, Option.bind_eq_some_iff, functionsOf_append,
          functionsOf_hook_self] at whole
        rcases whole with ⟨earlier, earlierEq, -⟩
        exact ⟨earlier, earlierEq⟩
      rcases Profiled.exists_step run idle noTraces hostnameFits size
        (alive _ List.mem_cons_self) inImage contains nestedHere with ⟨middle, stepped⟩
      refine ih (run.snoc stepped) ?_
        (fun call call_mem => loaded call (List.mem_cons_of_mem _ call_mem)) nested
      intro call call_mem
      rw [stepped.live_hook]
      exact alive call (List.mem_cons_of_mem _ call_mem)

/-! ### What a collector gets of the functions -/

/--
Among some collected traces is one of the functions of some events. If all of them
were left, it is their call tree, and every address in it can be read.
-/
def CollectsFunctions (image : ProcessImage)
    (traces : List (ℤ × Option (Forest WireOperation))) (id : ℤ)
    (events : List (Event (BitVec 64))) : Prop :=
  ∃ collected, traces.lookup id = some collected ∧
    (collected.isSome ↔ IsBalanced events) ∧
    ∀ functions : Forest (BitVec 64), functions.events = events →
      collected.map (Forest.map fun operation => some (readVma operation)) =
        some (functions.map (controllerConvertToVma image))

theorem Collects.functions {traces : List (ℤ × Option (Forest WireOperation))} {id : ℤ}
    {events : List (Event (BitVec 64))} {stack : List (BitVec 64)}
    (collects : Collects traces id (events.map (Event.map (functionOperation image))))
    (nested : openAfter events = some stack)
    (loaded : ∀ event ∈ events, ∃ vma, controllerConvertToVma image event.label = some vma) :
    CollectsFunctions image traces id events := by
  rcases collects with ⟨collected, found, isSome, isForest⟩
  refine ⟨collected, found, isSome.trans (isBalanced_map_iff nested), ?_⟩
  rintro functions rfl
  have named : collected = some ((functions.map (functionOperation image)).map
      Operation.onWire) := by
    rw [isForest, Forest.events_map, Forest.events_map]
  rw [named, Option.map_some, Forest.map_map, Forest.map_map]
  congr 1
  apply Forest.map_congr
  intro function isEntered
  rcases loaded _ isEntered with ⟨vma, isVma⟩
  rw [Event.label_enter] at isVma
  rw [isVma, Function.comp_apply, Function.comp_apply, readVma_functionOperation isVma]

end Kieker
