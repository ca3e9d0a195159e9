import WhuOs.Smp.States
import WhuOs.Trap.Frames

/-!
# Context switches

`swtch` keeps the registers of a thread in its `context_t` until the thread is
scheduled again.  The threads are the processes in the kernel and the schedulers
of the CPUs, in any interleaving of the steps of `Smp.machine`.
-/

namespace WhuOs
namespace Trap

open Library
open Library.Bytes
open Library.Assembly
open Mem (Unchanged InPage translate pteV)
open Process

variable {kernel : Mem.State} {trampoline : UInt64}
  {free : Bool → List UInt64}

/-! ## The data of the kernel -/

/-- The data of the kernel, which is in memory and not in a page table. -/
structure KernelData (kernel : Mem.State) (data : UInt64) (size : Nat) :
    Prop where
  low : memStart.toNat ≤ data.toNat
  high : data.toNat + size ≤ memEnd.toNat
  apart : ∀ page, IsKernelTable kernel page → ∀ address,
    InPage address page → ¬(data.toNat ≤ address ∧ address < data.toNat + size)

/-- The page table of the kernel is what it was after `kvm_init`. -/
def TablesKept (kernel : Mem.State) (bytes : Bytes) : Prop :=
  ∀ page, IsKernelTable kernel page → Unchanged page kernel.bytes bytes

/-- Changes of the data leave the page table alone. -/
theorem TablesKept.congr
    {data : UInt64} {size : Nat} {bytes bytes' : Bytes}
    (place : KernelData kernel data size) (kept : TablesKept kernel bytes)
    (same : ∀ address, ¬(data.toNat ≤ address ∧ address < data.toNat + size) →
      bytes' address = bytes address) : TablesKept kernel bytes' := by
  intro page isTable address inside
  rw [same address (place.apart page isTable address inside)]
  exact kept page isTable address inside

/-- The kernel sees its data where it is. -/
theorem translate_kept
    (started : KernelStarted kernel trampoline free) {bytes : Bytes}
    (kept : TablesKept kernel bytes) {va : UInt64} (low : memStart ≤ va)
    (high : va < memEnd) :
    translate bytes kernel.kernelPgtbl va = some (va, kernPerm ||| pteV) := by
  rcases started.areas with ⟨stack, areas⟩
  have same : translate (kernel.setBytes bytes).bytes kernel.kernelPgtbl va =
      translate kernel.bytes kernel.kernelPgtbl va := by
    refine translate_of_unchanged started.tables started.present ?_ va
    intro path bound notNull
    exact kept _ ⟨notNull, path, bound, rfl⟩
  rw [← mapOf_memory trampoline stack low high, ← areas va]
  exact same

/-- Data of the kernel is a frame for code of the kernel. -/
theorem data_frame
    (started : KernelStarted kernel trampoline free) {data : UInt64} {size : Nat}
    (place : KernelData kernel data size) {bytes : Bytes}
    (kept : TablesKept kernel bytes) {code : UInt64} (low : memStart ≤ code)
    (high : code < memEnd) {csrs : Csr → UInt64}
    (isSatp : csrs .satp = makeSatp kernel.kernelPgtbl) {start : UInt64}
    {length : Nat} (aligned : start.toNat % 8 = 0)
    (inside : data.toNat ≤ start.toNat ∧
      start.toNat + length ≤ data.toNat + size) :
    Frame (supervisor code code) csrs bytes start start length := by
  have placeLow := place.low
  have placeHigh := place.high
  have isEnd : memEnd.toNat = 0x88000000 := rfl
  have rootRam := started.ownedRam _
    (Or.inl ⟨started.present, [], Nat.zero_le 2, rfl⟩)
  have executable : permits (kernPerm ||| pteV) .fetch = true := by decide
  have readable : permits (kernPerm ||| pteV) .load = true := by decide
  have writable : permits (kernPerm ||| pteV) .store = true := by decide
  refine frame_of_translate rootRam.1 (root_small rootRam) isSatp (by omega)
    aligned executable readable writable ?_
  intro bytes' same
  have kept' : TablesKept kernel bytes' := by
    apply kept.congr place
    intro address outside
    apply same
    omega
  refine ⟨translate_kept started kept' low high, ?_⟩
  intro offset bound
  have address : (start + offset).toNat = start.toNat + offset.toNat := by
    rw [UInt64.toNat_add]
    omega
  apply translate_kept started kept'
  · rw [UInt64.le_iff_toNat_le]
    omega
  · rw [UInt64.lt_iff_toNat_lt]
    omega

/-! ## The code -/

theorem slots_context : Slots 112 contextSlots :=
  ⟨by decide, by decide, by decide⟩

/-- A context holds the registers that a function must not change. -/
def InContext (bytes : Bytes) (area : UInt64) (regs : Reg → UInt64) : Prop :=
  ∀ slot ∈ contextSlots, read64 bytes (area.toNat + slot.2.toNat) = regs slot.1

theorem InContext.congr
    {bytes bytes' : Bytes} {area : UInt64} {regs : Reg → UInt64}
    (inContext : InContext bytes area regs)
    (same : ∀ address, area.toNat ≤ address → address < area.toNat + 112 →
      bytes' address = bytes address) : InContext bytes' area regs := by
  intro slot member
  have inside := (slots_context.inside slot member).1
  rw [← inContext slot member]
  apply read64_congr
  intro index bound
  exact same _ (by omega) (by omega)

theorem inContext_saved
    (area : UInt64) (regs : Reg → UInt64) (bytes : Bytes) :
    InContext (savedBytes area regs contextSlots bytes) area regs :=
  fun _ member => read64_savedBytes slots_context member

/-- A hart after `swtch` from one context to another. -/
def switched (old new : UInt64) (hart : Hart) : Hart where
  regs := loadedRegs new (savedBytes old hart.regs contextSlots hart.bytes)
    contextSlots hart.regs
  csrs := hart.csrs
  bytes := savedBytes old hart.regs contextSlots hart.bytes

theorem run_swtch
    {platform : Platform Csr} {old new : UInt64} {hart : Hart}
    (isOld : hart.regs .a0 = old) (isNew : hart.regs .a1 = new)
    (oldFrame : Frame platform hart.csrs hart.bytes old old 112)
    (newFrame : Frame platform hart.csrs (switched old new hart).bytes new new
      112) :
    Assembly.run platform swtch hart = some (switched old new hart) := by
  rw [← isOld] at oldFrame
  have notA1 : ∀ slot ∈ contextSlots, slot.1 ≠ .a1 := by decide
  have saved : Frame platform hart.csrs (switched old new hart).bytes
      (hart.regs .a1) new 112 := by
    rw [isNew]
    exact newFrame
  calc Assembly.run platform swtch hart
    _ = Assembly.run platform (loads .a1 contextSlots)
          (hart.setBytes (switched old new hart).bytes) := by
        rw [switched, ← isOld]
        exact run_saves slots_context _ oldFrame
    _ = Assembly.run platform (loads .a1 contextSlots ++ [])
          (hart.setBytes (switched old new hart).bytes) := by
        rw [List.append_nil]
    _ = some (switched old new hart) := by
        rw [run_loads slots_context [] saved fun slot member isA1 =>
          absurd isA1 (notA1 slot member)]
        rfl

/-- After `swtch` the registers of the context are those that were saved in it,
and the others are what they were. -/
theorem switched_regs
    {old new : UInt64} {hart : Hart} {regs : Reg → UInt64}
    (apart : old.toNat + 112 ≤ new.toNat ∨ new.toNat + 112 ≤ old.toNat)
    (inContext : InContext hart.bytes new regs) (register : Reg) :
    (switched old new hart).regs register =
      if register ∈ contextSlots.map Prod.fst then regs register
      else hart.regs register := by
  have kept : InContext (switched old new hart).bytes new regs := by
    apply inContext.congr
    intro address low high
    apply savedBytes_sameOutside slots_context
    omega
  split
  · next member =>
      rcases List.mem_map.mp member with ⟨slot, isSlot, rfl⟩
      exact (loadedRegs_of_mem slots_context isSlot).trans (kept slot isSlot)
  · next outside =>
      apply loadedRegs_of_not_mem
      intro slot member same
      exact outside (List.mem_map.mpr ⟨slot, member, same⟩)

/-! ## Threads on harts -/

/-- A process in the kernel, or the scheduler of a hart. -/
abbrev KernelThread := Smp.Thread (Fin nCpu)

/-- Where `procs[i].ctx` and `cpus[i].ctx` are in the data of the kernel. -/
structure ContextPlaces (area : KernelThread → UInt64) (data : UInt64)
    (size : Nat) : Prop where
  aligned : ∀ thread, (area thread).toNat % 8 = 0
  inside : ∀ thread, data.toNat ≤ (area thread).toNat ∧
    (area thread).toNat + 112 ≤ data.toNat + size
  apart : ∀ thread other, thread ≠ other →
    (area thread).toNat + 112 ≤ (area other).toNat ∨
      (area other).toNat + 112 ≤ (area thread).toNat

/-- `proc_alloc` fills the context of a child. -/
def allocContext (forkReturn area : UInt64) (slot : Pid) (bytes : Bytes) :
    Bytes :=
  write64 (write64 (memmove bytes area.toNat (fun _ => 0) 112)
    area.toNat forkReturn) (area.toNat + 8) (kstackOf slot + 4096)

/-- The registers of a child. -/
def forkRegs (forkReturn : UInt64) (slot : Pid) : Reg → UInt64
  | .ra => forkReturn
  | .sp => kstackOf slot + 4096
  | _ => 0

/-- The machine of `Smp`, with memory and the registers of the harts.  Beside
them stand the registers with which the threads called `swtch`. -/
structure Switching where
  state : Smp.State (Fin nCpu)
  bytes : Bytes
  regs : Fin nCpu → Reg → UInt64
  contexts : KernelThread → Reg → UInt64

/-- A hart in the kernel that calls `swtch` for two threads. -/
structure CallsSwtch (kernel : Mem.State) (area : KernelThread → UInt64)
    (old new : KernelThread) (bytes : Bytes) (hart : Hart) : Prop where
  bytes : hart.bytes = bytes
  satp : hart.csrs .satp = makeSatp kernel.kernelPgtbl
  old : hart.regs .a0 = area old
  new : hart.regs .a1 = area new

/-- A step of the machine releases the lock of a child that was created. -/
def Spawns (before after : Smp.State (Fin nCpu)) (cpu : Fin nCpu) (slot : Pid) :
    Prop :=
  before.at cpu = .forkAlloc slot ∧ after.at cpu = .forkParent slot

section Switching

variable (kernel : Mem.State) (area : KernelThread → UInt64)
  (forkReturn code : UInt64) (allowed : Smp.Call → Prop)

/-- One step of a hart.  A thread that is replaced by another calls `swtch`. -/
inductive SwitchStep : Switching → Fin nCpu → Switching → Prop
  /-- Other code runs on the registers of the hart. -/
  | work {before : Switching} {cpu : Fin nCpu} {regs : Reg → UInt64}
      {bytes : Bytes} :
      (∀ thread address, (area thread).toNat ≤ address →
        address < (area thread).toNat + 112 →
        bytes address = before.bytes address) →
      (∀ page, IsKernelTable kernel page →
        Unchanged page before.bytes bytes) →
      SwitchStep before cpu ⟨before.state, bytes,
        Function.update before.regs cpu regs, before.contexts⟩
  | move {before : Switching} {cpu : Fin nCpu}
      {after : Smp.State (Fin nCpu)} :
      Smp.Step allowed before.state cpu after →
      after.thread cpu = before.state.thread cpu →
      (∀ slot, ¬Spawns before.state after cpu slot) →
      SwitchStep before cpu ⟨after, before.bytes, before.regs, before.contexts⟩
  | spawn {before : Switching} {cpu : Fin nCpu}
      {after : Smp.State (Fin nCpu)} {slot : Pid} :
      Smp.Step allowed before.state cpu after →
      after.thread cpu = before.state.thread cpu →
      Spawns before.state after cpu slot →
      SwitchStep before cpu ⟨after,
        allocContext forkReturn (area (.proc slot)) slot before.bytes,
        before.regs, Function.update before.contexts (.proc slot)
          (forkRegs forkReturn slot)⟩
  | switch {before : Switching} {cpu : Fin nCpu}
      {after : Smp.State (Fin nCpu)} {hart left : Hart} :
      Smp.Step allowed before.state cpu after →
      after.thread cpu ≠ before.state.thread cpu →
      CallsSwtch kernel area (before.state.thread cpu) (after.thread cpu)
        before.bytes hart →
      hart.regs = before.regs cpu →
      Assembly.run (supervisor code code) swtch hart = some left →
      SwitchStep before cpu ⟨after, left.bytes,
        Function.update before.regs cpu left.regs,
        Function.update before.contexts (before.state.thread cpu) hart.regs⟩

/-- Harts from the first schedulers on. -/
def switchSystem : TransitionSystem Switching (Fin nCpu) where
  Init switching := Smp.Booted switching.state ∧
    TablesKept kernel switching.bytes ∧
    ∀ slot, InContext switching.bytes (area (.proc slot))
      (switching.contexts (.proc slot))
  Step := SwitchStep kernel area forkReturn code allowed

end Switching

/-- `proc_fork` does not hit a child that runs or has exited. -/
def ForksOk (switching : Switching) (cpu : Fin nCpu) : Prop :=
  Smp.RetakeOk switching.state cpu

/-- Threads that run on no hart are in their contexts. -/
structure SwitchHolds (kernel : Mem.State) (area : KernelThread → UInt64)
    (switching : Switching) : Prop where
  sane : Smp.Sane switching.state
  kept : TablesKept kernel switching.bytes
  parked : ∀ thread, (∀ cpu, switching.state.thread cpu ≠ thread) →
    InContext switching.bytes (area thread) (switching.contexts thread)

section Steps

variable {area : KernelThread → UInt64} {forkReturn code : UInt64}
  {allowed : Smp.Call → Prop} {state after : Smp.State (Fin nCpu)}
  {cpu : Fin nCpu} {data : UInt64} {size : Nat}

/-- The other CPUs go on with their threads. -/
theorem thread_other
    (step : Smp.Step allowed state cpu after) {other : Fin nCpu}
    (differs : other ≠ cpu) : after.thread other = state.thread other := by
  have current : after.current other = state.current other := by
    cases step with
    | call => rfl
    | interrupt => rfl
    | round => rfl
    | act => rfl
    | spawn => rfl
    | park => exact Function.update_of_ne differs _ _
    | pick => exact Function.update_of_ne differs _ _
  unfold Smp.State.thread
  rw [current]

/-- A thread that rests did so before, unless it just left its CPU. -/
theorem rests_before
    (step : Smp.Step allowed state cpu after) {thread : KernelThread}
    (notOld : state.thread cpu ≠ thread)
    (rests : ∀ other, after.thread other ≠ thread) (other : Fin nCpu) :
    state.thread other ≠ thread := by
  by_cases isCpu : other = cpu
  · rw [isCpu]
    exact notOld
  · rw [← thread_other step isCpu]
    exact rests other

/-- A thread that comes to a CPU runs on no CPU before. -/
theorem thread_new
    (sane : Smp.Sane after) (step : Smp.Step allowed state cpu after)
    (differs : after.thread cpu ≠ state.thread cpu) (other : Fin nCpu) :
    state.thread other ≠ after.thread cpu := by
  intro same
  by_cases isCpu : other = cpu
  · rw [isCpu] at same
    exact differs same.symm
  · rw [← thread_other step isCpu] at same
    exact isCpu (sane.thread_injective same)

theorem forkRegs_of_ne
    (forkReturn : UInt64) (slot : Pid) {register : Reg}
    (notRa : register ≠ .ra) (notSp : register ≠ .sp) :
    forkRegs forkReturn slot register = 0 := by
  cases register
  case ra => exact absurd rfl notRa
  case sp => exact absurd rfl notSp
  all_goals rfl

/-- The context of a child is filled. -/
theorem inContext_alloc
    (forkReturn start : UInt64) (slot : Pid) (bytes : Bytes) :
    InContext (allocContext forkReturn start slot bytes) start
      (forkRegs forkReturn slot) := by
  have facts : ∀ field ∈ contextSlots, field = (.ra, 0) ∨ field = (.sp, 8) ∨
      (field.1 ≠ .ra ∧ field.1 ≠ .sp ∧ 16 ≤ field.2.toNat) := by decide
  intro field member
  have inside := (slots_context.inside field member).1
  unfold allocContext
  rcases facts field member with rfl | rfl | ⟨notRa, notSp, behind⟩
  · refine (read64_memmove_of_disjoint _ _ (Or.inl ?_)).trans
      (read64_write64 _ _ _)
    exact Nat.le_refl _
  · exact read64_write64 _ _ _
  · rw [forkRegs_of_ne forkReturn slot notRa notSp]
    refine (read64_memmove_of_disjoint _ _ ?_).trans
      ((read64_memmove_of_disjoint _ _ ?_).trans (read64_cleared bytes ?_))
    all_goals omega

/-- Filling a context changes nothing else. -/
theorem allocContext_outside
    (forkReturn start : UInt64) (slot : Pid) (bytes : Bytes) {address : Nat}
    (outside : ¬(start.toNat ≤ address ∧ address < start.toNat + 112)) :
    allocContext forkReturn start slot bytes address = bytes address := by
  unfold allocContext
  refine (memmove_of_not_mem _ _ ?_).trans ((memmove_of_not_mem _ _ ?_).trans
    (memmove_of_not_mem _ _ outside))
  all_goals omega

/-- Contexts of other threads are not changed. -/
theorem ContextPlaces.other
    (places : ContextPlaces area data size) {thread other : KernelThread}
    (differs : other ≠ thread) {bytes bytes' : Bytes} {regs : Reg → UInt64}
    (same : ∀ address, ¬((area thread).toNat ≤ address ∧
      address < (area thread).toNat + 112) → bytes' address = bytes address)
    (inContext : InContext bytes (area other) regs) :
    InContext bytes' (area other) regs := by
  have apart := places.apart other thread differs
  apply inContext.congr
  intro address low high
  apply same
  omega

/-- A context is in the data of the kernel. -/
theorem ContextPlaces.kept
    (places : ContextPlaces area data size) (thread : KernelThread)
    (place : KernelData kernel data size) {bytes bytes' : Bytes}
    (kept : TablesKept kernel bytes)
    (same : ∀ address, ¬((area thread).toNat ≤ address ∧
      address < (area thread).toNat + 112) → bytes' address = bytes address) :
    TablesKept kernel bytes' := by
  have inside := places.inside thread
  apply kept.congr place
  intro address outside
  apply same
  omega

theorem switched_outside
    (old new : UInt64) (hart : Hart) {address : Nat}
    (outside : ¬(old.toNat ≤ address ∧ address < old.toNat + 112)) :
    (switched old new hart).bytes address = hart.bytes address :=
  savedBytes_sameOutside slots_context hart.regs hart.bytes address outside

/-- A hart that calls `swtch` gets through it. -/
theorem runs_swtch
    (started : KernelStarted kernel trampoline free)
    (place : KernelData kernel data size)
    (places : ContextPlaces area data size) (low : memStart ≤ code)
    (high : code < memEnd) {bytes : Bytes} (kept : TablesKept kernel bytes)
    {old new : KernelThread} {hart : Hart}
    (calls : CallsSwtch kernel area old new bytes hart) :
    Assembly.run (supervisor code code) swtch hart =
      some (switched (area old) (area new) hart) := by
  have kept' : TablesKept kernel hart.bytes := by
    rw [calls.bytes]
    exact kept
  have after := places.kept old place kept' fun address outside =>
    switched_outside (area old) (area new) hart outside
  apply run_swtch calls.old calls.new
  · exact data_frame started place kept' low high calls.satp
      (places.aligned old) (places.inside old)
  · exact data_frame started place after low high calls.satp
      (places.aligned new) (places.inside new)

namespace SwitchHolds

variable {before next : Switching}

/-- Every step leaves threads that do not run in their contexts. -/
theorem step
    (started : KernelStarted kernel trampoline free)
    (place : KernelData kernel data size)
    (places : ContextPlaces area data size) (low : memStart ≤ code)
    (high : code < memEnd) (holds : SwitchHolds kernel area before)
    (forksOk : ForksOk before cpu)
    (step : SwitchStep kernel area forkReturn code allowed before cpu next) :
    SwitchHolds kernel area next := by
  cases step with
  | work same tables =>
      refine ⟨holds.sane, ?_, ?_⟩
      · intro page isTable
        exact (holds.kept page isTable).trans (tables page isTable)
      · intro thread rests
        exact (holds.parked thread rests).congr (same thread)
  | move step stays _ =>
      refine ⟨holds.sane.step forksOk step, holds.kept, ?_⟩
      intro thread rests
      have notOld := rests cpu
      rw [stays] at notOld
      exact holds.parked thread (rests_before step notOld rests)
  | @spawn after slot step stays spawns =>
      have outside : ∀ address, ¬((area (.proc slot)).toNat ≤ address ∧
          address < (area (.proc slot)).toNat + 112) →
          allocContext forkReturn (area (.proc slot)) slot before.bytes
            address = before.bytes address := fun address outside =>
        allocContext_outside forkReturn _ slot before.bytes outside
      refine ⟨holds.sane.step forksOk step,
        places.kept _ place holds.kept outside, ?_⟩
      intro thread rests
      have notOld := rests cpu
      rw [stays] at notOld
      dsimp only
      by_cases isChild : thread = .proc slot
      · rw [isChild, Function.update_self]
        exact inContext_alloc forkReturn _ slot before.bytes
      · rw [Function.update_of_ne isChild]
        exact places.other isChild outside
          (holds.parked thread (rests_before step notOld rests))
  | @switch after hart left step differs calls isHart runs =>
      have isLeft := runs_swtch started place places low high holds.kept calls
      rw [Option.some.inj (runs.symm.trans isLeft)]
      have outside : ∀ address,
          ¬((area (before.state.thread cpu)).toNat ≤ address ∧
            address < (area (before.state.thread cpu)).toNat + 112) →
          (switched (area (before.state.thread cpu)) (area (after.thread cpu))
            hart).bytes address = before.bytes address := by
        intro address outside
        rw [← calls.bytes]
        exact switched_outside _ _ hart outside
      refine ⟨holds.sane.step forksOk step,
        places.kept _ place holds.kept outside, ?_⟩
      intro thread rests
      dsimp only
      by_cases isOld : thread = before.state.thread cpu
      · rw [isOld, Function.update_self]
        exact inContext_saved _ hart.regs hart.bytes
      · rw [Function.update_of_ne isOld]
        exact places.other isOld outside
          (holds.parked thread (rests_before step (Ne.symm isOld) rests))

theorem of_reachable
    (started : KernelStarted kernel trampoline free)
    (place : KernelData kernel data size)
    (places : ContextPlaces area data size) (low : memStart ≤ code)
    (high : code < memEnd)
    (reachable : (switchSystem kernel area forkReturn code allowed).ReachableBy
      ForksOk before) : SwitchHolds kernel area before := by
  apply reachable.invariant
  · rintro switching ⟨booted, kept, inContexts⟩
    refine ⟨booted.sane, kept, ?_⟩
    intro thread rests
    cases thread with
    | proc slot => exact inContexts slot
    | sched cpu =>
        apply absurd _ (rests cpu)
        unfold Smp.State.thread
        rw [booted.current cpu]
  · intro before cpu next holds forksOk taken
    exact holds.step started place places low high forksOk taken

end SwitchHolds

/-- The registers that `swtch` keeps in a context. -/
def contextRegs : List Reg :=
  contextSlots.map Prod.fst

/-- In every run in which `proc_fork` does not hit a child that runs or has
exited, a hart that calls `swtch` gets through it.  The thread that comes back
has the registers of a context with which it called `swtch` itself or was
forked, on whatever hart, and the other registers are those of the hart. -/
theorem threads_resume
    (started : StartedWith trampoline kernel)
    (place : KernelData kernel data size)
    (places : ContextPlaces area data size) (low : memStart ≤ code)
    (high : code < memEnd)
    (reachable : (switchSystem kernel area forkReturn code allowed).ReachableBy
      ForksOk before)
    (forksOk : ForksOk before cpu)
    (step : Smp.Step allowed before.state cpu after)
    (differs : after.thread cpu ≠ before.state.thread cpu) {hart : Hart}
    (calls : CallsSwtch kernel area (before.state.thread cpu)
      (after.thread cpu) before.bytes hart) :
    ∃ left, Assembly.run (supervisor code code) swtch hart = some left ∧
      left.csrs = hart.csrs ∧
      ∀ register, left.regs register = if register ∈ contextRegs then
        before.contexts (after.thread cpu) register else hart.regs register := by
  rcases started.started with ⟨free, isStarted⟩
  have holds := SwitchHolds.of_reachable isStarted place places low high
    reachable
  have sane := holds.sane.step forksOk step
  have inContext := holds.parked (after.thread cpu)
    (thread_new sane step differs)
  rw [← calls.bytes] at inContext
  exact ⟨_, runs_swtch isStarted place places low high holds.kept calls, rfl,
    switched_regs (places.apart _ _ (Ne.symm differs)) inContext⟩

end Steps

/-! ## The first context switch -/

/-- The place of a thread in an array of contexts. -/
def threadIndex : KernelThread → Nat
  | .proc slot => slot
  | .sched cpu => nProc + cpu

/-- An array of contexts in the data of the kernel. -/
def smallArea (thread : KernelThread) : UInt64 :=
  0x80010000 + 112 * UInt64.ofNat (threadIndex thread)

theorem threadIndex_lt (thread : KernelThread) : threadIndex thread < 66 := by
  have processes : nProc = 64 := rfl
  have processors : nCpu = 2 := rfl
  cases thread with
  | proc slot =>
      have bound := slot.isLt
      change (slot : Nat) < 66
      omega
  | sched cpu =>
      have bound := cpu.isLt
      change nProc + cpu < 66
      omega

theorem smallArea_toNat (thread : KernelThread) :
    (smallArea thread).toNat = 0x80010000 + 112 * threadIndex thread := by
  have bound := threadIndex_lt thread
  unfold smallArea
  rw [UInt64.toNat_add, UInt64.toNat_mul, UInt64.toNat_ofNat']
  change (0x80010000 + 112 * (threadIndex thread % 2 ^ 64) % 2 ^ 64) % 2 ^ 64 = _
  omega

theorem threadIndex_ne {thread other : KernelThread} (differ : thread ≠ other) :
    threadIndex thread ≠ threadIndex other := by
  intro same
  apply differ
  cases thread with
  | proc slot =>
      cases other with
      | proc slot' => exact congrArg Smp.Thread.proc (Fin.ext same)
      | sched cpu =>
          have bound := slot.isLt
          change (slot : Nat) = nProc + cpu at same
          omega
  | sched cpu =>
      cases other with
      | proc slot =>
          have bound := slot.isLt
          change nProc + cpu = (slot : Nat) at same
          omega
      | sched cpu' =>
          exact congrArg Smp.Thread.sched (Fin.ext (Nat.add_left_cancel same))

theorem contextPlaces_small : ContextPlaces smallArea 0x80010000 7392 := by
  have isData : (0x80010000 : UInt64).toNat = 0x80010000 := rfl
  refine ⟨?_, ?_, ?_⟩
  · intro thread
    rw [smallArea_toNat]
    omega
  · intro thread
    have bound := threadIndex_lt thread
    rw [smallArea_toNat, isData]
    omega
  · intro thread other differ
    have differs := threadIndex_ne differ
    rw [smallArea_toNat, smallArea_toNat]
    omega

/-- A kernel with its data before its pages. -/
theorem exists_kernelData :
    ∃ kernel : Mem.State, StartedWith 0x80005000 kernel ∧
      KernelData kernel 0x80010000 7392 := by
  rcases exists_boot smallLayout someUser_smallLayout
    (show Mem.Aligned 0x80005000 by decide) (by decide) (by decide) smallBoot
    (by decide) Mem.emptyState with ⟨mem, kernel, _, init, kvm, started, _⟩
  rcases started.started with ⟨free, isStarted⟩
  refine ⟨kernel, started, by decide, by decide, ?_⟩
  intro page isTable address inside
  have behind := kernelTable_behind init someUser_smallLayout
    (show Mem.Aligned 0x80005000 by decide) kvm isTable
    (isStarted.ownedRam page (Or.inl isTable))
  have isBegin : smallLayout.allocBegin.toNat = 0x80020000 := rfl
  have isData : (0x80010000 : UInt64).toNat = 0x80010000 := rfl
  rw [UInt64.le_iff_toNat_le, isBegin] at behind
  have low := inside.1
  rw [isData]
  omega

/-- The scheduler of the first hart switches to the first process. -/
theorem threads_resume_first :
    ∃ (kernel : Mem.State) (hart left : Hart),
      hart.regs .a0 = smallArea (.sched 0) ∧
      hart.regs .a1 = smallArea (.proc 0) ∧
      hart.csrs .satp = makeSatp kernel.kernelPgtbl ∧
      Assembly.run (supervisor 0x80001000 0x80001000) swtch hart = some left ∧
      left.csrs = hart.csrs := by
  rcases exists_kernelData with ⟨kernel, started, place⟩
  let boot := Smp.bootState (Fin nCpu)
  let scans : Smp.State (Fin nCpu) := ⟨boot.shared, boot.locks, boot.current,
    Function.update boot.control (.sched 0) (.scan (Smp.roundFrom 63)), 63⟩
  let picked : Smp.State (Fin nCpu) := ⟨scans.shared.setState 0 .running,
    Function.update scans.locks (.proc 0) (some 0),
    Function.update scans.current 0 (some 0), scans.control, 0⟩
  let contexts : KernelThread → Reg → UInt64 := fun thread =>
    loadedRegs (smallArea thread) kernel.bytes contextSlots fun _ => 0
  let first : Switching := ⟨boot, kernel.bytes, fun _ _ => 0, contexts⟩
  let second : Switching := ⟨scans, kernel.bytes, fun _ _ => 0, contexts⟩
  let hart : Hart := ⟨fun register =>
      if register = .a0 then smallArea (.sched 0) else smallArea (.proc 0),
    fun _ => makeSatp kernel.kernelPgtbl, kernel.bytes⟩
  have isScan : ∃ rest, scans.control (.sched 0) = .scan (0 :: rest) := by
    refine ⟨(Smp.roundFrom 63).tail, ?_⟩
    decide
  rcases isScan with ⟨rest, isScan⟩
  have start : (switchSystem kernel smallArea 0x80001000 0x80001000
      fun _ => True).ReachableBy ForksOk first := by
    refine .init ⟨Smp.bootState_booted, fun _ _ _ _ => rfl, ?_⟩
    intro slot field member
    exact (loadedRegs_of_mem slots_context member).symm
  have okFirst : ForksOk first 0 := by
    intro slot isRetake
    cases isRetake
  have round : Smp.Step (fun _ => True) boot 0 scans := .round rfl rfl
  have scanned : (switchSystem kernel smallArea 0x80001000 0x80001000
      fun _ => True).ReachableBy ForksOk second := by
    refine start.step okFirst (.move round rfl ?_)
    rintro slot ⟨isAlloc, _⟩
    cases isAlloc
  have okSecond : ForksOk second 0 := by
    intro slot isRetake
    cases isScan.symm.trans isRetake
  have pick : Smp.Step (fun _ => True) scans 0 picked :=
    .pick rfl isScan rfl rfl
  have differs : picked.thread 0 ≠ scans.thread 0 := by
    intro same
    cases same
  have calls : CallsSwtch kernel smallArea (scans.thread 0) (picked.thread 0)
      kernel.bytes hart := ⟨rfl, rfl, rfl, rfl⟩
  rcases threads_resume started place contextPlaces_small
    (show memStart ≤ 0x80001000 by decide) (by decide) scanned okSecond pick
    differs calls with ⟨left, runs, sameCsrs, _⟩
  exact ⟨kernel, hart, left, rfl, rfl, rfl, runs, sameCsrs⟩

end Trap
end WhuOs
