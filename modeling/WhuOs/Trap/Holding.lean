import WhuOs.Trap.Frames
import WhuOs.Trap.Saved

/-!
# Steps of harts and of the kernel

Every step keeps the contexts of the processes: on the harts that run their
code, and in the trapframes of those that rest.
-/

namespace WhuOs
namespace Trap

open Library
open Library.Bytes
open Library.Assembly
open Mem
open Process

/-! ## The invariant -/

/-- A hart that runs the code of a process can get back into the kernel. -/
structure UserReady (symbols : Symbols) (kernelPgtbl : UInt64)
    (state : Process.State) (slot : Pid) (cpu : Fin nCpu) (csrs : Csr → UInt64) :
    Prop where
  satp : csrs .satp = makeSatp (pgtbls state slot)
  sscratch : csrs .sscratch = trapframeVa
  stvec : csrs .stvec = trampolineVa + symbols.userVector
  kernelSatp : read64 state.mem.bytes (state.procs slot).tf.toNat =
    makeSatp kernelPgtbl
  kernelSp : read64 state.mem.bytes ((state.procs slot).tf.toNat + 8) =
    (state.procs slot).kstack + 4096
  kernelTrap : read64 state.mem.bytes ((state.procs slot).tf.toNat + 16) =
    symbols.trapUserHandler
  hartid : read64 state.mem.bytes ((state.procs slot).tf.toNat + 32) =
    UInt64.ofNat cpu

/-- A process and the harts, beside the context the process should have. -/
structure SlotHolds (symbols : Symbols) (kernelPgtbl : UInt64)
    (machine : Machine) (context : Context) (slot : Pid) : Prop where
  even : context.pc.toNat % 2 = 0
  resting : machine.Rests slot →
    Saved machine.run.state.mem.bytes (machine.run.state.procs slot).tf context
  running : ∀ cpu pc, (machine.cpus cpu).user = some (slot, pc) →
    machine.run.state.Alive slot ∧ (machine.cpus cpu).regs = context.regs ∧
      pc = context.pc ∧
      UserReady symbols kernelPgtbl machine.run.state slot cpu
        (machine.cpus cpu).csrs

/-- Harts in the kernel have the address space of the kernel. -/
structure HartsHold (kernelPgtbl : UInt64) (machine : Machine) : Prop where
  alone : ∀ cpu cpu' slot pc pc', (machine.cpus cpu).user = some (slot, pc) →
    (machine.cpus cpu').user = some (slot, pc') → cpu = cpu'
  inKernel : ∀ cpu, (machine.cpus cpu).user = none →
    (machine.cpus cpu).csrs .satp = makeSatp kernelPgtbl ∧
      (machine.cpus cpu).regs .tp = UInt64.ofNat cpu

/-- All processes have the contexts they should have. -/
structure MachineHolds (symbols : Symbols) (kernel : Mem.State)
    (trampoline : UInt64) (machine : Machine) (contexts : Pid → Context) :
    Prop where
  reachable : (lifeSystem kernel trampoline).ReachableBy WaitsBelow machine.run
  harts : HartsHold kernel.kernelPgtbl machine
  occupied : ∀ cpu slot pc, (machine.cpus cpu).user = some (slot, pc) →
    (machine.run.state.procs slot).state ≠ .unused
  slots : ∀ slot, (machine.run.state.procs slot).state ≠ .unused →
    SlotHolds symbols kernel.kernelPgtbl machine (contexts slot) slot

variable {symbols : Symbols} {kernel : Mem.State} {trampoline : UInt64}
  {kernelPgtbl : UInt64} {machine machine' : Machine}
  {contexts contexts' : Pid → Context} {slot : Pid} {cpu : Fin nCpu}
  {free : Bool → List UInt64}

namespace UserReady

variable {before after : Process.State} {csrs : Csr → UInt64}

theorem congr
    (ready : UserReady symbols kernelPgtbl before slot cpu csrs)
    (same : SameFrame (before.procs slot) (after.procs slot))
    (unchanged : Unchanged (before.procs slot).tf before.mem.bytes
      after.mem.bytes) :
    UserReady symbols kernelPgtbl after slot cpu csrs := by
  have field : ∀ offset, offset + 8 ≤ 4096 →
      read64 after.mem.bytes ((after.procs slot).tf.toNat + offset) =
        read64 before.mem.bytes ((before.procs slot).tf.toNat + offset) := by
    intro offset inside
    rw [same.tf]
    exact read64_of_unchanged unchanged inside
  refine ⟨?_, ready.sscratch, ready.stvec, ?_, ?_, ?_, ?_⟩
  · rw [ready.satp]
    exact congrArg makeSatp same.pgtbl.symm
  · exact (field 0 (by decide)).trans ready.kernelSatp
  · rw [field 8 (by decide), same.kstack]
    exact ready.kernelSp
  · exact (field 16 (by decide)).trans ready.kernelTrap
  · exact (field 32 (by decide)).trans ready.hartid

end UserReady

/-- A hart changes for reasons that have nothing to do with a process. -/
def SameCpu (slot : Pid) (before after : Cpu) : Prop :=
  after = before ∨
    (∀ pc, before.user ≠ some (slot, pc)) ∧ ∀ pc, after.user ≠ some (slot, pc)

theorem setCpu_self (machine : Machine) (cpu : Fin nCpu) (after : Cpu) :
    (machine.setCpu cpu after).cpus cpu = after := Function.update_self _ _ _

theorem setCpu_of_ne
    (machine : Machine) {cpu other : Fin nCpu} (differs : other ≠ cpu)
    (after : Cpu) :
    (machine.setCpu cpu after).cpus other = machine.cpus other :=
  Function.update_of_ne differs _ _

namespace HartsHold

/-- A hart is in the kernel. -/
theorem setKernel
    (harts : HartsHold kernelPgtbl machine) {regs : Reg → UInt64}
    {csrs : Csr → UInt64} (satp : csrs .satp = makeSatp kernelPgtbl)
    (tp : regs .tp = UInt64.ofNat cpu) :
    HartsHold kernelPgtbl (machine.setCpu cpu ⟨regs, csrs, none⟩) := by
  constructor
  · intro first second slot pc pc' isFirst isSecond
    have notFirst : first ≠ cpu := by
      rintro rfl
      rw [setCpu_self] at isFirst
      cases isFirst
    have notSecond : second ≠ cpu := by
      rintro rfl
      rw [setCpu_self] at isSecond
      cases isSecond
    rw [setCpu_of_ne _ notFirst] at isFirst
    rw [setCpu_of_ne _ notSecond] at isSecond
    exact harts.alone first second slot pc pc' isFirst isSecond
  · intro other isKernel
    by_cases isCpu : other = cpu
    · rw [isCpu, setCpu_self]
      exact ⟨satp, tp⟩
    · rw [setCpu_of_ne _ isCpu] at isKernel ⊢
      exact harts.inKernel other isKernel

/-- A hart runs the code of a process that no other hart runs. -/
theorem setUser
    (harts : HartsHold kernelPgtbl machine) {regs : Reg → UInt64}
    {csrs : Csr → UInt64} {pc : UInt64}
    (only : ∀ other pc, (machine.cpus other).user = some (slot, pc) →
      other = cpu) :
    HartsHold kernelPgtbl
      (machine.setCpu cpu ⟨regs, csrs, some (slot, pc)⟩) := by
  have here : ∀ other pc', ((machine.setCpu cpu
      ⟨regs, csrs, some (slot, pc)⟩).cpus other).user = some (slot, pc') →
      other = cpu := by
    intro other pc' isUser
    by_contra differs
    rw [setCpu_of_ne _ differs] at isUser
    exact differs (only other pc' isUser)
  constructor
  · intro first second other pc₁ pc₂ isFirst isSecond
    by_cases isSlot : other = slot
    · rw [isSlot] at isFirst isSecond
      rw [here first pc₁ isFirst, here second pc₂ isSecond]
    · have notFirst : first ≠ cpu := by
        rintro rfl
        rw [setCpu_self] at isFirst
        cases isFirst
        exact isSlot rfl
      have notSecond : second ≠ cpu := by
        rintro rfl
        rw [setCpu_self] at isSecond
        cases isSecond
        exact isSlot rfl
      rw [setCpu_of_ne _ notFirst] at isFirst
      rw [setCpu_of_ne _ notSecond] at isSecond
      exact harts.alone first second other pc₁ pc₂ isFirst isSecond
  · intro other isKernel
    have differs : other ≠ cpu := by
      rintro rfl
      rw [setCpu_self] at isKernel
      cases isKernel
    rw [setCpu_of_ne _ differs] at isKernel ⊢
    exact harts.inKernel other isKernel

end HartsHold

/-- Only one hart changes, and it has nothing to do with a process. -/
theorem sameCpu_setCpu
    {other : Pid} {after : Cpu}
    (before : ∀ pc, (machine.cpus cpu).user ≠ some (other, pc))
    (notAfter : ∀ pc, after.user ≠ some (other, pc)) (cpu' : Fin nCpu) :
    SameCpu other (machine.cpus cpu') ((machine.setCpu cpu after).cpus cpu') := by
  by_cases isCpu : cpu' = cpu
  · rw [isCpu, setCpu_self]
    exact Or.inr ⟨before, notAfter⟩
  · rw [setCpu_of_ne _ isCpu]
    exact Or.inl rfl

/-- A process that a step leaves alone. -/
theorem SlotHolds.congr
    {context : Context}
    (holds : SlotHolds symbols kernelPgtbl machine context slot)
    (cpus : ∀ cpu, SameCpu slot (machine.cpus cpu) (machine'.cpus cpu))
    (same : SameFrame (machine.run.state.procs slot)
      (machine'.run.state.procs slot))
    (unchanged : Unchanged (machine.run.state.procs slot).tf
      machine.run.state.mem.bytes machine'.run.state.mem.bytes)
    (alive : (∃ cpu pc, (machine.cpus cpu).user = some (slot, pc)) →
      machine.run.state.Alive slot → machine'.run.state.Alive slot) :
    SlotHolds symbols kernelPgtbl machine' context slot := by
  refine ⟨holds.even, ?_, ?_⟩
  · intro rests
    have rested : machine.Rests slot := by
      intro cpu pc isUser
      rcases cpus cpu with isSame | ⟨notBefore, _⟩
      · rw [← isSame] at isUser
        exact rests cpu pc isUser
      · exact notBefore pc isUser
    rw [same.tf]
    exact (holds.resting rested).of_unchanged unchanged
  · intro cpu pc isUser
    rcases cpus cpu with isSame | ⟨_, notAfter⟩
    · rw [isSame] at isUser ⊢
      rcases holds.running cpu pc isUser with ⟨isAlive, regs, isPc, ready⟩
      exact ⟨alive ⟨cpu, pc, isUser⟩ isAlive, regs, isPc,
        ready.congr same unchanged⟩
    · exact absurd isUser (notAfter pc)

/-! ## Steps -/

/-- A store to the trapframe of a process is a step of the process. -/
theorem lifeStep_setBytes
    (alive : machine.run.state.Alive slot) {bytes : Bytes}
    (changed : ChangedIn (machine.run.state.procs slot).tf
      machine.run.state.mem.bytes bytes) :
    LifeStep machine.run (slot, .trap) (machine.setBytes bytes).run :=
  .trap alive changed

namespace MachineHolds

/-- The memory and the processes are as in a run of processes. -/
theorem life
    (started : KernelStarted kernel trampoline free)
    (holds : MachineHolds symbols kernel trampoline machine contexts) :
    LifeHolds (kernelPart kernel trampoline) trampoline machine.run :=
  LifeHolds.of_reachable started holds.reachable

/-- The trapframe of another process. -/
theorem unchanged_other
    (started : KernelStarted kernel trampoline free)
    (holds : MachineHolds symbols kernel trampoline machine contexts)
    (isUsed : (machine.run.state.procs slot).state ≠ .unused) {bytes : Bytes}
    (changed : ChangedIn (machine.run.state.procs slot).tf
      machine.run.state.mem.bytes bytes) {other : Pid} (differs : other ≠ slot)
    (isUsed' : (machine.run.state.procs other).state ≠ .unused) :
    Unchanged (machine.run.state.procs other).tf
      machine.run.state.mem.bytes bytes := by
  rcases (holds.life started).spaces with ⟨free', held, spaces⟩
  have isTf := spaces.trapframe slot
  have isTf' := spaces.trapframe other
  rw [← isTf] at changed
  rw [← isTf']
  apply spaces.user.unchanged_write (spaces.trapframe_some isUsed)
    (spaces.trapframe_some isUsed') _ changed
  intro same
  cases same
  exact differs rfl

/-- Registers are stored in the trapframe of a process that rests, by a hart
that does not run it or that leaves it. -/
theorem store
    (started : KernelStarted kernel trampoline free)
    (holds : MachineHolds symbols kernel trampoline machine contexts)
    (alive : machine.run.state.Alive slot) {bytes : Bytes}
    (changed : ChangedIn (machine.run.state.procs slot).tf
      machine.run.state.mem.bytes bytes)
    (sameRun : machine'.run = (machine.setBytes bytes).run)
    (cpus : ∀ other, other ≠ slot → ∀ cpu,
      SameCpu other (machine.cpus cpu) (machine'.cpus cpu))
    (harts : HartsHold kernel.kernelPgtbl machine')
    (others : ∀ other, other ≠ slot → contexts' other = contexts other)
    (here : SlotHolds symbols kernel.kernelPgtbl machine' (contexts' slot)
      slot) :
    MachineHolds symbols kernel trampoline machine' contexts' := by
  refine ⟨?_, harts, ?_, ?_⟩
  · have below : WaitsBelow machine.run (slot, .trap) := trivial
    rw [sameRun]
    exact .step holds.reachable below (lifeStep_setBytes alive changed)
  · intro cpu other pc isUser
    rw [sameRun]
    by_cases isSlot : other = slot
    · rw [isSlot]
      exact alive.1
    · rcases cpus other isSlot cpu with isSame | ⟨_, notAfter⟩
      · rw [isSame] at isUser
        exact holds.occupied cpu other pc isUser
      · exact absurd isUser (notAfter pc)
  · intro other isUsed
    by_cases isSlot : other = slot
    · rw [isSlot]
      exact here
    · rw [others other isSlot]
      rw [sameRun] at isUsed
      refine (holds.slots other isUsed).congr (cpus other isSlot) ?_ ?_ ?_
      · rw [sameRun]
        exact .refl _
      · rw [sameRun]
        exact holds.unchanged_other started alive.1 changed isSlot isUsed
      · rw [sameRun]
        exact fun _ isAlive => isAlive

/-- The kernel stores registers of a process that rests. -/
theorem storeResting
    (started : KernelStarted kernel trampoline free)
    (holds : MachineHolds symbols kernel trampoline machine contexts)
    (rests : machine.Rests slot) (alive : machine.run.state.Alive slot)
    {bytes : Bytes} (changed : ChangedIn (machine.run.state.procs slot).tf
      machine.run.state.mem.bytes bytes) {context : Context}
    (even : context.pc.toNat % 2 = 0)
    (saved : Saved bytes (machine.run.state.procs slot).tf context) :
    MachineHolds symbols kernel trampoline (machine.setBytes bytes)
      (Function.update contexts slot context) := by
  apply holds.store started alive changed rfl
  · exact fun _ _ _ => Or.inl rfl
  · exact ⟨holds.harts.alone, holds.harts.inKernel⟩
  · exact fun other differs => Function.update_of_ne differs _ _
  · rw [Function.update_self]
    exact ⟨even, fun _ => saved, fun cpu pc isUser =>
      absurd isUser (rests cpu pc)⟩

/-- `p->tf->epc += 4`. -/
theorem skip
    (started : KernelStarted kernel trampoline free)
    (holds : MachineHolds symbols kernel trampoline machine contexts)
    (rests : machine.Rests slot) (alive : machine.run.state.Alive slot) :
    MachineHolds symbols kernel trampoline
      (machine.setBytes (write64 machine.run.state.mem.bytes
        ((machine.run.state.procs slot).tf.toNat + 24)
        (read64 machine.run.state.mem.bytes
          ((machine.run.state.procs slot).tf.toNat + 24) + 4)))
      (Function.update contexts slot
        ⟨(contexts slot).regs, (contexts slot).pc + 4⟩) := by
  have here := holds.slots slot alive.1
  have saved := here.resting rests
  have even : ((contexts slot).pc + 4).toNat % 2 = 0 := by
    have wasEven := here.even
    rw [UInt64.toNat_add]
    change ((contexts slot).pc.toNat + 4) % 2 ^ 64 % 2 = 0
    omega
  apply holds.storeResting started rests alive
    (changedIn_field _ _ _ (by decide)) even
  rw [saved.pc]
  exact @Saved.setPc _ _ ⟨(contexts slot).regs, _⟩ saved.regs

/-- `p->tf->a0 = ret`. -/
theorem answer
    (started : KernelStarted kernel trampoline free)
    (holds : MachineHolds symbols kernel trampoline machine contexts)
    (rests : machine.Rests slot) (alive : machine.run.state.Alive slot)
    (ret : UInt64) :
    MachineHolds symbols kernel trampoline
      (machine.setBytes (write64 machine.run.state.mem.bytes
        ((machine.run.state.procs slot).tf.toNat + 112) ret))
      (Function.update contexts slot
        ⟨Function.update (contexts slot).regs .a0 ret,
          (contexts slot).pc⟩) := by
  have here := holds.slots slot alive.1
  exact holds.storeResting started rests alive
    (changedIn_field _ _ _ (by decide)) here.even
    ((here.resting rests).answer ret)

/-- The page table of the kernel. -/
theorem kernelPgtbl_eq
    (started : KernelStarted kernel trampoline free)
    (holds : MachineHolds symbols kernel trampoline machine contexts) :
    machine.run.state.mem.kernelPgtbl = kernel.kernelPgtbl := by
  rcases (holds.life started).spaces with ⟨free', held, spaces⟩
  exact spaces.kernelPgtbl

end MachineHolds

/-! ## Traps -/

/-- A hart after a trap. -/
def enteredHart (symbols : Symbols) (proc : Proc) (pc scause : UInt64)
    (hart : Hart) : Hart :=
  let entered := userEntered proc.tf
    ⟨hart.regs, trapped pc scause hart.csrs, hart.bytes⟩
  ⟨entered.regs, Function.update entered.csrs .stvec symbols.kernelVector,
    write64 entered.bytes (proc.tf.toNat + 24) (pc &&& ~~~1)⟩

/-- `MAKE_SATP` chooses a mode that can be written to `satp`. -/
theorem csrWritten_makeSatp
    {pgtbl : UInt64} (inRam : InRam pgtbl) (before : UInt64) :
    csrWritten .satp before (makeSatp pgtbl) = makeSatp pgtbl :=
  if_pos (Or.inr (makeSatp_mode (root_small inRam)))

namespace MachineHolds

/-- A trap leads into `trap_user_handler`, whatever its cause is. -/
theorem enterKernel_eq
    (started : KernelStarted kernel trampoline free)
    (holds : MachineHolds symbols kernel trampoline machine contexts)
    (isUsed : (machine.run.state.procs slot).state ≠ .unused)
    {pc : UInt64} (isUser : (machine.cpus cpu).user = some (slot, pc))
    (scause : UInt64) :
    enterKernel symbols trampoline (machine.run.state.procs slot) pc scause
        (machine.hart cpu) =
      some (enteredHart symbols (machine.run.state.procs slot) pc scause
        (machine.hart cpu)) := by
  let tf := (machine.run.state.procs slot).tf
  let hart : Hart := ⟨(machine.hart cpu).regs,
    trapped pc scause (machine.hart cpu).csrs, (machine.hart cpu).bytes⟩
  rcases (holds.slots slot isUsed).running cpu pc isUser with
    ⟨alive, _, _, ready⟩
  have life := holds.life started
  have atFrame : hart.csrs .sscratch = trapframeVa := ready.sscratch
  have frame : Frame (supervisor trampolineVa trampoline) hart.csrs hart.bytes
      (hart.csrs .sscratch) tf 288 := by
    rw [atFrame]
    exact trapframe_frame started life isUsed ready.satp
  have changed : ChangedIn tf machine.run.state.mem.bytes
      (userEntered tf hart).bytes := by
    have room := frame.room
    exact changedIn_of_sameOutside (Nat.le_refl _) (by omega)
      (savedBytes_sameOutside slots_trapframe _ _)
  have below : WaitsBelow machine.run (slot, .trap) := trivial
  have life' := life.step started below (lifeStep_setBytes alive changed)
  have fetched : reach (csrWritten .satp (hart.csrs .satp)
      (read64 hart.bytes tf.toNat)) (userEntered tf hart).bytes .fetch
      trampolineVa = some trampoline := by
    have isSatp : read64 hart.bytes tf.toNat = makeSatp kernel.kernelPgtbl :=
      ready.kernelSatp
    have inRam := kernelPgtbl_inRam started life
    have code := kernel_fetches started life'
    have samePgtbl : (machine.setBytes
        (userEntered tf hart).bytes).run.state.mem.kernelPgtbl =
        machine.run.state.mem.kernelPgtbl := rfl
    rw [samePgtbl] at code
    rw [holds.kernelPgtbl_eq started] at inRam code
    rw [isSatp, csrWritten_makeSatp inRam]
    exact code
  have entered := run_userVector frame fetched
  have jumps : (userEntered tf hart).regs .t0 = symbols.trapUserHandler :=
    ready.kernelTrap
  have notSupervisor : (userEntered tf hart).csrs .sstatus &&& sstatusSpp = 0 :=
    trapped_spp pc scause _
  have vector : (machine.hart cpu).csrs .stvec =
      trampolineVa + symbols.userVector := ready.stvec
  unfold enterKernel
  rw [if_pos vector, entered, Option.bind_some]
  rw [if_pos jumps]
  unfold trapUserHandlerSave
  rw [if_pos notSupervisor]
  rfl

/-- A trap leaves the context of the process in its trapframe. -/
theorem trap
    (started : KernelStarted kernel trampoline free)
    (holds : MachineHolds symbols kernel trampoline machine contexts)
    (isUsed : (machine.run.state.procs slot).state ≠ .unused)
    {pc scause : UInt64} (isUser : (machine.cpus cpu).user = some (slot, pc))
    {entered : Hart} (isEntered : entered = enteredHart symbols
      (machine.run.state.procs slot) pc scause (machine.hart cpu)) :
    MachineHolds symbols kernel trampoline
      ((machine.setBytes entered.bytes).setCpu cpu
        ⟨entered.regs, entered.csrs, none⟩) contexts := by
  rcases (holds.slots slot isUsed).running cpu pc isUser with
    ⟨alive, regs, isPc, ready⟩
  have even := (holds.slots slot isUsed).even
  rw [← isPc] at even
  have cleared : pc &&& ~~~1 = (contexts slot).pc := by
    rw [clear_of_even even, isPc]
  have inRam := kernelPgtbl_inRam started (holds.life started)
  rw [holds.kernelPgtbl_eq started] at inRam
  have satp : entered.csrs .satp = makeSatp kernel.kernelPgtbl := by
    have written := csrWritten_makeSatp inRam ((machine.cpus cpu).csrs .satp)
    rw [← ready.kernelSatp] at written ⊢
    rw [isEntered]
    exact written
  have tp : entered.regs .tp = UInt64.ofNat cpu := by
    rw [isEntered]
    exact ready.hartid
  have bytes : entered.bytes = write64 (savedBytes
      (machine.run.state.procs slot).tf (machine.cpus cpu).regs trapframeSlots
      machine.run.state.mem.bytes)
      ((machine.run.state.procs slot).tf.toNat + 24) (pc &&& ~~~1) := by
    rw [isEntered]
    rfl
  have room : (machine.run.state.procs slot).tf.toNat + 288 ≤
      (machine.run.state.procs slot).tf.toNat + 4096 := by omega
  have changed : ChangedIn (machine.run.state.procs slot).tf
      machine.run.state.mem.bytes entered.bytes := by
    rw [bytes]
    exact changedIn_trans (changedIn_of_sameOutside (Nat.le_refl _) room
      (savedBytes_sameOutside slots_trapframe _ _))
      (changedIn_field _ _ _ (by decide))
  have sameRun : ((machine.setBytes entered.bytes).setCpu cpu
      ⟨entered.regs, entered.csrs, none⟩).run =
      (machine.setBytes entered.bytes).run := rfl
  apply holds.store started alive changed sameRun
  · intro other differs
    apply @sameCpu_setCpu (machine.setBytes entered.bytes)
    · intro pc' isOther
      have same := isUser.symm.trans isOther
      cases same
      exact differs rfl
    · nofun
  · have harts : HartsHold kernel.kernelPgtbl
        (machine.setBytes entered.bytes) :=
      ⟨holds.harts.alone, holds.harts.inKernel⟩
    exact harts.setKernel satp tp
  · exact fun _ _ => rfl
  · refine ⟨(holds.slots slot isUsed).even, ?_, ?_⟩
    · intro _
      have saved := inTrapframe_savedBytes (machine.run.state.procs slot).tf
        (machine.cpus cpu).regs machine.run.state.mem.bytes
      rw [regs] at saved bytes
      rw [cleared] at bytes
      change Saved entered.bytes (machine.run.state.procs slot).tf _
      rw [bytes]
      exact Saved.setPc saved
    · intro cpu' pc' isUser'
      by_cases isCpu : cpu' = cpu
      · rw [isCpu, setCpu_self] at isUser'
        cases isUser'
      · rw [setCpu_of_ne _ isCpu] at isUser'
        exact absurd (holds.harts.alone cpu' cpu slot pc' pc isUser' isUser)
          isCpu

end MachineHolds

/-! ## The way back -/

/-- A hart after it has left the kernel. -/
def leftHart (symbols : Symbols) (proc : Proc) (context : Context)
    (hart : Hart) : Hart :=
  ⟨context.regs, returned (userLeftCsrs (trapUserReturn symbols proc hart)),
    (trapUserReturn symbols proc hart).bytes⟩

namespace MachineHolds

/-- A process that rests can go on, on every hart. -/
theorem leaveKernel_eq
    (started : KernelStarted kernel trampoline free)
    (holds : MachineHolds symbols kernel trampoline machine contexts)
    (isKernel : (machine.cpus cpu).user = none) (rests : machine.Rests slot)
    (alive : machine.run.state.Alive slot) :
    leaveKernel symbols trampoline (machine.run.state.procs slot)
        (machine.hart cpu) =
      some (leftHart symbols (machine.run.state.procs slot) (contexts slot)
        (machine.hart cpu)) := by
  let proc := machine.run.state.procs slot
  let prepared := trapUserReturn symbols proc (machine.hart cpu)
  have changed : ChangedIn proc.tf machine.run.state.mem.bytes prepared.bytes :=
    changedIn_trapUserReturn symbols proc (machine.hart cpu)
  have saved : Saved prepared.bytes proc.tf (contexts slot) :=
    saved_trapUserReturn symbols proc (machine.hart cpu)
      ((holds.slots slot alive.1).resting rests)
  have life := holds.life started
  have below : WaitsBelow machine.run (slot, .trap) := trivial
  have life' := life.step started below (lifeStep_setBytes alive changed)
  have fetched : reach (prepared.csrs .satp) prepared.bytes .fetch
      trampolineVa = some trampoline := by
    have isSatp : prepared.csrs .satp = makeSatp kernel.kernelPgtbl :=
      (holds.harts.inKernel cpu isKernel).1
    have code := kernel_fetches started life'
    have samePgtbl : (machine.setBytes
        prepared.bytes).run.state.mem.kernelPgtbl =
        machine.run.state.mem.kernelPgtbl := rfl
    rw [samePgtbl, holds.kernelPgtbl_eq started] at code
    rw [isSatp]
    exact code
  have rootRam : InRam (pgtbls machine.run.state slot) := by
    rcases life.spaces with ⟨free', held, spaces⟩
    exact spaces.formed.tables (.slot slot) [] (Nat.zero_le 2)
      (spaces.slots.used slot alive.1).1
  have isSatp : userLeftCsrs prepared .satp =
      makeSatp (pgtbls machine.run.state slot) :=
    csrWritten_makeSatp rootRam _
  have frame : Frame (supervisor trampolineVa trampoline)
      (userLeftCsrs prepared) prepared.bytes trapframeVa proc.tf 288 :=
    trapframe_frame started life' alive.1 isSatp
  have left := run_userReturn fetched frame saved.regs
  have toUser : userLeftCsrs prepared .sstatus &&& sstatusSpp = 0 :=
    trapUserReturn_spp symbols proc (machine.hart cpu)
  unfold leaveKernel
  rw [left, Option.bind_some]
  exact if_pos toUser

/-- The hart that leaves the kernel runs the process with its context. -/
theorem leave
    (started : KernelStarted kernel trampoline free)
    (holds : MachineHolds symbols kernel trampoline machine contexts)
    (isKernel : (machine.cpus cpu).user = none) (rests : machine.Rests slot)
    (alive : machine.run.state.Alive slot) {left : Hart}
    (isLeft : left = leftHart symbols (machine.run.state.procs slot)
      (contexts slot) (machine.hart cpu)) :
    MachineHolds symbols kernel trampoline
      ((machine.setBytes left.bytes).setCpu cpu
        ⟨left.regs, left.csrs, some (slot, left.csrs .sepc)⟩) contexts := by
  let proc := machine.run.state.procs slot
  have changed : ChangedIn proc.tf machine.run.state.mem.bytes left.bytes := by
    rw [isLeft]
    exact changedIn_trapUserReturn symbols proc (machine.hart cpu)
  have saved := (holds.slots slot alive.1).resting rests
  have even := (holds.slots slot alive.1).even
  have isPc : left.csrs .sepc = (contexts slot).pc := by
    rw [isLeft]
    refine Eq.trans ?_ (clear_of_even even)
    exact congrArg (· &&& ~~~1) saved.pc
  have rootRam : InRam (pgtbls machine.run.state slot) := by
    rcases (holds.life started).spaces with ⟨free', held, spaces⟩
    exact spaces.formed.tables (.slot slot) [] (Nat.zero_le 2)
      (spaces.slots.used slot alive.1).1
  have isSatp : left.csrs .satp = makeSatp (pgtbls machine.run.state slot) := by
    rw [isLeft]
    exact csrWritten_makeSatp rootRam _
  have inKernel := holds.harts.inKernel cpu isKernel
  have fields := fields_trapUserReturn symbols proc (machine.hart cpu)
  have ready : UserReady symbols kernel.kernelPgtbl
      (machine.setBytes left.bytes).run.state slot cpu left.csrs := by
    have isBytes : (machine.setBytes left.bytes).run.state.mem.bytes =
        (trapUserReturn symbols proc (machine.hart cpu)).bytes := by
      rw [isLeft]
      rfl
    refine ⟨isSatp, ?_, ?_, ?_, ?_, ?_, ?_⟩
    · rw [isLeft]
      rfl
    · rw [isLeft]
      rfl
    · rw [isBytes]
      exact fields.1.trans inKernel.1
    · rw [isBytes]
      exact fields.2.1
    · rw [isBytes]
      exact fields.2.2.1
    · rw [isBytes]
      exact fields.2.2.2.trans inKernel.2
  have notUser : ∀ pc, (machine.cpus cpu).user ≠ some (slot, pc) :=
    rests cpu
  have sameRun : ((machine.setBytes left.bytes).setCpu cpu
      ⟨left.regs, left.csrs, some (slot, left.csrs .sepc)⟩).run =
      (machine.setBytes left.bytes).run := rfl
  apply holds.store started alive changed sameRun
  · intro other differs
    apply @sameCpu_setCpu (machine.setBytes left.bytes)
    · intro pc isOther
      have same := isKernel.symm.trans isOther
      cases same
    · intro pc isOther
      cases isOther
      exact differs rfl
  · have harts : HartsHold kernel.kernelPgtbl (machine.setBytes left.bytes) :=
      ⟨holds.harts.alone, holds.harts.inKernel⟩
    apply harts.setUser
    intro other pc isOther
    exact absurd isOther (rests other pc)
  · exact fun _ _ => rfl
  · refine ⟨even, ?_, ?_⟩
    · intro rests'
      apply absurd _ (rests' cpu (left.csrs .sepc))
      rw [setCpu_self]
    · intro cpu' pc isUser
      by_cases isCpu : cpu' = cpu
      · rw [isCpu, setCpu_self] at isUser ⊢
        cases isUser
        refine ⟨alive, ?_, isPc, ready⟩
        rw [isLeft]
        rfl
      · rw [setCpu_of_ne _ isCpu] at isUser
        exact absurd isUser (rests cpu' pc)

/-- Code of the kernel runs. -/
theorem kernelCode
    (holds : MachineHolds symbols kernel trampoline machine contexts)
    (isKernel : (machine.cpus cpu).user = none) {regs : Reg → UInt64}
    {csrs : Csr → UInt64} (tp : regs .tp = (machine.cpus cpu).regs .tp)
    (satp : csrs .satp = (machine.cpus cpu).csrs .satp) :
    MachineHolds symbols kernel trampoline
      (machine.setCpu cpu ⟨regs, csrs, none⟩) contexts := by
  have inKernel := holds.harts.inKernel cpu isKernel
  have sameCpu : ∀ slot cpu', SameCpu slot (machine.cpus cpu')
      ((machine.setCpu cpu ⟨regs, csrs, none⟩).cpus cpu') := by
    intro slot
    apply sameCpu_setCpu
    · intro pc isUser
      rw [isKernel] at isUser
      cases isUser
    · nofun
  refine ⟨holds.reachable,
    holds.harts.setKernel (satp.trans inKernel.1) (tp.trans inKernel.2), ?_, ?_⟩
  · intro cpu' slot pc isUser
    rcases sameCpu slot cpu' with isSame | ⟨_, notAfter⟩
    · rw [isSame] at isUser
      exact holds.occupied cpu' slot pc isUser
    · exact absurd isUser (notAfter pc)
  · intro slot isUsed
    exact (holds.slots slot isUsed).congr (sameCpu slot) (.refl _)
      (fun _ _ => rfl) fun _ alive => alive

/-- What a call of a process does to all of them. -/
theorem slots_of_keeps
    (holds : MachineHolds symbols kernel trampoline machine contexts)
    {curr : Pid} (rests : machine.Rests curr) {after : TreeRun}
    (keeps : KeepsTrapframes curr machine.run.state after.state)
    (isUsed : (after.state.procs slot).state ≠ .unused) :
    SlotHolds symbols kernel.kernelPgtbl (machine.setRun after)
      (forkContexts machine.run.state after.state curr contexts slot) slot := by
  unfold forkContexts
  by_cases wasUnused : (machine.run.state.procs slot).state = .unused
  · rw [if_pos ⟨wasUnused, isUsed⟩]
    rcases keeps.born slot wasUnused isUsed with ⟨currUsed, copy⟩
    have parent := holds.slots curr currUsed
    refine ⟨parent.even, fun _ => (parent.resting rests).copied copy, ?_⟩
    -- A slot that was not used ran on no hart.
    intro cpu pc isUser
    exact absurd wasUnused (holds.occupied cpu slot pc isUser)
  · rw [if_neg fun both => wasUnused both.1]
    have here := holds.slots slot wasUnused
    rcases keeps.kept slot wasUnused isUsed with ⟨same, unchanged⟩
    refine here.congr (fun _ => Or.inl rfl) same unchanged ?_
    rintro ⟨cpu, pc, isUser⟩ alive
    apply keeps.alive slot _ alive
    rintro rfl
    exact rests cpu pc isUser

/-- A process on a hart stays alive while others call the kernel. -/
theorem alive_of_keeps
    (holds : MachineHolds symbols kernel trampoline machine contexts)
    {curr : Pid} (rests : machine.Rests curr) {after : TreeRun}
    (keeps : KeepsTrapframes curr machine.run.state after.state)
    {pc : UInt64} (isUser : (machine.cpus cpu).user = some (slot, pc)) :
    after.state.Alive slot := by
  have isUsed := holds.occupied cpu slot pc isUser
  have alive := ((holds.slots slot isUsed).running cpu pc isUser).1
  apply keeps.alive slot _ alive
  rintro rfl
  exact rests cpu pc isUser

/-- A process calls the kernel. -/
theorem call
    (started : KernelStarted kernel trampoline free)
    (holds : MachineHolds symbols kernel trampoline machine contexts)
    {curr : Pid} (rests : machine.Rests curr) {call : LifeCall}
    (noTrap : call ≠ .trap) (below : WaitsBelow machine.run (curr, call))
    {after : TreeRun} (step : LifeStep machine.run (curr, call) after) :
    MachineHolds symbols kernel trampoline (machine.setRun after)
      (forkContexts machine.run.state after.state curr contexts) := by
  have keeps := step.keepsTrapframes started (holds.life started) below noTrap
  refine ⟨.step holds.reachable below step,
    ⟨holds.harts.alone, holds.harts.inKernel⟩, ?_, ?_⟩
  · intro cpu slot pc isUser
    exact (holds.alive_of_keeps rests keeps isUser).1
  · intro slot isUsed
    exact holds.slots_of_keeps rests keeps isUsed

/-- The code of a process runs. -/
theorem compute
    (started : KernelStarted kernel trampoline free)
    (holds : MachineHolds symbols kernel trampoline machine contexts)
    {pc pc' : UInt64} (isUser : (machine.cpus cpu).user = some (slot, pc))
    {after : TreeRun}
    (step : after = machine.run ∨ LifeStep machine.run (slot, .compute) after)
    (even : pc'.toNat % 2 = 0) (regs : Reg → UInt64) :
    MachineHolds symbols kernel trampoline
      ((machine.setRun after).setCpu cpu
        ⟨regs, (machine.cpus cpu).csrs, some (slot, pc')⟩)
      (Function.update contexts slot ⟨regs, pc'⟩) := by
  have isUsed := holds.occupied cpu slot pc isUser
  rcases (holds.slots slot isUsed).running cpu pc isUser with
    ⟨alive, _, _, ready⟩
  have facts : (lifeSystem kernel trampoline).ReachableBy WaitsBelow after ∧
      after.state.procs = machine.run.state.procs ∧
      KeepsTrapframes slot machine.run.state after.state := by
    rcases step with rfl | step
    · exact ⟨holds.reachable, rfl, .of_woken rfl fun _ => Or.inl rfl⟩
    · have below : WaitsBelow machine.run (slot, .compute) := trivial
      refine ⟨.step holds.reachable below step, ?_,
        step.keepsTrapframes started (holds.life started) below nofun⟩
      cases step with
      | compute _ _ _ => rfl
  rcases facts with ⟨reachable, procs, keeps⟩
  have kept : ∀ other, (machine.run.state.procs other).state ≠ .unused →
      Unchanged (machine.run.state.procs other).tf machine.run.state.mem.bytes
        after.state.mem.bytes := by
    intro other isUsed'
    apply (keeps.kept other isUsed' _).2
    rw [procs]
    exact isUsed'
  have sameFrame : ∀ other, SameFrame (machine.run.state.procs other)
      (after.state.procs other) := by
    intro other
    rw [procs]
    exact .refl _
  have only : ∀ other pc', (machine.cpus other).user = some (slot, pc') →
      other = cpu := fun other pc' isUser' =>
    holds.harts.alone other cpu slot pc' pc isUser' isUser
  have harts : HartsHold kernel.kernelPgtbl (machine.setRun after) :=
    ⟨holds.harts.alone, holds.harts.inKernel⟩
  have sameCpu : ∀ other, other ≠ slot → ∀ cpu', SameCpu other
      (machine.cpus cpu') (((machine.setRun after).setCpu cpu ⟨regs,
        (machine.cpus cpu).csrs, some (slot, pc')⟩).cpus cpu') := by
    intro other differs
    apply @sameCpu_setCpu (machine.setRun after)
    · intro pc₁ isOther
      have same := isUser.symm.trans isOther
      cases same
      exact differs rfl
    · intro pc₁ isOther
      cases isOther
      exact differs rfl
  refine ⟨reachable, harts.setUser only, ?_, ?_⟩
  · intro cpu' other pc₁ isOther
    change (after.state.procs other).state ≠ .unused
    rw [procs]
    by_cases isSlot : other = slot
    · rw [isSlot]
      exact isUsed
    · rcases sameCpu other isSlot cpu' with isSame | ⟨_, notAfter⟩
      · rw [isSame] at isOther
        exact holds.occupied cpu' other pc₁ isOther
      · exact absurd isOther (notAfter pc₁)
  · intro other isUsed'
    change (after.state.procs other).state ≠ .unused at isUsed'
    rw [procs] at isUsed'
    by_cases isSlot : other = slot
    · rw [isSlot, Function.update_self]
      refine ⟨even, ?_, ?_⟩
      · intro rests
        apply absurd _ (rests cpu pc')
        rw [setCpu_self]
      · intro cpu' pc₁ isOther
        by_cases isCpu : cpu' = cpu
        · rw [isCpu, setCpu_self] at isOther ⊢
          cases isOther
          refine ⟨?_, rfl, rfl, ready.congr (sameFrame slot)
            (kept slot isUsed)⟩
          change after.state.Alive slot
          unfold State.Alive
          rw [procs]
          exact alive
        · rw [setCpu_of_ne _ isCpu] at isOther
          exact absurd (only cpu' pc₁ isOther) isCpu
    · rw [Function.update_of_ne isSlot]
      refine (holds.slots other isUsed').congr (sameCpu other isSlot)
        (sameFrame other) (kept other isUsed') ?_
      intro _ isAlive
      change after.state.Alive other
      unfold State.Alive
      rw [procs]
      exact isAlive

end MachineHolds

end Trap
end WhuOs
