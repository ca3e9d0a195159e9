import WhuOs.Trap.Holding

/-!
# Every process has a machine of its own

Whatever the harts and the kernel do for other processes, a process finds the
registers and the program counter with which it left user mode, but for the
results of its calls.
-/

namespace WhuOs
namespace Trap

open Library
open Library.Bytes
open Library.Assembly
open Mem
open Process

variable {symbols : Symbols} {kernel : Mem.State} {trampoline : UInt64}
  {machine machine' : Machine} {contexts contexts' : Pid → Context}
  {free : Bool → List UInt64}

namespace MachineHolds

/-- At first only the first process exists. -/
theorem init
    (started : KernelStarted kernel trampoline free)
    (start : (machineSystem symbols kernel trampoline).Init
      (machine, contexts)) :
    MachineHolds symbols kernel trampoline machine contexts := by
  rcases start with ⟨⟨exits, reaps, boot, makes⟩, harts, isFirst⟩
  have reachable : (lifeSystem kernel trampoline).ReachableBy WaitsBelow
      machine.run := .init ⟨exits, reaps, boot, makes⟩
  have notUser : ∀ cpu slot pc, (machine.cpus cpu).user ≠ some (slot, pc) := by
    intro cpu slot pc isUser
    rw [(harts cpu).1] at isUser
    cases isUser
  refine ⟨reachable, ⟨?_, fun cpu _ => (harts cpu).2⟩, ?_, ?_⟩
  · intro cpu _ slot pc _ isUser
    exact absurd isUser (notUser cpu slot pc)
  · intro cpu slot pc isUser
    exact absurd isUser (notUser cpu slot pc)
  · intro slot isUsed
    have isZero : slot = procZero := by
      rcases procMakeFirst_runs makes with ⟨_, _, procs, _⟩
      by_contra differs
      rw [procs, Function.update_of_ne differs] at isUsed
      exact isUsed rfl
    rw [isZero] at isUsed ⊢
    rw [isFirst]
    refine ⟨rfl, ?_, fun cpu pc isUser => absurd isUser (notUser cpu _ pc)⟩
    intro _
    apply saved_first makes
    rcases (LifeHolds.of_reachable started reachable).spaces with
      ⟨free', held, spaces⟩
    have inRam := spaces.user.inRam _ (spaces.trapframe_some isUsed)
    rw [spaces.trapframe] at inRam
    have bound := inRam.2.2
    omega

/-- Every step keeps the contexts. -/
theorem step
    (started : KernelStarted kernel trampoline free)
    (holds : MachineHolds symbols kernel trampoline machine contexts)
    {action : MachineAction} (below : CallsBelow (machine, contexts) action)
    (step : MachineStep symbols trampoline (machine, contexts) action
      (machine', contexts')) :
    MachineHolds symbols kernel trampoline machine' contexts' := by
  cases step with
  | compute isUser step even => exact holds.compute started isUser step even _
  | trap isUser enters =>
      have isUsed := holds.occupied _ _ _ isUser
      rw [holds.enterKernel_eq started isUsed isUser] at enters
      exact holds.trap started isUsed isUser (Option.some.inj enters).symm
  | kernel isKernel tp satp => exact holds.kernelCode isKernel tp satp
  | call rests _ noTrap step => exact holds.call started rests noTrap below step
  | skip rests alive => exact holds.skip started rests alive
  | answer rests alive => exact holds.answer started rests alive _
  | @leave _ _ cpu slot left isKernel rests isRunning leaves =>
      have alive : machine.run.state.Alive slot := by
        unfold State.Alive
        rw [isRunning]
        exact ⟨nofun, nofun⟩
      rw [holds.leaveKernel_eq started isKernel rests alive] at leaves
      exact holds.leave started isKernel rests alive
        (Option.some.inj leaves).symm

theorem of_reachable
    (started : KernelStarted kernel trampoline free)
    {state : Machine × (Pid → Context)}
    (reachable : (machineSystem symbols kernel trampoline).ReachableBy
      CallsBelow state) :
    MachineHolds symbols kernel trampoline state.1 state.2 := by
  apply reachable.invariant
  · rintro ⟨machine, contexts⟩ start
    exact init started start
  · rintro ⟨machine, contexts⟩ action ⟨machine', contexts'⟩ holds below taken
    exact holds.step started below taken

end MachineHolds

/-- Registers and program counters are those of the contexts. -/
structure Represents (machine : Machine) (contexts : Pid → Context) : Prop where
  resting : ∀ slot, (machine.run.state.procs slot).state ≠ .unused →
    machine.Rests slot → Saved machine.run.state.mem.bytes
      (machine.run.state.procs slot).tf (contexts slot)
  running : ∀ cpu slot pc, (machine.cpus cpu).user = some (slot, pc) →
    machine.run.state.Alive slot ∧
      (machine.cpus cpu).regs = (contexts slot).regs ∧
      pc = (contexts slot).pc

/-- A hart that came from the code of a process and is ready to run the kernel:
in the address space of the kernel, on the stack of the process, and with its
own number. -/
structure ReadyForKernel (symbols : Symbols) (kernelPgtbl : UInt64)
    (proc : Proc) (cpu : Fin nCpu) (hart : Hart) : Prop where
  satp : hart.csrs .satp = makeSatp kernelPgtbl
  stvec : hart.csrs .stvec = symbols.kernelVector
  sp : hart.regs .sp = proc.kstack + 4096
  tp : hart.regs .tp = UInt64.ofNat cpu

/-- A hart runs the code of the first process. -/
theorem exists_userRun (symbols : Symbols) :
    ∃ (kernel : Mem.State) (state : Machine × (Pid → Context)),
      StartedWith 0x80005000 kernel ∧
      (machineSystem symbols kernel 0x80005000).ReachableBy CallsBelow state ∧
      state.2 procZero = firstContext ∧
      ∃ pc, (state.1.cpus 0).user = some (procZero, pc) := by
  rcases exists_lifeRun with ⟨kernel, run, started, init, runnable, _⟩
  rcases started.started with ⟨free, isStarted⟩
  let machine : Machine := ⟨run, fun cpu =>
    ⟨fun _ => UInt64.ofNat cpu, fun _ => makeSatp kernel.kernelPgtbl, none⟩⟩
  have rests : machine.Rests procZero := nofun
  have start : (machineSystem symbols kernel 0x80005000).ReachableBy CallsBelow
      (machine, fun _ => firstContext) :=
    .init ⟨init, fun _ => ⟨rfl, rfl, rfl⟩, rfl⟩
  let after : TreeRun := ⟨run.state.setProc procZero
    ((run.state.procs procZero).setState .running), run.exits, run.reaps⟩
  let contexts := forkContexts run.state after.state procZero
    fun _ => firstContext
  have below : CallsBelow (machine, fun _ => firstContext)
      (.call procZero (.tree .schedule)) := trivial
  have scheduled : (machineSystem symbols kernel 0x80005000).ReachableBy
      CallsBelow (machine.setRun after, contexts) :=
    start.step below (.call rests nofun nofun (.tree (.schedule runnable)))
  have isRunning : (after.state.procs procZero).state = .running := by
    change ((run.state.setProc procZero _).procs procZero).state = _
    rw [setProc_procs_self]
    rfl
  have alive : (machine.setRun after).run.state.Alive procZero := by
    change after.state.Alive procZero
    unfold State.Alive
    rw [isRunning]
    exact ⟨nofun, nofun⟩
  have holds := MachineHolds.of_reachable isStarted scheduled
  have leaves := @MachineHolds.leaveKernel_eq _ _ _ _ _ procZero 0 _ isStarted
    holds rfl rests alive
  have below' : CallsBelow (machine.setRun after, contexts)
      (.leave 0 procZero) := trivial
  refine ⟨kernel, _, started,
    scheduled.step below' (.leave rfl rests isRunning leaves), ?_, _,
    congrArg Cpu.user (setCpu_self _ _ _)⟩
  refine if_neg ?_
  intro both
  rw [runnable] at both
  cases both.1

end Trap
end WhuOs
