import WhuOs.Process.Life
import WhuOs.Trap.Vectors

/-!
# Harts between user code and the kernel

`trap_user_handler` saves the program counter after `user_vector` saved the
registers, and `trap_user_return` prepares a trapframe for `user_return`.  Harts
run the code of processes and enter and leave the kernel, while the kernel
serves other processes.
-/

namespace WhuOs
namespace Trap

open Library
open Library.Bytes
open Library.Assembly
open Mem (trampolineVa trapframeVa)
open Process

/-! ## Traps in hardware -/

/-- `SSTATUS_SPP`. -/
def sstatusSpp : UInt64 := 0x100

/-- `SSTATUS_SPIE`. -/
def sstatusSpie : UInt64 := 0x20

/-- `SSTATUS_SIE`. -/
def sstatusSie : UInt64 := 2

/-- The control registers after a trap from user mode. -/
def trapped (pc scause : UInt64) (csrs : Csr → UInt64) : Csr → UInt64
  | .sepc => pc &&& ~~~1
  | .scause => scause
  | .sstatus =>
      (csrs .sstatus &&& ~~~(sstatusSpp ||| sstatusSpie ||| sstatusSie)) |||
        ((csrs .sstatus &&& sstatusSie) <<< 4)
  | csr => csrs csr

/-- The control registers after `sret` to user mode. -/
def returned (csrs : Csr → UInt64) : Csr → UInt64
  | .sstatus =>
      (csrs .sstatus &&& ~~~(sstatusSpp ||| sstatusSie)) |||
        ((csrs .sstatus &&& sstatusSpie) >>> 4) ||| sstatusSpie
  | csr => csrs csr

/-! ## The handlers -/

/-- Addresses that the linker chooses, and where `user_vector` is in the
trampoline. -/
structure Symbols where
  kernelVector : UInt64
  trapUserHandler : UInt64
  userVector : UInt64

/-- `trap_user_handler` up to where it looks at the cause. -/
def trapUserHandlerSave (symbols : Symbols) (proc : Proc) (hart : Hart) :
    Option Hart :=
  if hart.csrs .sstatus &&& sstatusSpp = 0 then
    some ((hart.setCsr .stvec symbols.kernelVector).setBytes
      (write64 hart.bytes (proc.tf.toNat + 24) (hart.csrs .sepc)))
  else none

/-- A trap from user mode, through `user_vector` and into
`trap_user_handler`. -/
def enterKernel (symbols : Symbols) (trampoline : UInt64) (proc : Proc)
    (pc scause : UInt64) (hart : Hart) : Option Hart :=
  if hart.csrs .stvec = trampolineVa + symbols.userVector then
    (run (supervisor trampolineVa trampoline) userVector
        ⟨hart.regs, trapped pc scause hart.csrs, hart.bytes⟩).bind
      fun entered =>
        if entered.regs .t0 = symbols.trapUserHandler then
          trapUserHandlerSave symbols proc entered
        else none
  else none

/-- `trap_user_return` up to the call of `user_return`. -/
def trapUserReturn (symbols : Symbols) (proc : Proc) (hart : Hart) : Hart where
  regs := Function.update (Function.update hart.regs .a0 trapframeVa) .a1
    (makeSatp proc.pgtbl)
  csrs
    | .stvec => trampolineVa + symbols.userVector
    | .sstatus =>
        ((hart.csrs .sstatus &&& ~~~sstatusSie) &&& ~~~sstatusSpp) |||
          sstatusSpie
    | .sepc => csrWritten .sepc (hart.csrs .sepc)
        (read64 hart.bytes (proc.tf.toNat + 24))
    | csr => hart.csrs csr
  bytes := write64 (write64 (write64 (write64 hart.bytes
    proc.tf.toNat (hart.csrs .satp))
    (proc.tf.toNat + 8) (proc.kstack + 4096))
    (proc.tf.toNat + 16) symbols.trapUserHandler)
    (proc.tf.toNat + 32) (hart.regs .tp)

/-- `trap_user_return`, `user_return` and `sret`.  The code of the user goes on
at `sepc`. -/
def leaveKernel (symbols : Symbols) (trampoline : UInt64) (proc : Proc)
    (hart : Hart) : Option Hart :=
  (run (supervisor trampolineVa trampoline) userReturn
      (trapUserReturn symbols proc hart)).bind fun left =>
    if left.csrs .sstatus &&& sstatusSpp = 0 then
      some { left with csrs := returned left.csrs }
    else none

/-! ## Harts and processes -/

/-- A hart, with the process and the program counter if it is in user mode. -/
structure Cpu where
  regs : Reg → UInt64
  csrs : Csr → UInt64
  user : Option (Pid × UInt64)

/-- The harts, over memory and the process table. -/
structure Machine where
  run : TreeRun
  cpus : Fin nCpu → Cpu

/-- What a process has of its own: registers and a program counter. -/
@[ext] structure Context where
  regs : Reg → UInt64
  pc : UInt64

namespace Machine

/-- A hart sees the memory that all harts share. -/
def hart (machine : Machine) (cpu : Fin nCpu) : Hart :=
  ⟨(machine.cpus cpu).regs, (machine.cpus cpu).csrs,
    machine.run.state.mem.bytes⟩

def setRun (machine : Machine) (run : TreeRun) : Machine :=
  { machine with run := run }

def setBytes (machine : Machine) (bytes : Bytes) : Machine :=
  machine.setRun ⟨machine.run.state.setMem
    (machine.run.state.mem.setBytes bytes), machine.run.exits,
    machine.run.reaps⟩

def setCpu (machine : Machine) (cpu : Fin nCpu) (after : Cpu) : Machine :=
  { machine with cpus := Function.update machine.cpus cpu after }

/-- The code of a process runs on no hart. -/
def Rests (machine : Machine) (slot : Pid) : Prop :=
  ∀ cpu pc, (machine.cpus cpu).user ≠ some (slot, pc)

end Machine

/-- What a hart or the kernel does. -/
inductive MachineAction
  /-- The code of a process runs. -/
  | compute (cpu : Fin nCpu)
  | trap (cpu : Fin nCpu) (scause : UInt64)
  /-- Code of the kernel runs on the registers of a hart. -/
  | kernel (cpu : Fin nCpu)
  | call (curr : Pid) (call : LifeCall)
  /-- `p->tf->epc += 4`. -/
  | skip (slot : Pid)
  /-- `p->tf->a0 = ret`. -/
  | answer (slot : Pid) (ret : UInt64)
  | leave (cpu : Fin nCpu) (slot : Pid)

/-- The contexts after a call.  A child has that of its parent but for the
return value. -/
def forkContexts (before after : State) (curr : Pid)
    (contexts : Pid → Context) (slot : Pid) : Context :=
  if (before.procs slot).state = .unused ∧
      (after.procs slot).state ≠ .unused then
    ⟨Function.update (contexts curr).regs .a0 0, (contexts curr).pc⟩
  else contexts slot

/-- One step of a machine.  Beside it stand the contexts that processes have if
each of them has a machine of its own. -/
inductive MachineStep (symbols : Symbols) (trampoline : UInt64) :
    Machine × (Pid → Context) → MachineAction →
    Machine × (Pid → Context) → Prop
  | compute {machine : Machine} {contexts : Pid → Context} {cpu : Fin nCpu}
      {slot : Pid} {pc pc' : UInt64} {regs : Reg → UInt64} {after : TreeRun} :
      (machine.cpus cpu).user = some (slot, pc) →
      (after = machine.run ∨ LifeStep machine.run (slot, .compute) after) →
      pc'.toNat % 2 = 0 →
      MachineStep symbols trampoline (machine, contexts) (.compute cpu)
        ((machine.setRun after).setCpu cpu
          ⟨regs, (machine.cpus cpu).csrs, some (slot, pc')⟩,
        Function.update contexts slot ⟨regs, pc'⟩)
  | trap {machine : Machine} {contexts : Pid → Context} {cpu : Fin nCpu}
      {slot : Pid} {pc scause : UInt64} {entered : Hart} :
      (machine.cpus cpu).user = some (slot, pc) →
      enterKernel symbols trampoline (machine.run.state.procs slot) pc scause
        (machine.hart cpu) = some entered →
      MachineStep symbols trampoline (machine, contexts) (.trap cpu scause)
        ((machine.setBytes entered.bytes).setCpu cpu
          ⟨entered.regs, entered.csrs, none⟩, contexts)
  | kernel {machine : Machine} {contexts : Pid → Context} {cpu : Fin nCpu}
      {regs : Reg → UInt64} {csrs : Csr → UInt64} :
      (machine.cpus cpu).user = none →
      regs .tp = (machine.cpus cpu).regs .tp →
      csrs .satp = (machine.cpus cpu).csrs .satp →
      MachineStep symbols trampoline (machine, contexts) (.kernel cpu)
        (machine.setCpu cpu ⟨regs, csrs, none⟩, contexts)
  | call {machine : Machine} {contexts : Pid → Context} {curr : Pid}
      {call : LifeCall} {after : TreeRun} :
      machine.Rests curr →
      call ≠ .compute →
      call ≠ .trap →
      LifeStep machine.run (curr, call) after →
      MachineStep symbols trampoline (machine, contexts) (.call curr call)
        (machine.setRun after,
          forkContexts machine.run.state after.state curr contexts)
  | skip {machine : Machine} {contexts : Pid → Context} {slot : Pid} :
      machine.Rests slot →
      machine.run.state.Alive slot →
      MachineStep symbols trampoline (machine, contexts) (.skip slot)
        (machine.setBytes (write64 machine.run.state.mem.bytes
          ((machine.run.state.procs slot).tf.toNat + 24)
          (read64 machine.run.state.mem.bytes
            ((machine.run.state.procs slot).tf.toNat + 24) + 4)),
        Function.update contexts slot
          ⟨(contexts slot).regs, (contexts slot).pc + 4⟩)
  | answer {machine : Machine} {contexts : Pid → Context} {slot : Pid}
      {ret : UInt64} :
      machine.Rests slot →
      machine.run.state.Alive slot →
      MachineStep symbols trampoline (machine, contexts) (.answer slot ret)
        (machine.setBytes (write64 machine.run.state.mem.bytes
          ((machine.run.state.procs slot).tf.toNat + 112) ret),
        Function.update contexts slot
          ⟨Function.update (contexts slot).regs .a0 ret, (contexts slot).pc⟩)
  | leave {machine : Machine} {contexts : Pid → Context} {cpu : Fin nCpu}
      {slot : Pid} {left : Hart} :
      (machine.cpus cpu).user = none →
      machine.Rests slot →
      (machine.run.state.procs slot).state = .running →
      leaveKernel symbols trampoline (machine.run.state.procs slot)
        (machine.hart cpu) = some left →
      MachineStep symbols trampoline (machine, contexts) (.leave cpu slot)
        ((machine.setBytes left.bytes).setCpu cpu
          ⟨left.regs, left.csrs, some (slot, left.csrs .sepc)⟩, contexts)

/-- The registers of the first process. -/
def firstContext : Context where
  regs
    | .sp => trapframeVa - 4096
    | _ => 0
  pc := 4096

/-- Machines from the end of `proc_make_first` on. -/
def machineSystem (symbols : Symbols) (kernel : Mem.State)
    (trampoline : UInt64) :
    TransitionSystem (Machine × (Pid → Context)) MachineAction where
  Init := fun (machine, contexts) =>
    (lifeSystem kernel trampoline).Init machine.run ∧
    (∀ cpu, (machine.cpus cpu).user = none ∧
      (machine.cpus cpu).csrs .satp = makeSatp kernel.kernelPgtbl ∧
      (machine.cpus cpu).regs .tp = UInt64.ofNat cpu) ∧
    contexts procZero = firstContext
  Step := MachineStep symbols trampoline

/-- Calls of `proc_wait` pass an address below the trapframe. -/
def CallsBelow :
    Machine × (Pid → Context) → MachineAction → Prop
  | (machine, _), .call curr call => WaitsBelow machine.run (curr, call)
  | _, _ => True

end Trap
end WhuOs
