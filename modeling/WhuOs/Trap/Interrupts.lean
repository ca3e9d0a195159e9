import WhuOs.Trap.Frames

/-!
# Interrupts of the kernel

Code of the kernel that is interrupted gets its registers back from
`kernel_vector`, all but `tp`, which stays that of the hart.  `sepc` and
`sstatus` are what the handler leaves.
-/

namespace WhuOs
namespace Trap

open Library
open Library.Bytes
open Library.Assembly
open Mem (ChangedIn)
open Process

/-! ## The code -/

section Kernel

variable {code page pa : UInt64} {hart : Hart}

/-- A hart when `kernel_vector` calls the handler. -/
def kernelEntered (pa : UInt64) (hart : Hart) : Hart where
  regs := Function.update hart.regs .sp (hart.regs .sp + -256)
  csrs := hart.csrs
  bytes := savedBytes pa
    (Function.update hart.regs .sp (hart.regs .sp + -256)) kernelSlots
    hart.bytes

theorem run_kernelVectorEnter
    (frame : Frame (supervisor code page) hart.csrs hart.bytes
      (hart.regs .sp + -256) pa 256) :
    run (supervisor code page) kernelVectorEnter hart =
      some (kernelEntered pa hart) := by
  let moved := hart.setReg .sp (hart.regs .sp + -256)
  have isBase : moved.regs .sp = hart.regs .sp + -256 := rfl
  have executed : (Instr.addi .sp .sp (-256)).exec (supervisor code page)
      hart = some moved := rfl
  have frame' : Frame (supervisor code page) moved.csrs moved.bytes
      (moved.regs .sp) pa 256 := by
    rw [isBase]
    exact frame
  have saved := run_saves slots_kernel [] frame'
  rw [List.append_nil] at saved
  unfold kernelVectorEnter
  rw [run_cons frame.fetched executed, saved]
  rfl

/-- What the handler leaves alone: the stack pointer and the frame. -/
structure Handled (pa : UInt64) (entered handled : Hart) : Prop where
  sp : handled.regs .sp = entered.regs .sp
  bytes : ∀ address, pa.toNat ≤ address → address < pa.toNat + 256 →
    handled.bytes address = entered.bytes address

/-- A slot of the frame after the handler. -/
theorem Handled.read64
    {handled : Hart} (isHandled : Handled pa (kernelEntered pa hart) handled)
    {slot : Reg × UInt64} (member : slot ∈ kernelSlots) :
    read64 handled.bytes (pa.toNat + slot.2.toNat) =
      (kernelEntered pa hart).regs slot.1 := by
  have inside := (slots_kernel.inside slot member).1
  have same : Bytes.read64 handled.bytes (pa.toNat + slot.2.toNat) =
      Bytes.read64 (kernelEntered pa hart).bytes (pa.toNat + slot.2.toNat) := by
    apply read64_congr
    intro index bound
    exact isHandled.bytes _ (by omega) (by omega)
  rw [same]
  exact read64_savedBytes slots_kernel member

/-- Every register but `tp` is loaded. -/
theorem exists_kernelLoad {register : Reg} (notTp : register ≠ .tp) :
    ∃ slot ∈ kernelLoads, slot.1 = register := by
  cases register
  case tp => exact absurd rfl notTp
  all_goals decide

theorem slots_kernelLoads : Slots 256 kernelLoads :=
  ⟨by decide, by decide, by decide⟩

/-- After the handler every register but `tp` is what it was. -/
theorem run_kernelVectorLeave
    {handled : Hart} (isHandled : Handled pa (kernelEntered pa hart) handled)
    (frame : Frame (supervisor code page) handled.csrs handled.bytes
      (hart.regs .sp + -256) pa 256) :
    run (supervisor code page) kernelVectorLeave handled =
      some ⟨Function.update hart.regs .tp (handled.regs .tp), handled.csrs,
        handled.bytes⟩ := by
  have isBase : handled.regs .sp = hart.regs .sp + -256 := isHandled.sp
  have among : ∀ slot ∈ kernelLoads, slot ∈ kernelSlots := by decide
  have isLoaded : ∀ slot ∈ kernelLoads,
      loadedRegs pa handled.bytes kernelLoads handled.regs slot.1 =
        (kernelEntered pa hart).regs slot.1 := by
    intro slot member
    rw [loadedRegs_of_mem slots_kernelLoads member]
    exact isHandled.read64 (among slot member)
  have kept : ∀ slot ∈ kernelLoads, slot.1 = .sp →
      Bytes.read64 handled.bytes (pa.toNat + slot.2.toNat) =
        handled.regs .sp := by
    intro slot member isSp
    rw [isHandled.read64 (among slot member), isSp]
    exact isHandled.sp.symm
  have tpKept : loadedRegs pa handled.bytes kernelLoads handled.regs .tp =
      handled.regs .tp := by
    have other : ∀ slot ∈ kernelLoads, slot.1 ≠ .tp := by decide
    exact loadedRegs_of_not_mem other
  have spLoaded : loadedRegs pa handled.bytes kernelLoads handled.regs .sp =
      hart.regs .sp + -256 := isLoaded (.sp, 8) (by decide)
  have restored : Function.update
      (loadedRegs pa handled.bytes kernelLoads handled.regs) .sp
      (hart.regs .sp + -256 + 256) =
      Function.update hart.regs .tp (handled.regs .tp) := by
    funext register
    by_cases isSp : register = .sp
    · rw [isSp, Function.update_self, Function.update_of_ne (by decide),
        UInt64.add_assoc]
      exact UInt64.add_zero _
    · rw [Function.update_of_ne isSp]
      by_cases isTp : register = .tp
      · rw [isTp, tpKept, Function.update_self]
      · rcases exists_kernelLoad isTp with ⟨slot, member, rfl⟩
        rw [isLoaded slot member, Function.update_of_ne isTp]
        exact Function.update_of_ne isSp _ _
  have frame' := frame
  rw [← isBase] at frame'
  calc run (supervisor code page) kernelVectorLeave handled
    _ = run (supervisor code page) [.addi .sp .sp 256]
          ⟨loadedRegs pa handled.bytes kernelLoads handled.regs, handled.csrs,
            handled.bytes⟩ := run_loads slots_kernelLoads _ frame' kept
    _ = run (supervisor code page) [] ⟨Function.update
            (loadedRegs pa handled.bytes kernelLoads handled.regs) .sp
            (hart.regs .sp + -256 + 256), handled.csrs, handled.bytes⟩ := by
        rw [← spLoaded]
        exact run_cons frame.fetched rfl
    _ = _ := by
        rw [restored]
        rfl

end Kernel

/-! ## Interrupts in the system -/

variable {kernel : Mem.State} {trampoline : UInt64}

/-- Code of the kernel that runs on the stack of a CPU with space for the frame
of `kernel_vector`. -/
structure OnStack (kernel : Mem.State) (bytes : Bytes) (cpu : Nat)
    (offset : UInt64) (hart : Hart) : Prop where
  stack : cpu < nCpu
  inside : offset.toNat + 256 ≤ 4096
  aligned : offset.toNat % 8 = 0
  sp : hart.regs .sp = kstackOf cpu + offset + 256
  satp : hart.csrs .satp = makeSatp kernel.kernelPgtbl
  bytes : hart.bytes = bytes

end Trap
end WhuOs
