import WhuOs.Library.Assembly
import WhuOs.Mem.Defs
import WhuOs.Mem.Sv39

/-!
# Assembly code of the kernel

The routines of `trampoline.S`, `trap.S` and `swtch.S` up to the jump that ends
them, on the registers of a hart.  In supervisor mode addresses go through the
page table in `satp`; machine mode uses physical addresses.  The bits `SUM` and
`MXR` of `sstatus` are never set, so supervisor mode has no access to pages of
users.
-/

namespace WhuOs
namespace Trap

open Library
open Library.Assembly
open Mem (translate pteR pteW pteX pteU)

/-- The registers; `zero` does not change. -/
inductive Reg
  | ra | sp | gp | tp | t0 | t1 | t2 | s0 | s1
  | a0 | a1 | a2 | a3 | a4 | a5 | a6 | a7
  | s2 | s3 | s4 | s5 | s6 | s7 | s8 | s9 | s10 | s11
  | t3 | t4 | t5 | t6
  deriving DecidableEq

/-- The control registers the kernel uses for traps. -/
inductive Csr
  | sscratch | satp | stvec | sepc | sstatus | scause | sip
  | mscratch | mtvec | mie
  deriving DecidableEq

/-- A hart with memory. -/
abbrev Hart := Core Reg Csr

/-! ## Accesses -/

/-- What an access does. -/
inductive Access
  | load | store | fetch

/-- Whether the flags of an entry permit an access in supervisor mode.  Pages
that can be written but not read do not exist. -/
def permits (flags : UInt64) (access : Access) : Bool :=
  flags &&& pteU = 0 && !(flags &&& pteR = 0 && flags &&& pteW ≠ 0) &&
    match access with
    | .load => flags &&& pteR ≠ 0
    | .store => flags &&& pteW ≠ 0
    | .fetch => flags &&& pteX ≠ 0

/-- `MAKE_SATP`. -/
def makeSatp (pgtbl : UInt64) : UInt64 :=
  (8 : UInt64) <<< 60 ||| pgtbl >>> 12

/-- The page table in `satp`. -/
def satpRoot (satp : UInt64) : UInt64 :=
  (satp &&& 0xFFFFFFFFFFF) <<< 12

/-- Where an access in supervisor mode goes. -/
def reach (satp : UInt64) (bytes : Bytes) (access : Access) (va : UInt64) :
    Option UInt64 :=
  if satp >>> 60 = 0 then
    some va
  else
    match translate bytes (satpRoot satp) va with
    | some (pa, flags) => if permits flags access then some pa else none
    | none => none

/-- What a control register holds after a write.  Only the modes without and
with translation can be chosen in `satp`, and only the bit for a software
interrupt can be changed in `sip`. -/
def csrWritten : Csr → (before value : UInt64) → UInt64
  | .satp, before, value =>
      if value >>> 60 = 0 ∨ value >>> 60 = 8 then value else before
  | .sip, before, value => (before &&& ~~~2) ||| (value &&& 2)
  | .sepc, _, value => value &&& ~~~1
  | _, _, value => value

/-- Supervisor mode with code in one page, at `code` and in memory at `page`. -/
def supervisor (code page : UInt64) : Platform Csr where
  fetches csrs bytes := reach (csrs .satp) bytes .fetch code = some page
  reaches csrs bytes write va :=
    if va % 8 = 0 then
      reach (csrs .satp) bytes (if write then .store else .load) va
    else none
  written := csrWritten

/-- Machine mode. -/
def machine : Platform Csr where
  fetches _ _ := true
  reaches _ _ _ va := if va % 8 = 0 then some va else none
  written := csrWritten

/-! ## `trampoline.S` -/

/-- The registers `user_vector` saves at once and `user_return` loads. -/
def userSlots : List (Reg × UInt64) :=
  [(.ra, 40), (.sp, 48), (.gp, 56), (.tp, 64), (.t0, 72), (.t1, 80), (.t2, 88),
    (.s0, 96), (.s1, 104), (.a1, 120), (.a2, 128), (.a3, 136), (.a4, 144),
    (.a5, 152), (.a6, 160), (.a7, 168), (.s2, 176), (.s3, 184), (.s4, 192),
    (.s5, 200), (.s6, 208), (.s7, 216), (.s8, 224), (.s9, 232), (.s10, 240),
    (.s11, 248), (.t3, 256), (.t4, 264), (.t5, 272), (.t6, 280)]

/-- `user_vector`, which then jumps to `t0`. -/
def userVector : List (Instr Reg Csr) :=
  .csrrw .a0 .sscratch .a0 ::
  (saves .a0 userSlots ++
  [.csrr .t0 .sscratch,
    .sd .t0 112 .a0,
    .ld .sp 8 .a0,
    .ld .tp 32 .a0,
    .ld .t0 16 .a0,
    .ld .t1 0 .a0,
    .csrw .satp .t1,
    .sfenceVma])

/-- `user_return`, which ends with `sret`. -/
def userReturn : List (Instr Reg Csr) :=
  [.csrw .satp .a1,
    .sfenceVma,
    .ld .t0 112 .a0,
    .csrw .sscratch .t0] ++
  (loads .a0 userSlots ++
  [.csrrw .a0 .sscratch .a0])

/-! ## `trap.S` -/

/-- The registers `kernel_vector` saves. -/
def kernelSlots : List (Reg × UInt64) :=
  [(.ra, 0), (.sp, 8), (.gp, 16), (.tp, 24), (.t0, 32), (.t1, 40), (.t2, 48),
    (.s0, 56), (.s1, 64), (.a0, 72), (.a1, 80), (.a2, 88), (.a3, 96),
    (.a4, 104), (.a5, 112), (.a6, 120), (.a7, 128), (.s2, 136), (.s3, 144),
    (.s4, 152), (.s5, 160), (.s6, 168), (.s7, 176), (.s8, 184), (.s9, 192),
    (.s10, 200), (.s11, 208), (.t3, 216), (.t4, 224), (.t5, 232), (.t6, 240)]

/-- The registers `kernel_vector` loads. -/
def kernelLoads : List (Reg × UInt64) :=
  kernelSlots.filter fun slot => slot.1 ≠ .tp

/-- `kernel_vector` before it calls `trap_kernel_handler`. -/
def kernelVectorEnter : List (Instr Reg Csr) :=
  .addi .sp .sp (-256) :: saves .sp kernelSlots

/-- `kernel_vector` after the call, up to `sret`. -/
def kernelVectorLeave : List (Instr Reg Csr) :=
  loads .sp kernelLoads ++ [.addi .sp .sp 256]

/-- `timer_vector`, which ends with `mret`. -/
def timerVector : List (Instr Reg Csr) :=
  [.csrrw .a0 .mscratch .a0,
    .sd .a1 0 .a0,
    .sd .a2 8 .a0,
    .sd .a3 16 .a0,
    .ld .a1 24 .a0,
    .ld .a2 32 .a0,
    .ld .a3 0 .a1,
    .add .a3 .a3 .a2,
    .sd .a3 0 .a1,
    .li .a1 2,
    .csrw .sip .a1,
    .ld .a3 16 .a0,
    .ld .a2 8 .a0,
    .ld .a1 0 .a0,
    .csrrw .a0 .mscratch .a0]

/-! ## `swtch.S` -/

/-- The registers of a `context_t`. -/
def contextSlots : List (Reg × UInt64) :=
  [(.ra, 0), (.sp, 8), (.s0, 16), (.s1, 24), (.s2, 32), (.s3, 40), (.s4, 48),
    (.s5, 56), (.s6, 64), (.s7, 72), (.s8, 80), (.s9, 88), (.s10, 96),
    (.s11, 104)]

/-- `swtch`, which returns to `ra`. -/
def swtch : List (Instr Reg Csr) :=
  saves .a0 contextSlots ++ loads .a1 contextSlots

end Trap
end WhuOs
