import WhuOs.Process.Life
import WhuOs.Trap.Vectors

/-!
# Trapframes and stacks as frames

In every state that is reached the trap vectors find the trapframe of each
process, and kernel code finds the stack of its CPU.
-/

namespace WhuOs
namespace Trap

open Library
open Library.Bytes
open Library.Assembly
open Mem
open Process

/-! ## `satp` -/

theorem makeSatp_toNat {pgtbl : UInt64} (small : pgtbl.toNat < 2 ^ 56) :
    (makeSatp pgtbl).toNat = 2 ^ 63 + pgtbl.toNat / 4096 := by
  have shifted : (pgtbl >>> 12).toNat = pgtbl.toNat / 4096 := by
    rw [UInt64.toNat_shiftRight]
    exact Nat.shiftRight_eq_div_pow _ _
  have low : pgtbl.toNat / 4096 < 2 ^ 63 := by omega
  have sum := Nat.two_pow_add_eq_or_of_lt low 1
  unfold makeSatp
  rw [UInt64.toNat_or, shifted]
  exact sum.symm

/-- The hardware finds the page table that `MAKE_SATP` was applied to. -/
theorem satpRoot_makeSatp
    {pgtbl : UInt64} (aligned : Aligned pgtbl) (small : pgtbl.toNat < 2 ^ 56) :
    satpRoot (makeSatp pgtbl) = pgtbl := by
  apply UInt64.toNat_inj.mp
  have mask : (0xFFFFFFFFFFF : UInt64).toNat = 2 ^ 44 - 1 := rfl
  unfold satpRoot
  rw [UInt64.toNat_shiftLeft, UInt64.toNat_and, makeSatp_toNat small, mask,
    Nat.and_two_pow_sub_one_eq_mod, Nat.shiftLeft_eq]
  unfold Aligned at aligned
  change _ * 2 ^ 12 % 2 ^ 64 = _
  omega

theorem makeSatp_mode {pgtbl : UInt64} (small : pgtbl.toNat < 2 ^ 56) :
    makeSatp pgtbl >>> 60 = 8 := by
  apply UInt64.toNat_inj.mp
  rw [UInt64.toNat_shiftRight, makeSatp_toNat small]
  change (2 ^ 63 + pgtbl.toNat / 4096) >>> 60 = 8
  rw [Nat.shiftRight_eq_div_pow]
  omega

theorem reach_of_translate
    {root va pa flags : UInt64} {bytes : Bytes} {access : Access}
    (aligned : Aligned root) (small : root.toNat < 2 ^ 56)
    (found : translate bytes root va = some (pa, flags))
    (permitted : permits flags access = true) :
    reach (makeSatp root) bytes access va = some pa := by
  have mode : ¬makeSatp root >>> 60 = 0 := by
    rw [makeSatp_mode small]
    decide
  unfold reach
  rw [if_neg mode, satpRoot_makeSatp aligned small, found]
  exact if_pos permitted

/-! ## Frames -/

/-- Addresses that stay mapped while a frame is written make it a frame. -/
theorem frame_of_translate
    {root va pa code page codeFlags flags : UInt64} {bytes : Bytes} {size : Nat}
    {csrs : Csr → UInt64} (aligned : Aligned root) (small : root.toNat < 2 ^ 56)
    (isSatp : csrs .satp = makeSatp root) (room : pa.toNat + size < 2 ^ 64)
    (start : va.toNat % 8 = 0) (executable : permits codeFlags .fetch = true)
    (loads : permits flags .load = true) (stores : permits flags .store = true)
    (mapped : ∀ bytes', SameOutside pa.toNat size bytes bytes' →
      translate bytes' root code = some (page, codeFlags) ∧
      ∀ offset : UInt64, offset.toNat + 8 ≤ size →
        translate bytes' root (va + offset) = some (pa + offset, flags)) :
    Frame (supervisor code page) csrs bytes va pa size := by
  refine ⟨room, ?_, ?_⟩
  · intro bytes' same
    apply fetches_of_satp
    rw [isSatp]
    exact reach_of_translate aligned small (mapped bytes' same).1 executable
  · intro bytes' write offset same inside multiple
    have address : (va + offset) % 8 = 0 := by
      apply UInt64.toNat_inj.mp
      rw [UInt64.toNat_mod, UInt64.toNat_add]
      change (va.toNat + offset.toNat) % 2 ^ 64 % 8 = 0
      omega
    have found := (mapped bytes' same).2 offset inside
    dsimp only [supervisor]
    rw [if_pos address, isSatp]
    cases write with
    | true => exact reach_of_translate aligned small found stores
    | false => exact reach_of_translate aligned small found loads

theorem changedIn_of_sameOutside
    {page pa : UInt64} {size : Nat} {bytes bytes' : Bytes}
    (low : page.toNat ≤ pa.toNat) (high : pa.toNat + size ≤ page.toNat + 4096)
    (same : SameOutside pa.toNat size bytes bytes') :
    ChangedIn page bytes bytes' := by
  intro address outside
  apply same
  unfold InPage at outside
  omega

variable {kernel : Mem.State} {trampoline : UInt64} {run : TreeRun}

/-- A page table is in memory. -/
theorem root_small {root : UInt64} (inRam : InRam root) :
    root.toNat < 2 ^ 56 := by
  have bound := inRam.2.2
  omega

/-! ## Areas of the kernel -/

/-- Areas that an address is not in do not matter. -/
theorem mapOf_drop
    {areas : List Area} {va : UInt64} {count : Nat}
    (outside : ∀ area ∈ areas.take count, ¬(area.start ≤ va ∧ va < area.stop)) :
    mapOf areas va = mapOf (areas.drop count) va := by
  induction count generalizing areas with
  | zero => rfl
  | succ count inductionHypothesis =>
      cases areas with
      | nil => rfl
      | cons area areas =>
          rw [List.take_succ_cons] at outside
          rw [mapOf, if_neg (outside area List.mem_cons_self)]
          exact inductionHypothesis fun other member =>
            outside other (List.mem_cons_of_mem area member)

/-- The areas of the stacks are far above memory and below the trampoline. -/
theorem outside_stacks
    {stack : Nat → UInt64} {va : UInt64}
    (place : va < memEnd ∨ trampolineVa ≤ va) :
    ∀ area ∈ (kernelAreas trampoline stack).take 2,
      ¬(area.start ≤ va ∧ va < area.stop) := by
  have high : ∀ cpu < nCpu, memEnd ≤ kstackOf cpu ∧
      kstackOf cpu + 4096 ≤ trampolineVa := by decide
  have isStack : ∀ area ∈ (kernelAreas trampoline stack).take 2,
      ∃ cpu < nCpu, area.start = kstackOf cpu ∧
        area.stop = kstackOf cpu + 4096 := by
    intro area member
    rcases List.mem_cons.mp member with rfl | member
    · exact ⟨1, by decide, rfl, rfl⟩
    · rcases List.mem_singleton.mp member with rfl
      exact ⟨0, by decide, rfl, rfl⟩
  intro area member inside
  rcases isStack area member with ⟨cpu, bound, start, stop⟩
  rw [start, stop] at inside
  rcases place with below | above
  · exact absurd (UInt64.lt_of_lt_of_le below (high cpu bound).1)
      (UInt64.not_lt.mpr inside.1)
  · exact absurd (UInt64.lt_of_lt_of_le inside.2 (high cpu bound).2)
      (UInt64.not_lt.mpr above)

/-- The trampoline is at the top. -/
theorem mapOf_trampoline (trampoline : UInt64) (stack : Nat → UInt64) :
    mapOf (kernelAreas trampoline stack) trampolineVa =
      some (trampoline, pteR ||| pteX ||| pteV) := by
  have inside : vaMax - 4096 ≤ trampolineVa ∧
      trampolineVa < vaMax - 4096 + 4096 := by decide
  rw [mapOf_drop (outside_stacks (Or.inr UInt64.le_rfl))]
  refine (if_pos inside).trans ?_
  have zero : trampolineVa - (vaMax - 4096) = 0 := by decide
  rw [zero, UInt64.add_zero]

/-- Memory is mapped where it is. -/
theorem mapOf_memory
    (trampoline : UInt64) (stack : Nat → UInt64) {va : UInt64}
    (low : memStart ≤ va) (high : va < memEnd) :
    mapOf (kernelAreas trampoline stack) va = some (va, kernPerm ||| pteV) := by
  have notTop : ¬(vaMax - 4096 ≤ va ∧ va < vaMax - 4096 + 4096) := by
    have far : memEnd ≤ vaMax - 4096 := by decide
    exact fun inside => absurd (UInt64.lt_of_lt_of_le high far)
      (UInt64.not_lt.mpr inside.1)
  have inside : memStart ≤ va ∧ va < memStart + (memEnd - memStart) :=
    ⟨low, UInt64.lt_of_lt_of_le high (by decide)⟩
  have same : memStart + (va - memStart) = va := by
    rw [UInt64.add_comm, UInt64.sub_add_cancel]
  rw [mapOf_drop (outside_stacks (Or.inl high))]
  refine ((if_neg notTop).trans (if_pos inside)).trans ?_
  rw [same]

section Started

variable {free : Bool → List UInt64}
  (started : KernelStarted kernel trampoline free)
  (holds : LifeHolds (kernelPart kernel trampoline) trampoline run)

include started holds

/-- The page table of the kernel is in memory. -/
theorem kernelPgtbl_inRam : InRam run.state.mem.kernelPgtbl := by
  rcases holds.spaces with ⟨free', held, spaces⟩
  rw [spaces.kernelPgtbl]
  exact started.ownedRam _ (Or.inl ⟨started.present, [], Nat.zero_le 2, rfl⟩)

/-- What the kernel sees is given by the areas of `kvm_init`. -/
theorem kernel_areas
    {stack : Nat → UInt64} (areas : ∀ va,
      translate kernel.bytes kernel.kernelPgtbl va =
        mapOf (kernelAreas trampoline stack) va) (va : UInt64) :
    translate run.state.mem.bytes run.state.mem.kernelPgtbl va =
      mapOf (kernelAreas trampoline stack) va := by
  rw [← areas va]
  exact (holds.gatesOpen started).sameKernel va

/-- The trampoline is mapped for the kernel, too. -/
theorem kernel_fetches :
    reach (makeSatp run.state.mem.kernelPgtbl) run.state.mem.bytes .fetch
      trampolineVa = some trampoline := by
  rcases started.areas with ⟨stack, areas⟩
  have inRam := kernelPgtbl_inRam started holds
  have executable : permits (pteR ||| pteX ||| pteV) .fetch = true := by decide
  refine reach_of_translate inRam.1 (root_small inRam) ?_ executable
  rw [kernel_areas started holds areas]
  exact mapOf_trampoline trampoline stack

/-- The trap vectors find the trapframe of a process. -/
theorem trapframe_frame
    {slot : Pid} (isUsed : (run.state.procs slot).state ≠ .unused)
    {csrs : Csr → UInt64}
    (isSatp : csrs .satp = makeSatp (pgtbls run.state slot)) :
    Frame (supervisor trampolineVa trampoline) csrs run.state.mem.bytes
      trapframeVa (run.state.procs slot).tf 288 := by
  rcases holds.spaces with ⟨free', held, spaces⟩
  have some := spaces.trapframe_some isUsed
  have tfRam := spaces.user.inRam _ some
  rw [spaces.trapframe] at tfRam
  have room := tfRam.2.2
  have rootRam : InRam (pgtbls run.state slot) :=
    spaces.formed.tables (.slot slot) [] (Nat.zero_le 2)
      (spaces.slots.used slot isUsed).1
  have executable : permits (pteR ||| pteX ||| pteV) .fetch = true := by decide
  have readable : permits (pteR ||| pteW ||| pteV) .load = true := by decide
  have writable : permits (pteR ||| pteW ||| pteV) .store = true := by decide
  have inside : (run.state.procs slot).tf.toNat + 288 < 2 ^ 64 := by omega
  refine frame_of_translate rootRam.1 (root_small rootRam) isSatp inside rfl
    executable readable writable ?_
  intro bytes same
  have changed : ChangedIn (run.state.procs slot).tf run.state.mem.bytes
      bytes := changedIn_of_sameOutside (Nat.le_refl _) (by omega) same
  have holds' := holds.store fun free held spaces =>
    ⟨_, spaces.trapframe_some isUsed, fun _ _ => nofun, by
      rw [spaces.trapframe]
      exact changed⟩
  have gates := holds'.gatesOpen started
  constructor
  · have code := gates.atTrampoline slot isUsed 0 (by decide)
    rw [UInt64.add_zero] at code
    exact code.trans (by rw [UInt64.add_zero])
  · intro offset inside
    have small : (288 : Nat) < 4096 := by decide
    have size : (4096 : UInt64).toNat = 4096 := rfl
    apply gates.atTrapframe slot isUsed offset
    rw [UInt64.lt_iff_toNat_lt]
    omega

end Started

/-- Kernel code in memory finds the stack of a CPU, always in the same page. -/
theorem stack_frame
    {free : Bool → List UInt64}
    (started : KernelStarted kernel trampoline free)
    {cpu : Nat} (bound : cpu < nCpu) {offset code : UInt64}
    (inside : offset.toNat + 256 ≤ 4096) (aligned : offset.toNat % 8 = 0)
    (low : memStart ≤ code) (high : code < memEnd) :
    ∃ page : UInt64, page.toNat + 4096 < 2 ^ 64 ∧ ∀ run : TreeRun,
      LifeHolds (kernelPart kernel trampoline) trampoline run →
      IsStack run.state.mem page ∧ ∀ csrs : Csr → UInt64,
        csrs .satp = makeSatp kernel.kernelPgtbl →
        Frame (supervisor code code) csrs run.state.mem.bytes
          (kstackOf cpu + offset) (page + offset) 256 := by
  rcases started.areas with ⟨stack, areas⟩
  have wasStack : IsStack kernel (stack cpu) :=
    ⟨cpu, bound, _, (areas _).trans (mapOf_kstack stack bound)⟩
  have owned : (kernelPart kernel trampoline).owned (stack cpu) :=
    Or.inr (Or.inr wasStack)
  have pageRam := started.ownedRam _ owned
  have room := pageRam.2.2
  have place : (stack cpu + offset).toNat = (stack cpu).toNat + offset.toNat := by
    rw [UInt64.toNat_add]
    omega
  have start : (kstackOf cpu + offset).toNat % 8 = 0 := by
    have processes : nCpu ≤ nProc := by decide
    rw [UInt64.toNat_add, kstackOf_toNat (Nat.lt_of_lt_of_le bound processes)]
    omega
  have executable : permits (kernPerm ||| pteV) .fetch = true := by decide
  have readable : permits (pteR ||| pteW ||| pteV) .load = true := by decide
  have writable : permits (pteR ||| pteW ||| pteV) .store = true := by decide
  refine ⟨stack cpu, by omega, ?_⟩
  intro run holds
  rcases holds.spaces with ⟨free', held, spaces⟩
  have isStack : IsStack run.state.mem (stack cpu) :=
    ⟨cpu, bound, _, (kernel_areas started holds areas _).trans
      (mapOf_kstack stack bound)⟩
  have rootRam := kernelPgtbl_inRam started holds
  refine ⟨isStack, ?_⟩
  intro csrs isSatp
  rw [← show _ = kernel.kernelPgtbl from spaces.kernelPgtbl] at isSatp
  refine frame_of_translate rootRam.1 (root_small rootRam) isSatp (by omega)
    start executable readable writable ?_
  intro bytes same
  have changed : ChangedIn (stack cpu) run.state.mem.bytes bytes :=
    changedIn_of_sameOutside (by omega) (by omega) same
  have below : WaitsBelow run (procZero, .work) := trivial
  have holds' := holds.step started below (.work isStack changed)
  have translates := kernel_areas started holds' areas
  constructor
  · exact (translates code).trans (mapOf_memory trampoline stack low high)
  · intro field fits
    have sum : (offset + field).toNat = offset.toNat + field.toNat := by
      rw [UInt64.toNat_add]
      omega
    have found := mapOf_stack trampoline stack bound
      (show (offset + field).toNat < 4096 by omega)
    rw [← UInt64.add_assoc, ← UInt64.add_assoc] at found
    exact (translates _).trans found

end Trap
end WhuOs
