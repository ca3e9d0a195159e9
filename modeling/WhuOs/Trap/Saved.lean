import WhuOs.Process.Trapframes
import WhuOs.Trap.Machine

/-!
# Contexts in trapframes

A trapframe contains the registers and the program counter of a process while
it does not run.  The kernel stores fields of its own beside them.
-/

namespace WhuOs
namespace Trap

open Library
open Library.Bytes
open Library.Assembly
open Mem
open Process

/-- A trapframe contains a context. -/
structure Saved (bytes : Bytes) (tf : UInt64) (context : Context) : Prop where
  regs : InTrapframe bytes tf context.regs
  pc : read64 bytes (tf.toNat + 24) = context.pc

namespace Saved

variable {bytes bytes' : Bytes} {tf tf' : UInt64} {context : Context}

/-- A trapframe was copied, or it stayed as it is. -/
theorem congr
    (saved : Saved bytes tf context)
    (same : ∀ offset < 288, bytes' (tf'.toNat + offset) =
      bytes (tf.toNat + offset)) : Saved bytes' tf' context := by
  have fields : ∀ offset, offset + 8 ≤ 288 →
      read64 bytes' (tf'.toNat + offset) = read64 bytes (tf.toNat + offset) := by
    intro offset inside
    apply read64_congr
    intro index bound
    rw [Nat.add_assoc, Nat.add_assoc]
    exact same _ (by omega)
  constructor
  · intro slot member
    rw [fields _ (slots_trapframe.inside slot member).1]
    exact saved.regs slot member
  · rw [fields 24 (by decide)]
    exact saved.pc

theorem of_unchanged
    (saved : Saved bytes tf context) (unchanged : Unchanged tf bytes bytes') :
    Saved bytes' tf context := by
  apply saved.congr
  intro offset bound
  have inside : InPage (tf.toNat + offset) tf := by
    unfold InPage
    omega
  exact unchanged _ inside

/-- A register is stored. -/
theorem setReg
    (saved : Saved bytes tf context) {slot : Reg × UInt64}
    (member : slot ∈ trapframeSlots) (value : UInt64) :
    Saved (write64 bytes (tf.toNat + slot.2.toNat) value) tf
      ⟨Function.update context.regs slot.1 value, context.pc⟩ := by
  have fits := slots_trapframe
  constructor
  · intro other member'
    change _ = Function.update context.regs slot.1 value other.1
    by_cases same : other = slot
    · rw [same, read64_write64, Function.update_self]
    · have registers : other.1 ≠ slot.1 := fun isSame =>
        same (List.inj_on_of_nodup_map fits.registers member' member isSame)
      have offsets : other.2.toNat ≠ slot.2.toNat := fun isSame =>
        same (List.inj_on_of_nodup_map fits.offsets member' member
          (UInt64.toNat_inj.mp isSame))
      have aligned := (fits.inside slot member).2
      have aligned' := (fits.inside other member').2
      rw [Function.update_of_ne registers]
      refine (read64_memmove_of_disjoint _ _ ?_).trans
        (saved.regs other member')
      omega
  · have above : ∀ slot ∈ trapframeSlots, 32 ≤ slot.2.toNat := by decide
    have place := above slot member
    refine (read64_memmove_of_disjoint _ _ ?_).trans saved.pc
    omega

/-- The return value is stored. -/
theorem answer (saved : Saved bytes tf context) (ret : UInt64) :
    Saved (write64 bytes (tf.toNat + 112) ret) tf
      ⟨Function.update context.regs .a0 ret, context.pc⟩ :=
  saved.setReg (show (Reg.a0, 112) ∈ trapframeSlots by decide) ret

/-- The program counter is stored. -/
theorem setPc (saved : InTrapframe bytes tf context.regs) :
    Saved (write64 bytes (tf.toNat + 24) context.pc) tf context := by
  have apart : ∀ slot ∈ trapframeSlots, 32 ≤ slot.2.toNat := by decide
  constructor
  · intro slot member
    have above := apart slot member
    refine (read64_memmove_of_disjoint _ _ ?_).trans (saved slot member)
    omega
  · exact read64_write64 _ _ _

/-- Fields for the kernel are stored. -/
theorem setField
    (saved : Saved bytes tf context) {offset : Nat}
    (isField : offset ∈ [0, 8, 16, 32]) (value : UInt64) :
    Saved (write64 bytes (tf.toNat + offset) value) tf context := by
  have apart : ∀ offset ∈ [0, 8, 16, 32], ∀ other ∈ 24 ::
      trapframeSlots.map fun slot => slot.2.toNat,
      other + 8 ≤ offset ∨ offset + 8 ≤ other := by decide
  constructor
  · intro slot member
    have place := apart offset isField slot.2.toNat
      (List.mem_cons_of_mem _ (List.mem_map_of_mem member))
    refine (read64_memmove_of_disjoint _ _ ?_).trans (saved.regs slot member)
    omega
  · have place := apart offset isField 24 List.mem_cons_self
    refine (read64_memmove_of_disjoint _ _ ?_).trans saved.pc
    omega

/-- A child has the context of its parent and the return value 0. -/
theorem copied
    (saved : Saved bytes tf context)
    (copy : ∀ offset < trapframeSize, bytes' (tf'.toNat + offset) =
      if 112 ≤ offset ∧ offset < 120 then 0 else bytes (tf.toNat + offset)) :
    Saved bytes' tf' ⟨Function.update context.regs .a0 0, context.pc⟩ := by
  refine (saved.answer 0).congr ?_
  intro offset bound
  rw [copy offset bound]
  split
  · next inside =>
    have written := memmove_of_mem bytes (Bytes.byteOf (0 : UInt64).toNat)
      (show tf.toNat + 112 ≤ tf.toNat + offset ∧
        tf.toNat + offset < tf.toNat + 112 + 8 by omega)
    refine Eq.symm (written.trans ?_)
    unfold Bytes.byteOf
    rw [UInt64.toNat_zero, Nat.zero_div]
    rfl
  · next outside =>
    exact (memmove_of_not_mem _ _ (by omega)).symm

end Saved

/-- The lowest bit of an even address is clear. -/
theorem clear_of_even {pc : UInt64} (even : pc.toNat % 2 = 0) :
    pc &&& ~~~1 = pc := by
  have mask : (~~~1 : UInt64).toNat / 2 = 2 ^ 63 - 1 := rfl
  have bound := pc.toNat_lt
  apply UInt64.toNat_inj.mp
  apply Nat.eq_of_testBit_eq
  intro index
  rw [UInt64.toNat_and, Nat.testBit_and]
  cases index with
  | zero =>
      rw [Nat.testBit_zero, even]
      rfl
  | succ index =>
      have isMask : (~~~1 : UInt64).toNat.testBit (index + 1) =
          decide (index < 63) := by
        rw [Nat.testBit_succ, mask, Nat.testBit_two_pow_sub_one]
      rw [isMask]
      by_cases inside : index < 63
      · rw [decide_eq_true inside, Bool.and_true]
      · rw [Nat.testBit_lt_two_pow (Nat.lt_of_lt_of_le bound
          (Nat.pow_le_pow_right (by decide) (by omega)))]
        rfl

/-- Fields of a trapframe that was left alone. -/
theorem read64_of_unchanged
    {tf : UInt64} {bytes bytes' : Bytes} (unchanged : Unchanged tf bytes bytes')
    {offset : Nat} (inside : offset + 8 ≤ 4096) :
    read64 bytes' (tf.toNat + offset) = read64 bytes (tf.toNat + offset) := by
  apply read64_congr
  intro index bound
  apply unchanged
  unfold InPage
  omega

/-- A write to the registers or the fields of a trapframe. -/
theorem changedIn_field
    (tf value : UInt64) (bytes : Bytes) {offset : Nat}
    (inside : offset + 8 ≤ 4096) :
    ChangedIn tf bytes (write64 bytes (tf.toNat + offset) value) :=
  changedIn_memmove (Nat.le_add_right _ _) (by omega)

theorem changedIn_trans
    {page : UInt64} {first second third : Bytes}
    (lower : ChangedIn page first second)
    (upper : ChangedIn page second third) : ChangedIn page first third := by
  intro address outside
  rw [upper address outside, lower address outside]

/-! ## The mode -/

theorem or_and (first second mask : UInt64) :
    (first ||| second) &&& mask = (first &&& mask) ||| (second &&& mask) := by
  apply UInt64.toNat_inj.mp
  rw [UInt64.toNat_and, UInt64.toNat_or, UInt64.toNat_or, UInt64.toNat_and,
    UInt64.toNat_and, Nat.and_or_distrib_right]

/-- A trap from user mode clears `SPP`. -/
theorem trapped_spp (pc scause : UInt64) (csrs : Csr → UInt64) :
    trapped pc scause csrs .sstatus &&& sstatusSpp = 0 := by
  have cleared : ~~~(sstatusSpp ||| sstatusSpie ||| sstatusSie) &&&
      sstatusSpp = 0 := by decide
  have moved : sstatusSie <<< 4 &&& sstatusSpp = 0 := by decide
  unfold trapped
  dsimp only
  rw [or_and, UInt64.shiftLeft_and, UInt64.and_assoc, UInt64.and_assoc, cleared,
    moved, UInt64.and_zero, UInt64.and_zero]
  rfl

/-- `trap_user_return` clears `SPP`. -/
theorem trapUserReturn_spp (symbols : Symbols) (proc : Proc) (hart : Hart) :
    (trapUserReturn symbols proc hart).csrs .sstatus &&& sstatusSpp = 0 := by
  have cleared : ~~~sstatusSpp &&& sstatusSpp = 0 := by decide
  have apart : sstatusSpie &&& sstatusSpp = 0 := by decide
  unfold trapUserReturn
  dsimp only
  rw [or_and, UInt64.and_assoc, cleared, apart, UInt64.and_zero]
  rfl

/-! ## `trap_user_return` -/

section Return

variable (symbols : Symbols) (proc : Proc) (hart : Hart)

theorem changedIn_trapUserReturn :
    ChangedIn proc.tf hart.bytes (trapUserReturn symbols proc hart).bytes := by
  have zero := changedIn_field proc.tf (hart.csrs .satp) hart.bytes
    (show 0 + 8 ≤ 4096 by decide)
  rw [Nat.add_zero] at zero
  exact changedIn_trans (changedIn_trans (changedIn_trans zero
    (changedIn_field _ _ _ (by decide))) (changedIn_field _ _ _ (by decide)))
    (changedIn_field _ _ _ (by decide))

/-- `trap_user_return` leaves the context alone. -/
theorem saved_trapUserReturn
    {context : Context} (saved : Saved hart.bytes proc.tf context) :
    Saved (trapUserReturn symbols proc hart).bytes proc.tf context := by
  have zero := saved.setField (show 0 ∈ [0, 8, 16, 32] by decide)
    (hart.csrs .satp)
  rw [Nat.add_zero] at zero
  exact ((zero.setField (by decide) _).setField (by decide) _).setField
    (by decide) _

/-- The fields that `trap_user_return` stores. -/
theorem fields_trapUserReturn :
    read64 (trapUserReturn symbols proc hart).bytes proc.tf.toNat =
        hart.csrs .satp ∧
      read64 (trapUserReturn symbols proc hart).bytes (proc.tf.toNat + 8) =
        proc.kstack + 4096 ∧
      read64 (trapUserReturn symbols proc hart).bytes (proc.tf.toNat + 16) =
        symbols.trapUserHandler ∧
      read64 (trapUserReturn symbols proc hart).bytes (proc.tf.toNat + 32) =
        hart.regs .tp := by
  have skip : ∀ (bytes : Bytes) (address field : Nat) (value : UInt64),
      field + 8 ≤ address →
      read64 (write64 bytes address value) field = read64 bytes field :=
    fun bytes address field value below =>
      read64_memmove_of_disjoint _ _ (Or.inl below)
  unfold trapUserReturn
  dsimp only
  refine ⟨?_, ?_, ?_, ?_⟩
  · rw [skip _ _ _ _ (by omega), skip _ _ _ _ (by omega),
      skip _ _ _ _ (by omega), read64_write64]
  · rw [skip _ _ _ _ (by omega), skip _ _ _ _ (by omega), read64_write64]
  · rw [skip _ _ _ _ (by omega), read64_write64]
  · rw [read64_write64]

end Return

/-! ## The first process -/

/-- A trapframe that was filled with zeros. -/
theorem saved_cleared (tf : UInt64) (bytes : Bytes) :
    Saved (memmove bytes tf.toNat (fun _ => 0) trapframeSize) tf
      ⟨fun _ => 0, 0⟩ := by
  have zero : ∀ offset, offset + 8 ≤ trapframeSize →
      read64 (memmove bytes tf.toNat (fun _ => 0) trapframeSize)
        (tf.toNat + offset) = 0 :=
    fun offset inside => read64_cleared bytes (by omega)
  exact ⟨fun slot member => zero _ (slots_trapframe.inside slot member).1,
    zero 24 (by decide)⟩

/-- The first trapframe contains the first context. -/
theorem saved_makeFirstMemory
    {boot : BootData} {pgtbl tf kstack : UInt64} {mem mem' : Mem.State}
    (room : tf.toNat + 288 < 2 ^ 64)
    (run : (makeFirstMemory boot pgtbl tf kstack).Runs mem () mem') :
    Saved mem'.bytes tf firstContext := by
  simp only [makeFirstMemory, Program.runs_bind, Program.runs_assert,
    Program.runs_modify, decide_eq_true_eq, runs_store] at run
  rcases run with ⟨_, _, _, _, _, _, _, _, ⟨_, _⟩, _, _, _, _, _, _, _, _,
    ⟨_, rfl⟩, codePa, _, _, _, _, ⟨_, rfl⟩, _, mem₆, _, _, _, rfl, _, _, rfl, _, _,
    rfl, _, _, rfl, _, _, rfl, _, _, rfl, _, _, rfl, rfl⟩
  have field : ∀ offset : UInt64, offset.toNat + 8 ≤ 288 →
      (tf + offset).toNat = tf.toNat + offset.toNat := by
    intro offset inside
    rw [UInt64.toNat_add]
    omega
  have context : (⟨Function.update (fun _ => 0) .sp
      (trapframeVa - 8192 + 4096), 4096⟩ : Context) = firstContext := by
    apply Context.ext
    · funext register
      cases register <;> rfl
    · rfl
  simp only [State.setBytes_bytes]
  rw [field 24 (by decide), field 48 (by decide), field 32 (by decide),
    field 8 (by decide), field 16 (by decide), ← context]
  have cleared := saved_cleared tf (memmove mem₆.bytes codePa.toNat
    boot.initcode boot.initcodeLen)
  have withPc := @Saved.setPc _ _ ⟨fun _ => 0, 4096⟩ cleared.regs
  have withSp := withPc.setReg (show (Reg.sp, 48) ∈ trapframeSlots by decide)
    (trapframeVa - 8192 + 4096)
  have satp := withSp.setField (show 0 ∈ [0, 8, 16, 32] by decide)
    boot.kernelSatp
  rw [Nat.add_zero] at satp
  exact ((satp.setField (by decide) _).setField (by decide) _).setField
    (by decide) _

/-- `proc_make_first` prepares the first context. -/
theorem saved_first
    {boot : BootData} {before final : Process.State}
    (run : (procMakeFirst boot).Runs before () final)
    (room : (final.procs procZero).tf.toNat + 288 < 2 ^ 64) :
    Saved final.mem.bytes (final.procs procZero).tf firstContext := by
  simp only [procMakeFirst, Program.runs_bind, Program.runs_get, runs_onMem,
    Program.runs_assert, runs_modifyProc] at run
  rcases run with ⟨_, _, ⟨rfl, rfl⟩, pid, _, _, tf, _, ⟨_, _, rfl⟩, _, _,
    ⟨_, rfl⟩, pgtbl, _, ⟨_, _, rfl⟩, _, _, ⟨_, rfl⟩, _, _, ⟨_, fills, rfl⟩,
    rfl⟩
  rw [setProc_procs_self] at room ⊢
  exact saved_makeFirstMemory room fills

end Trap
end WhuOs
