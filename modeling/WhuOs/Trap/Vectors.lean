import WhuOs.Trap.Defs

/-!
# What the trap vectors do

`user_vector` leaves the registers of the user in the trapframe and loads those
of the kernel.  `user_return` loads the registers of a user from a trapframe.
`kernel_vector` brings back all registers but `tp` after the handler, and
`timer_vector` sets the next interrupt.
-/

namespace WhuOs
namespace Trap

open Library
open Library.Bytes
open Library.Assembly

/-! ## Registers in a trapframe -/

/-- The slots of a trapframe for the registers of the user. -/
def trapframeSlots : List (Reg × UInt64) := userSlots ++ [(.a0, 112)]

theorem slots_trapframe : Slots 288 trapframeSlots :=
  ⟨by decide, by decide, by decide⟩

theorem slots_user : Slots 288 userSlots :=
  ⟨by decide, by decide, by decide⟩

theorem slots_kernel : Slots 256 kernelSlots :=
  ⟨by decide, by decide, by decide⟩

/-- Every register has a slot. -/
theorem exists_trapframeSlot (register : Reg) :
    ∃ slot ∈ trapframeSlots, slot.1 = register := by
  cases register <;> decide

/-- A trapframe contains the registers of a user. -/
def InTrapframe (bytes : Bytes) (tf : UInt64) (regs : Reg → UInt64) : Prop :=
  ∀ slot ∈ trapframeSlots,
    read64 bytes (tf.toNat + slot.2.toNat) = regs slot.1

section Supervisor

variable {code page va pa tf : UInt64} {size : Nat} {hart : Hart}
  {csrs csrs' : Csr → UInt64} {bytes : Bytes} {regs : Reg → UInt64}

/-- Only `satp` decides about accesses. -/
theorem frame_of_satp
    (frame : Frame (supervisor code page) csrs bytes va pa size)
    (same : csrs' .satp = csrs .satp) :
    Frame (supervisor code page) csrs' bytes va pa size := by
  refine ⟨frame.room, ?_, ?_⟩
  · intro bytes' isSame
    have fetched := frame.fetches bytes' isSame
    dsimp only [supervisor] at fetched ⊢
    rw [same]
    exact fetched
  · intro bytes' write offset isSame inside aligned
    have reached := frame.reaches bytes' write offset isSame inside aligned
    dsimp only [supervisor] at reached ⊢
    rw [same]
    exact reached

/-- Code can be fetched where the page table in `satp` says so. -/
theorem fetches_of_satp
    (reached : reach (csrs .satp) bytes .fetch code = some page) :
    (supervisor code page).fetches csrs bytes = true :=
  decide_eq_true reached

/-! ## `user_vector` -/

/-- A hart after `user_vector`. -/
def userEntered (tf : UInt64) (hart : Hart) : Hart where
  regs
    | .a0 => hart.csrs .sscratch
    | .sp => read64 hart.bytes (tf.toNat + 8)
    | .tp => read64 hart.bytes (tf.toNat + 32)
    | .t0 => read64 hart.bytes (tf.toNat + 16)
    | .t1 => read64 hart.bytes tf.toNat
    | register => hart.regs register
  csrs := Function.update
    (Function.update hart.csrs .sscratch (hart.regs .a0)) .satp
    (csrWritten .satp (hart.csrs .satp) (read64 hart.bytes tf.toNat))
  bytes := savedBytes tf hart.regs trapframeSlots hart.bytes

/-- Fields of a trapframe that are no registers of the user. -/
theorem read64_field
    {offset : Nat} (isField : offset ∈ [0, 8, 16, 24, 32])
    (tf : UInt64) (regs : Reg → UInt64) (bytes : Bytes) :
    read64 (savedBytes tf regs trapframeSlots bytes) (tf.toNat + offset) =
      read64 bytes (tf.toNat + offset) := by
  have facts : ∀ offset ∈ [0, 8, 16, 24, 32], offset % 8 = 0 ∧
      ∀ slot ∈ trapframeSlots, slot.2.toNat ≠ offset := by decide
  rcases facts offset isField with ⟨aligned, other⟩
  exact read64_savedBytes_of_not_mem slots_trapframe aligned other

theorem inTrapframe_savedBytes
    (tf : UInt64) (regs : Reg → UInt64) (bytes : Bytes) :
    InTrapframe (savedBytes tf regs trapframeSlots bytes) tf regs :=
  fun _ member => read64_savedBytes slots_trapframe member

/-- A field for the kernel is loaded from a trapframe that has the registers
of the user. -/
theorem run_field
    {saved : Bytes} (isSaved : saved = savedBytes tf hart.regs trapframeSlots
      hart.bytes)
    (frame : Frame (supervisor code page) csrs saved va tf 288)
    (atFrame : regs .a0 = va) {target : Reg} {offset : UInt64}
    (isField : offset.toNat ∈ [0, 8, 16, 24, 32]) (rest : List (Instr Reg Csr)) :
    run (supervisor code page) (.ld target offset .a0 :: rest)
        ⟨regs, csrs, saved⟩ =
      run (supervisor code page) rest ⟨Function.update regs target
        (read64 hart.bytes (tf.toNat + offset.toNat)), csrs, saved⟩ := by
  have facts : ∀ offset ∈ [0, 8, 16, 24, 32],
      offset + 8 ≤ 288 ∧ offset % 8 = 0 := by decide
  rcases facts _ isField with ⟨inside, aligned⟩
  have field : read64 saved (tf.toNat + offset.toNat) =
      read64 hart.bytes (tf.toNat + offset.toNat) := by
    rw [isSaved]
    exact read64_field isField tf hart.regs hart.bytes
  rw [← atFrame] at frame
  rw [run_ld rest frame inside aligned, ← field]
  rfl

/-- `user_vector` runs if its trapframe is mapped, and the code is mapped in the
page table of the kernel, too. -/
theorem run_userVector
    (frame : Frame (supervisor code page) hart.csrs hart.bytes
      (hart.csrs .sscratch) tf 288)
    (fetched : reach (csrWritten .satp (hart.csrs .satp)
      (read64 hart.bytes tf.toNat)) (userEntered tf hart).bytes .fetch code =
        some page) :
    run (supervisor code page) userVector hart = some (userEntered tf hart) := by
  have frame₁ : Frame (supervisor code page)
      (Function.update hart.csrs .sscratch (hart.regs .a0)) hart.bytes
      (hart.csrs .sscratch) tf 288 := frame_of_satp frame rfl
  have frame₂ := frame₁.congr (savedBytes_sameOutside slots_user
    (Function.update hart.regs .a0 (hart.csrs .sscratch)) hart.bytes)
  have frame₃ := frame₁.congr (savedBytes_sameOutside slots_trapframe hart.regs
    hart.bytes)
  -- `a0` is not among the registers that are saved first.
  have saved : savedBytes tf (Function.update hart.regs .a0
      (hart.csrs .sscratch)) userSlots hart.bytes =
      savedBytes tf hart.regs userSlots hart.bytes := by
    have other : ∀ slot ∈ userSlots, slot.1 ≠ .a0 := by decide
    exact savedBytes_congr (fun slot member =>
      Function.update_of_ne (other slot member) _ _) _
  have all : write64 (savedBytes tf hart.regs userSlots hart.bytes)
      (tf.toNat + 112) (hart.regs .a0) =
      savedBytes tf hart.regs trapframeSlots hart.bytes := by
    rw [trapframeSlots, savedBytes_append]
    rfl
  let regs₁ := Function.update hart.regs .a0 (hart.csrs .sscratch)
  let csrs₁ := Function.update hart.csrs .sscratch (hart.regs .a0)
  let bytes₁ := savedBytes tf hart.regs trapframeSlots hart.bytes
  let regs₂ := Function.update regs₁ .t0 (hart.regs .a0)
  let regs₃ := Function.update regs₂ .sp (read64 hart.bytes (tf.toNat + 8))
  let regs₄ := Function.update regs₃ .tp (read64 hart.bytes (tf.toNat + 32))
  let regs₅ := Function.update regs₄ .t0 (read64 hart.bytes (tf.toNat + 16))
  let regs₆ := Function.update regs₅ .t1 (read64 hart.bytes (tf.toNat + 0))
  have finished : (⟨regs₆, Function.update csrs₁ .satp (csrWritten .satp
      (hart.csrs .satp) (read64 hart.bytes tf.toNat)), bytes₁⟩ : Hart) =
      userEntered tf hart := by
    apply Core.ext
    · funext register
      cases register <;> rfl
    · rfl
    · rfl
  calc run (supervisor code page) userVector hart
    _ = run (supervisor code page) (saves .a0 userSlots ++ _)
          ⟨regs₁, csrs₁, hart.bytes⟩ := run_cons frame.fetched rfl
    _ = run (supervisor code page) (.csrr .t0 .sscratch :: _)
          ⟨regs₁, csrs₁, savedBytes tf regs₁ userSlots hart.bytes⟩ :=
        run_saves slots_user _ frame₁
    _ = run (supervisor code page) (.sd .t0 112 .a0 :: _)
          ⟨regs₂, csrs₁, savedBytes tf regs₁ userSlots hart.bytes⟩ :=
        run_cons frame₂.fetched rfl
    _ = run (supervisor code page) (.ld .sp 8 .a0 :: _)
          ⟨regs₂, csrs₁, write64 (savedBytes tf regs₁ userSlots hart.bytes)
            (tf.toNat + 112) (hart.regs .a0)⟩ :=
        run_sd _ frame₂ (by decide) (by decide)
    _ = run (supervisor code page) (.ld .sp 8 .a0 :: _)
          ⟨regs₂, csrs₁, bytes₁⟩ := by rw [saved, all]
    _ = run (supervisor code page) (.ld .tp 32 .a0 :: _)
          ⟨regs₃, csrs₁, bytes₁⟩ := run_field rfl frame₃ rfl (by decide) _
    _ = run (supervisor code page) (.ld .t0 16 .a0 :: _)
          ⟨regs₄, csrs₁, bytes₁⟩ := run_field rfl frame₃ rfl (by decide) _
    _ = run (supervisor code page) (.ld .t1 0 .a0 :: _)
          ⟨regs₅, csrs₁, bytes₁⟩ := run_field rfl frame₃ rfl (by decide) _
    _ = run (supervisor code page) [.csrw .satp .t1, .sfenceVma]
          ⟨regs₆, csrs₁, bytes₁⟩ := run_field rfl frame₃ rfl (by decide) _
    _ = run (supervisor code page) [.sfenceVma] (userEntered tf hart) := by
        rw [← finished]
        exact run_cons frame₃.fetched rfl
    _ = some (userEntered tf hart) := by
        refine run_cons (fetches_of_satp ?_) rfl
        exact fetched

/-! ## `user_return` -/

/-- The control registers after `user_return`. -/
def userLeftCsrs (hart : Hart) : Csr → UInt64 :=
  Function.update
    (Function.update hart.csrs .satp
      (csrWritten .satp (hart.csrs .satp) (hart.regs .a1)))
    .sscratch (hart.regs .a0)

/-- `user_return` gives a user the registers in its trapframe. -/
theorem run_userReturn
    (fetched : reach (hart.csrs .satp) hart.bytes .fetch code = some page)
    (frame : Frame (supervisor code page) (userLeftCsrs hart) hart.bytes
      (hart.regs .a0) tf 288)
    (saved : InTrapframe hart.bytes tf regs) :
    run (supervisor code page) userReturn hart =
      some ⟨regs, userLeftCsrs hart, hart.bytes⟩ := by
  let csrs₁ := Function.update hart.csrs .satp
    (csrWritten .satp (hart.csrs .satp) (hart.regs .a1))
  let csrs₂ := Function.update csrs₁ .sscratch (regs .a0)
  let regs₁ := Function.update hart.regs .t0 (regs .a0)
  have frame₁ : Frame (supervisor code page) csrs₁ hart.bytes (hart.regs .a0)
      tf 288 := frame_of_satp frame rfl
  have frame₂ : Frame (supervisor code page) csrs₂ hart.bytes (regs₁ .a0)
      tf 288 := frame_of_satp frame rfl
  have isA0 : read64 hart.bytes (tf.toNat + (112 : UInt64).toNat) = regs .a0 :=
    saved (.a0, 112) (by decide)
  have notBase : ∀ slot ∈ userSlots, slot.1 ≠ .a0 := by decide
  have loaded : Function.update (loadedRegs tf hart.bytes userSlots regs₁) .a0
      (regs .a0) = regs := by
    funext register
    by_cases isBase : register = .a0
    · rw [isBase]
      exact Function.update_self _ _ _
    · rw [Function.update_of_ne isBase]
      rcases exists_trapframeSlot register with ⟨slot, member, rfl⟩
      have isSlot : slot ∈ userSlots := by
        rcases List.mem_append.mp member with member | member
        · exact member
        · rw [List.mem_singleton] at member
          exact absurd (congrArg Prod.fst member) isBase
      rw [loadedRegs_of_mem slots_user isSlot]
      exact saved slot member
  have isBase : loadedRegs tf hart.bytes userSlots regs₁ .a0 = hart.regs .a0 :=
    loadedRegs_of_not_mem notBase
  calc run (supervisor code page) userReturn hart
    _ = run (supervisor code page) (.sfenceVma :: _)
          ⟨hart.regs, csrs₁, hart.bytes⟩ :=
        run_cons (fetches_of_satp fetched) rfl
    _ = run (supervisor code page) (.ld .t0 112 .a0 :: _)
          ⟨hart.regs, csrs₁, hart.bytes⟩ := run_cons frame₁.fetched rfl
    _ = run (supervisor code page) (.csrw .sscratch .t0 :: _)
          ⟨Function.update hart.regs .t0 (read64 hart.bytes
            (tf.toNat + (112 : UInt64).toNat)), csrs₁, hart.bytes⟩ :=
        run_ld _ frame₁ (by decide) (by decide)
    _ = run (supervisor code page) (.csrw .sscratch .t0 :: _)
          ⟨regs₁, csrs₁, hart.bytes⟩ := by
        rw [isA0]
        rfl
    _ = run (supervisor code page) (loads .a0 userSlots ++ _)
          ⟨regs₁, csrs₂, hart.bytes⟩ := run_cons frame₁.fetched rfl
    _ = run (supervisor code page) [.csrrw .a0 .sscratch .a0]
          ⟨loadedRegs tf hart.bytes userSlots regs₁, csrs₂, hart.bytes⟩ :=
        run_loads slots_user _ frame₂ fun slot member same =>
          absurd same (notBase slot member)
    _ = run (supervisor code page) [] ⟨Function.update (loadedRegs tf hart.bytes
            userSlots regs₁) .a0 (regs .a0), Function.update csrs₂ .sscratch
              (loadedRegs tf hart.bytes userSlots regs₁ .a0), hart.bytes⟩ :=
        run_cons frame₂.fetched rfl
    _ = some ⟨regs, userLeftCsrs hart, hart.bytes⟩ := by
        rw [loaded, isBase, Function.update_idem]
        rfl

end Supervisor

end Trap
end WhuOs
