import WhuOs.Fs.Runs

/-!
# The inode table

Inodes below 2048 lie in the blocks from 2 to 129, sixteen to a block.  An
inode that is stored reads back, and storing it changes no other inode.
-/

namespace WhuOs
namespace Fs

open Library
open Library.Bytes

variable {state : State}

/-- Inodes that fit into the inode table. -/
abbrev maxInodes : Nat := 2048

/-- A small block number is the index of its block. -/
theorem diskIndex_of_lt
    {blockNum : UInt32}
    (small : blockNum.toNat < 2 ^ 31) :
    diskIndex blockNum = blockNum.toNat := by
  have two : (2 : UInt32).toNat = 2 := rfl
  unfold diskIndex Buf.sector
  rw [UInt32.toNat_mul, two]
  omega

theorem diskIndex_zero : diskIndex 0 = 0 := rfl

theorem inodeBlock_toNat (inodeNum : UInt16) :
    (inodeBlock inodeNum).toNat = 2 + inodeNum.toNat / 16 := by
  have bound := inodeNum.toNat_lt
  unfold inodeBlock
  rw [UInt32.toNat_add, UInt16.toNat_toUInt32, UInt16.toNat_div]
  simp only [inodeStart, UInt32.reduceToNat, UInt16.reduceToNat]
  omega

/-- The block of an inode lies in the inode table. -/
theorem diskIndex_inodeBlock (inodeNum : UInt16) :
    diskIndex (inodeBlock inodeNum) = 2 + inodeNum.toNat / 16 := by
  have bound := inodeNum.toNat_lt
  rw [diskIndex_of_lt (by rw [inodeBlock_toNat]; omega), inodeBlock_toNat]

/-! ## Reading back -/

/-- The bytes of an inode decode to the inode. -/
theorem Dinode.decode_of_encoded
    {bytes : Bytes} {address : Nat} {dinode : Dinode}
    (stored : ∀ index < inodeDiskSize,
      bytes (address + index) = dinode.encode index) :
    Dinode.decode bytes address = dinode := by
  have size : inodeDiskSize = 64 := rfl
  apply Dinode.ext
  · apply read16_of_byteOf
    intro index small
    rw [stored index (by omega), Dinode.encode, if_pos small]
  · apply read16_of_byteOf
    intro index small
    rw [Nat.add_assoc, stored (2 + index) (by omega), Dinode.encode,
      if_neg (by omega), if_pos (by omega), Nat.add_sub_cancel_left]
  · apply read16_of_byteOf
    intro index small
    rw [Nat.add_assoc, stored (4 + index) (by omega), Dinode.encode,
      if_neg (by omega), if_neg (by omega), if_pos (by omega),
      Nat.add_sub_cancel_left]
  · apply read16_of_byteOf
    intro index small
    rw [Nat.add_assoc, stored (6 + index) (by omega), Dinode.encode,
      if_neg (by omega), if_neg (by omega), if_neg (by omega),
      if_pos (by omega), Nat.add_sub_cancel_left]
  · apply read32_of_byteOf
    intro index small
    rw [Nat.add_assoc, stored (8 + index) (by omega), Dinode.encode,
      if_neg (by omega), if_neg (by omega), if_neg (by omega),
      if_neg (by omega), if_pos (by omega), Nat.add_sub_cancel_left]
  · funext k
    have bound : k.val < 13 := k.isLt
    apply read32_of_byteOf
    intro index small
    have place : 12 + 4 * k.val + index - 12 = 4 * k.val + index := by omega
    have quotient : (4 * k.val + index) / 4 = k.val := by omega
    have remainder : (4 * k.val + index) % 4 = index := by omega
    have number : Fin.ofNat nAddrs k.val = k := by
      apply Fin.ext
      exact Nat.mod_eq_of_lt bound
    have address' : address + 12 + 4 * k.val + index =
        address + (12 + 4 * k.val + index) := by omega
    rw [address', stored (12 + 4 * k.val + index) (by omega), Dinode.encode,
      if_neg (by omega), if_neg (by omega), if_neg (by omega),
      if_neg (by omega), if_neg (by omega), place, quotient, remainder,
      number]

/-- An inode that is stored reads back. -/
theorem Dinode.decode_memmove (bytes : Bytes) (address : Nat) (dinode : Dinode) :
    Dinode.decode (memmove bytes address dinode.encode inodeDiskSize)
      address = dinode := by
  apply Dinode.decode_of_encoded
  intro index small
  rw [memmove_of_mem _ _ ⟨by omega, by omega⟩, Nat.add_sub_cancel_left]

/-- Storing elsewhere in a block keeps an inode. -/
theorem Dinode.decode_memmove_of_disjoint
    (bytes source : Bytes) {address length field : Nat}
    (disjoint : field + inodeDiskSize ≤ address ∨
      address + length ≤ field) :
    Dinode.decode (memmove bytes address source length) field =
      Dinode.decode bytes field := by
  have size : inodeDiskSize = 64 := rfl
  apply Dinode.ext
  · exact read16_memmove_of_disjoint _ _ (by omega)
  · exact read16_memmove_of_disjoint _ _ (by omega)
  · exact read16_memmove_of_disjoint _ _ (by omega)
  · exact read16_memmove_of_disjoint _ _ (by omega)
  · exact read32_memmove_of_disjoint _ _ (by omega)
  · funext k
    have bound : k.val < 13 := k.isLt
    apply read32_memmove_of_disjoint
    omega

/-! ## Storing -/

/-- The state after an inode was stored. -/
def State.storeDinode (state : State) (inodeNum : UInt16) (dinode : Dinode) :
    State :=
  state.setDisk (diskIndex (inodeBlock inodeNum))
    (memmove (state.disk (diskIndex (inodeBlock inodeNum)))
      (inodeOffset inodeNum) dinode.encode inodeDiskSize)

@[simp] theorem storeDinode_icache (inodeNum : UInt16) (dinode : Dinode) :
    (state.storeDinode inodeNum dinode).icache = state.icache := rfl

theorem dinodeAt_storeDinode_self (inodeNum : UInt16) (dinode : Dinode) :
    (state.storeDinode inodeNum dinode).dinodeAt inodeNum = dinode := by
  unfold State.dinodeAt State.storeDinode
  rw [State.setDisk_disk, Function.update_self]
  exact Dinode.decode_memmove _ _ _

theorem dinodeAt_storeDinode_of_ne
    {inodeNum other : UInt16} (differ : other ≠ inodeNum)
    (dinode : Dinode) :
    (state.storeDinode inodeNum dinode).dinodeAt other =
      state.dinodeAt other := by
  have numbers : other.toNat ≠ inodeNum.toNat := fun same =>
    differ (UInt16.toNat_inj.mp same)
  unfold State.dinodeAt State.storeDinode
  rw [State.setDisk_disk, diskIndex_inodeBlock, diskIndex_inodeBlock]
  by_cases sameBlock : 2 + other.toNat / 16 = 2 + inodeNum.toNat / 16
  · rw [sameBlock, Function.update_self]
    apply Dinode.decode_memmove_of_disjoint
    have offset : ∀ number : UInt16,
        inodeOffset number = number.toNat % 16 * 64 := fun _ => rfl
    have size : inodeDiskSize = 64 := rfl
    rw [offset, offset]
    omega
  · rw [Function.update_of_ne sameBlock]

/-- Inodes depend on the blocks of the inode table only. -/
theorem dinodeAt_setDisk
    {index : Nat} (data : Block) (inodeNum : UInt16)
    (outside : index ≠ 2 + inodeNum.toNat / 16) :
    (state.setDisk index data).dinodeAt inodeNum =
      state.dinodeAt inodeNum := by
  unfold State.dinodeAt
  rw [diskIndex_inodeBlock, State.setDisk_disk,
    Function.update_of_ne outside.symm]

/-- Storing an inode changes the inode table only. -/
theorem storeDinode_disk_of_ne
    {inodeNum : UInt16} {dinode : Dinode} {index : Nat}
    (small : inodeNum.toNat < maxInodes)
    (outside : index < 2 ∨ 130 ≤ index) :
    (state.storeDinode inodeNum dinode).disk index = state.disk index := by
  unfold State.storeDinode
  rw [State.setDisk_disk, diskIndex_inodeBlock, Function.update_of_ne]
  have sizes : maxInodes = 2048 := rfl
  omega

theorem inodeRw_write_stores
    {final : State} {ip : Slot} {result : Unit}
    (run : (inodeRw ip true).Runs state result final) :
    (state.icache ip).slk = true ∧ final = state.storeDinode
      (state.icache ip).inodeNum (state.icache ip).data :=
  inodeRw_write_runs run

end Fs
end WhuOs
