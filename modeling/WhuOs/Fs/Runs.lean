import WhuOs.Fs.Bitmap
import WhuOs.Fs.DirDefs

/-!
# Effects of the basic file-system functions

Each function that does not loop has an exact effect on the state when it does
not panic.  The buffers it locks are released again, so the set of locked
buffers is the same before and after.
-/

namespace WhuOs
namespace Fs

open Library
open Library.Bytes
open Program (Runs)

variable {state final : State}

namespace State

@[simp] theorem setHeld_setHeld (held held' : List UInt32) :
    (state.setHeld held).setHeld held' = state.setHeld held' := rfl

@[simp] theorem setHeld_self : state.setHeld state.held = state := rfl

@[simp] theorem setHeld_setDisk
    (held : List UInt32) (index : Nat) (data : Block) :
    (state.setHeld held).setDisk index data =
      (state.setDisk index data).setHeld held := rfl

@[simp] theorem setHeld_setInode
    (held : List UInt32) (ip : Slot) (inode : Inode) :
    (state.setHeld held).setInode ip inode =
      (state.setInode ip inode).setHeld held := rfl

@[simp] theorem setInode_setInode (ip : Slot) (inode inode' : Inode) :
    (state.setInode ip inode).setInode ip inode' =
      state.setInode ip inode' := by
  simp only [State.setInode, Function.update_idem]

end State

@[simp] theorem runs_getInode {ip : Slot} {result : Inode} :
    (getInode ip).Runs state result final ↔
      state.icache ip = result ∧ state = final := by
  simp only [getInode, Program.runs_bind, Program.runs_get, Program.runs_pure]
  constructor
  · rintro ⟨_, _, ⟨rfl, rfl⟩, rfl, rfl⟩
    exact ⟨rfl, rfl⟩
  · rintro ⟨rfl, rfl⟩
    exact ⟨_, _, ⟨rfl, rfl⟩, rfl, rfl⟩

@[simp] theorem runs_modifyInode
    {ip : Slot} {change : Inode → Inode} {result : Unit} :
    (modifyInode ip change).Runs state result final ↔
      state.setInode ip (change (state.icache ip)) = final := by
  simp [modifyInode]

/-- The state after a change of the stored fields of a slot. -/
def State.setData (state : State) (ip : Slot) (data : Dinode) : State :=
  state.setInode ip ((state.icache ip).setData data)

@[simp] theorem runs_modifyData
    {ip : Slot} {change : Dinode → Dinode} {result : Unit} :
    (modifyData ip change).Runs state result final ↔
      state.setData ip (change (state.icache ip).data) = final := by
  simp [modifyData, State.setData]

/-! ## Buffers -/

theorem bufRead_runs
    {blockNum : UInt32} {data : Block}
    (run : (bufRead blockNum).Runs state data final) :
    blockNum ∉ state.held ∧ diskIndex blockNum < totalBlocks ∧
      data = state.disk (diskIndex blockNum) ∧
      final = state.setHeld (blockNum :: state.held) := by
  simp only [bufRead, Program.runs_bind, Program.runs_get,
    Program.runs_assert, Program.runs_modify, Program.runs_wait,
    Program.runs_pure, decide_eq_true_eq] at run
  obtain ⟨_, _, ⟨rfl, rfl⟩, _, _, ⟨unlocked, rfl⟩, _, _, ⟨_, rfl⟩, _, _, rfl,
    _, _, rfl, _, _, ⟨inside, rfl⟩, _, _, ⟨rfl, rfl⟩, rfl, rfl⟩ := run
  exact ⟨unlocked, inside, rfl, rfl⟩

theorem bufWrite_runs
    {blockNum : UInt32} {data : Block} {result : Unit}
    (run : (bufWrite blockNum data).Runs state result final) :
    final = state.setDisk (diskIndex blockNum) data := by
  simp only [bufWrite, Program.runs_bind, Program.runs_get,
    Program.runs_assert, Program.runs_modify, Program.runs_wait] at run
  obtain ⟨_, _, ⟨rfl, rfl⟩, _, _, ⟨_, rfl⟩, _, _, rfl, rfl⟩ := run
  rfl

theorem bufRelease_runs
    {blockNum : UInt32} {result : Unit}
    (run : (bufRelease blockNum).Runs state result final) :
    final = state.setHeld (state.held.erase blockNum) := by
  simp only [bufRelease, Program.runs_bind, Program.runs_get,
    Program.runs_assert, Program.runs_modify] at run
  obtain ⟨_, _, ⟨rfl, rfl⟩, _, _, ⟨_, rfl⟩, rfl⟩ := run
  rfl

/-- Releasing a buffer after reading it restores the locked buffers. -/
theorem bufRelease_after_read
    {blockNum : UInt32} {result : Unit}
    (run : (bufRelease blockNum).Runs
      (state.setHeld (blockNum :: state.held)) result final) :
    final = state := by
  rw [bufRelease_runs run]
  simp

/-- Writing and releasing a buffer after reading it changes one block. -/
theorem bufRelease_after_write
    {blockNum : UInt32} {data : Block} {result result' : Unit}
    {middle : State}
    (write : (bufWrite blockNum data).Runs
      (state.setHeld (blockNum :: state.held)) result middle)
    (release : (bufRelease blockNum).Runs middle result' final) :
    final = state.setDisk (diskIndex blockNum) data := by
  rw [bufRelease_runs release, bufWrite_runs write]
  simp only [State.setHeld_setDisk, State.setHeld_held, State.setHeld_setHeld,
    List.erase_cons_head]
  rfl

/-! ## Bitmaps -/

/-- A search sets the first clear bit, which is not bit 0, or finds none. -/
theorem bitmapSearchAndSet_runs
    {bitmapBlock result : UInt32}
    (run : (bitmapSearchAndSet bitmapBlock).Runs state result final) :
    (firstClear (state.disk (diskIndex bitmapBlock)) = none ∧ result = 0 ∧
      final = state) ∨
    ∃ number, firstClear (state.disk (diskIndex bitmapBlock)) =
        some number ∧ number ≠ 0 ∧ result = UInt32.ofNat number ∧
      final = state.setDisk (diskIndex bitmapBlock)
        (setBit (state.disk (diskIndex bitmapBlock)) number) := by
  simp only [bitmapSearchAndSet, Program.runs_bind] at run
  obtain ⟨data, _, read, rest⟩ := run
  obtain ⟨_, _, rfl, rfl⟩ := bufRead_runs read
  split at rest
  · next number found =>
    simp only [Program.runs_bind] at rest
    obtain ⟨_, _, write, _, _, release, rest⟩ := rest
    obtain rfl := bufRelease_after_write write release
    split at rest
    · split at rest
      · exact absurd rest Program.runs_panic
      · exact absurd rest Program.runs_panic
    · next notZero =>
      rw [Program.runs_pure] at rest
      exact Or.inr ⟨number, found, notZero, rest.1.symm, rest.2.symm⟩
  · next full =>
    simp only [Program.runs_bind, Program.runs_pure] at rest
    obtain ⟨_, _, release, rfl, rfl⟩ := rest
    exact Or.inl ⟨full, rfl, bufRelease_after_read release⟩

/-- Clearing a bit leaves bit 0 and numbers outside the bitmap alone. -/
theorem bitmapUnset_runs
    {bitmapBlock bitNum : UInt32} {result : Unit}
    (run : (bitmapUnset bitmapBlock bitNum).Runs state result final) :
    ((bitNum = 0 ∨ blockSize ≤ bitNum.toNat / 8) ∧ final = state) ∨
      bitNum ≠ 0 ∧ bitNum.toNat / 8 < blockSize ∧
      final = state.setDisk (diskIndex bitmapBlock)
        (clearBit (state.disk (diskIndex bitmapBlock)) bitNum.toNat) := by
  unfold bitmapUnset at run
  split at run
  · next zero =>
    rw [Program.runs_pure] at run
    exact Or.inl ⟨Or.inl zero, run.2.symm⟩
  · next notZero =>
    simp only [Program.runs_bind] at run
    obtain ⟨data, _, read, rest⟩ := run
    obtain ⟨_, _, rfl, rfl⟩ := bufRead_runs read
    split at rest
    · next outside =>
      exact Or.inl ⟨Or.inr outside, bufRelease_after_read rest⟩
    · next inside =>
      simp only [Program.runs_bind] at rest
      obtain ⟨_, _, write, release⟩ := rest
      exact Or.inr ⟨notZero, by omega, bufRelease_after_write write release⟩

/-- The bitmap of data blocks. -/
def State.dataBitmap (state : State) : Block := state.disk 130

/-- The bitmap of inodes. -/
def State.inodeBitmap (state : State) : Block := state.disk 1

/-- Allocating a block marks the first free one. -/
theorem bitmapAllocBlock_runs
    {result : UInt32}
    (run : bitmapAllocBlock.Runs state result final) :
    (firstClear state.dataBitmap = none ∧ result = 0 ∧ final = state) ∨
    ∃ number, firstClear state.dataBitmap = some number ∧ number ≠ 0 ∧
      result.toNat = 131 + number ∧
      final = state.setDisk 130 (setBit state.dataBitmap number) := by
  simp only [bitmapAllocBlock, Program.runs_bind] at run
  obtain ⟨bitNum, _, search, rest⟩ := run
  rcases bitmapSearchAndSet_runs search with
    ⟨full, rfl, rfl⟩ | ⟨number, found, notZero, rfl, rfl⟩
  · rw [if_pos rfl, Program.runs_pure] at rest
    exact Or.inl ⟨full, rest.1.symm, rest.2.symm⟩
  · right
    have bound : number < 8192 := (firstClear_eq_some found).1
    have toNat : (UInt32.ofNat number).toNat = number := by
      rw [UInt32.toNat_ofNat']
      exact Nat.mod_eq_of_lt (by omega)
    have notZero' : UInt32.ofNat number ≠ 0 := by
      intro zero
      rw [zero] at toNat
      exact notZero toNat.symm
    rw [if_neg notZero', Program.runs_pure] at rest
    refine ⟨number, found, notZero, ?_, rest.2.symm⟩
    rw [← rest.1, UInt32.toNat_add, toNat]
    simp only [dataStart, UInt32.reduceToNat]
    omega

/-- Freeing a block clears its bit, except that of the first one. -/
theorem bitmapFreeBlock_runs
    {blockNum : UInt32} {result : Unit}
    (run : (bitmapFreeBlock blockNum).Runs state result final) :
    ((blockNum.toNat ≤ 131 ∨ totalBlocks ≤ blockNum.toNat) ∧ final = state) ∨
    ∃ number, number ≠ 0 ∧ blockNum.toNat = 131 + number ∧
      number < dataBlocks ∧
      final = state.setDisk 130 (clearBit state.dataBitmap number) := by
  have sizes : blockSize = 1024 ∧ dataBlocks = 8192 ∧
    totalBlocks = 8323 := ⟨rfl, rfl, rfl⟩
  have start : dataStart.toNat = 131 := rfl
  unfold bitmapFreeBlock at run
  split at run
  · next below =>
    rw [Program.runs_pure] at run
    have below := UInt32.lt_iff_toNat_lt.mp below
    exact Or.inl ⟨Or.inl (by omega), run.2.symm⟩
  · next inside =>
    have large : dataStart ≤ blockNum := UInt32.not_lt.mp inside
    have large' := UInt32.le_iff_toNat_le.mp large
    have number : (blockNum - dataStart).toNat = blockNum.toNat - 131 :=
      UInt32.toNat_sub_of_le _ _ large
    rcases bitmapUnset_runs run with ⟨outside, rfl⟩ | ⟨notZero, small, rfl⟩
    · refine Or.inl ⟨?_, rfl⟩
      rcases outside with zero | outside
      · have zero := congrArg UInt32.toNat zero
        rw [number, UInt32.toNat_zero] at zero
        exact Or.inl (by omega)
      · exact Or.inr (by omega)
    · refine Or.inr ⟨(blockNum - dataStart).toNat, ?_, by omega, by omega, rfl⟩
      intro zero
      exact notZero (UInt32.toNat_inj.mp zero)

/-- Allocating an inode number marks the first free one. -/
theorem bitmapAllocInode_runs
    {result : UInt16}
    (run : bitmapAllocInode.Runs state result final) :
    (firstClear state.inodeBitmap = none ∧ result = 0 ∧ final = state) ∨
    ∃ number, firstClear state.inodeBitmap = some number ∧ number ≠ 0 ∧
      result.toNat = number ∧
      final = state.setDisk 1 (setBit state.inodeBitmap number) := by
  simp only [bitmapAllocInode, Program.runs_bind, Program.runs_pure] at run
  obtain ⟨bitNum, _, search, rfl, rfl⟩ := run
  rcases bitmapSearchAndSet_runs search with
    ⟨full, rfl, rfl⟩ | ⟨number, found, notZero, rfl, rfl⟩
  · exact Or.inl ⟨full, rfl, rfl⟩
  · have bound : number < 8192 := (firstClear_eq_some found).1
    refine Or.inr ⟨number, found, notZero, ?_, rfl⟩
    rw [UInt32.toNat_toUInt16, UInt32.toNat_ofNat']
    omega

/-! ## Inodes -/

/-- Writing an inode changes its block and nothing else. -/
theorem inodeRw_write_runs
    {ip : Slot} {result : Unit}
    (run : (inodeRw ip true).Runs state result final) :
    (state.icache ip).slk = true ∧
    final = state.setDisk (diskIndex (inodeBlock (state.icache ip).inodeNum))
      (memmove
        (state.disk (diskIndex (inodeBlock (state.icache ip).inodeNum)))
        (inodeOffset (state.icache ip).inodeNum)
        (state.icache ip).data.encode inodeDiskSize) := by
  simp only [inodeRw, Program.runs_bind, runs_getInode, Program.runs_assert,
    if_true] at run
  obtain ⟨_, _, ⟨rfl, rfl⟩, _, _, ⟨locked, rfl⟩, _, _, read, rest⟩ := run
  obtain ⟨_, _, rfl, rfl⟩ := bufRead_runs read
  obtain ⟨_, _, ⟨rfl, rfl⟩, _, _, write, release⟩ := rest
  exact ⟨locked, bufRelease_after_write write release⟩

/-- The stored fields of an inode on disk. -/
def State.dinodeAt (state : State) (inodeNum : UInt16) : Dinode :=
  Dinode.decode (state.disk (diskIndex (inodeBlock inodeNum)))
    (inodeOffset inodeNum)

/-- Reading an inode fills its slot. -/
theorem inodeRw_read_runs
    {ip : Slot} {result : Unit}
    (run : (inodeRw ip false).Runs state result final) :
    (state.icache ip).slk = true ∧
    final = state.setInode ip ⟨state.dinodeAt (state.icache ip).inodeNum,
      (state.icache ip).inodeNum, (state.icache ip).ref, true,
      (state.icache ip).slk⟩ := by
  simp only [inodeRw, Program.runs_bind, runs_getInode, Program.runs_assert,
    Bool.false_eq_true, if_false, runs_modifyInode] at run
  obtain ⟨_, _, ⟨rfl, rfl⟩, _, _, ⟨locked, rfl⟩, _, _, read, rest⟩ := run
  obtain ⟨_, _, rfl, rfl⟩ := bufRead_runs read
  obtain ⟨_, _, rfl, release⟩ := rest
  refine ⟨locked, ?_⟩
  rw [bufRelease_runs release]
  simp only [State.setHeld_setInode, State.setHeld_held,
    State.setHeld_setHeld, List.erase_cons_head]
  rfl

theorem acquireIcache_runs
    {result : Unit}
    (run : acquireIcache.Runs state result final) :
    state.lkIcache = false ∧ final = state.setLkIcache true := by
  simp only [acquireIcache, Program.runs_bind, Program.runs_get,
    Program.runs_assert, Program.runs_modify] at run
  obtain ⟨_, _, ⟨rfl, rfl⟩, _, _, ⟨unlocked, rfl⟩, rfl⟩ := run
  exact ⟨by simpa using unlocked, rfl⟩

theorem releaseIcache_runs
    {result : Unit}
    (run : releaseIcache.Runs state result final) :
    final = state.setLkIcache false := by
  simp only [releaseIcache, Program.runs_bind, Program.runs_get,
    Program.runs_assert, Program.runs_modify] at run
  obtain ⟨_, _, ⟨rfl, rfl⟩, _, _, ⟨_, rfl⟩, rfl⟩ := run
  rfl

/-- Changing a slot under the lock of the cache. -/
theorem setInode_under_lock
    (unlocked : state.lkIcache = false) (ip : Slot) (inode : Inode) :
    ((state.setLkIcache true).setInode ip inode).setLkIcache false =
      state.setInode ip inode := by
  simp only [State.setLkIcache, State.setInode, ← unlocked]

/-- A slot of the cache is found for an inode, or one nobody references is
taken over. -/
theorem inodeAlloc_runs
    {inodeNum : UInt16} {ip : Slot}
    (run : (inodeAlloc inodeNum).Runs state ip final) :
    ((state.icache ip).inodeNum = inodeNum ∧ final = state.setInode ip
      ((state.icache ip).setRef ((state.icache ip).ref + 1))) ∨
    ((∀ other, (state.icache other).inodeNum ≠ inodeNum) ∧
      (state.icache ip).ref = 0 ∧ final = state.setInode ip
        ⟨(state.icache ip).data, inodeNum, 1, false,
          (state.icache ip).slk⟩) := by
  simp only [inodeAlloc, Program.runs_bind, Program.runs_get] at run
  obtain ⟨_, _, acquire, _, _, ⟨rfl, rfl⟩, rest⟩ := run
  obtain ⟨unlocked, rfl⟩ := acquireIcache_runs acquire
  split at rest
  · next cached found =>
    simp only [Program.runs_bind, runs_modifyInode, Program.runs_pure] at rest
    obtain ⟨_, _, rfl, _, _, release, rfl, rfl⟩ := rest
    have sameNum := List.find?_some found
    refine Or.inl ⟨by simpa using sameNum, ?_⟩
    rw [releaseIcache_runs release]
    exact setInode_under_lock unlocked _ _
  · next absent =>
    split at rest
    · next free found =>
      simp only [Program.runs_bind, runs_modifyInode,
        Program.runs_pure] at rest
      obtain ⟨_, _, rfl, _, _, release, rfl, rfl⟩ := rest
      have unreferenced := List.find?_some found
      refine Or.inr ⟨fun other same => ?_, by simpa using unreferenced, ?_⟩
      · have missed := List.find?_eq_none.mp absent other
          (List.mem_finRange other)
        exact missed (by simpa using same)
      · rw [releaseIcache_runs release]
        exact setInode_under_lock unlocked _ _
    · exact absurd rest Program.runs_panic

/-- A locked slot. -/
def State.locked (state : State) (ip : Slot) : Inode :=
  ⟨if (state.icache ip).valid then (state.icache ip).data
    else state.dinodeAt (state.icache ip).inodeNum,
    (state.icache ip).inodeNum, (state.icache ip).ref, true, true⟩

/-- Locking fills the slot if necessary. -/
theorem inodeLock_runs
    {ip : Slot} {result : Unit}
    (run : (inodeLock ip).Runs state result final) :
    (state.icache ip).ref ≠ 0 ∧ (state.icache ip).slk = false ∧
      final = state.setInode ip (state.locked ip) := by
  simp only [inodeLock, Program.runs_bind, runs_getInode, runs_modifyInode,
    Program.runs_assert] at run
  obtain ⟨_, _, ⟨rfl, rfl⟩, _, _, ⟨referenced, rfl⟩, _, _, ⟨unlocked, rfl⟩, _,
    _, rfl, _, _, ⟨rfl, rfl⟩, rest⟩ := run
  have notZero : (state.icache ip).ref ≠ 0 := by
    intro zero
    simp [zero] at referenced
  refine ⟨notZero, by simpa using unlocked, ?_⟩
  simp only [State.setInode_icache, Function.update_self,
    Inode.setSlk_valid] at rest
  unfold State.locked
  split at rest
  · next valid =>
    rw [Program.runs_pure] at rest
    rw [← rest.2, if_pos valid]
    simp only [Inode.setSlk, valid]
  · next invalid =>
    obtain ⟨_, rfl⟩ := inodeRw_read_runs rest
    rw [if_neg invalid]
    simp only [State.setInode_setInode, State.setInode_icache,
      Function.update_self, Inode.setSlk_inodeNum, Inode.setSlk_ref,
      Inode.setSlk_slk]
    rfl

theorem inodeUnlock_runs
    {ip : Slot} {result : Unit}
    (run : (inodeUnlock ip).Runs state result final) :
    (state.icache ip).slk = true ∧
      final = state.setInode ip ((state.icache ip).setSlk false) := by
  simp only [inodeUnlock, Program.runs_bind, runs_getInode,
    Program.runs_assert, runs_modifyInode] at run
  obtain ⟨_, _, ⟨rfl, rfl⟩, _, _, ⟨locked, rfl⟩, rfl⟩ := run
  exact ⟨locked, rfl⟩

/-- An inode without references cannot be locked, so deleting it panics. -/
theorem inodeDestroy_not_runs
    {ip : Slot} {result : Unit}
    (unreferenced : (state.icache ip).ref = 0) :
    ¬(inodeDestroy ip).Runs state result final := by
  intro run
  simp only [inodeDestroy, Program.runs_bind, Program.runs_get,
    Program.runs_assert] at run
  obtain ⟨_, _, ⟨rfl, rfl⟩, _, _, ⟨_, rfl⟩, _, _, lock, _⟩ := run
  exact (inodeLock_runs lock).1 unreferenced

/-- Giving back a reference lowers the count; the last reference to an inode
without links cannot be given back. -/
theorem inodeFree_runs
    {ip : Slot} {result : Unit}
    (run : (inodeFree ip).Runs state result final) :
    final = state.setInode ip
      ((state.icache ip).setRef ((state.icache ip).ref - 1)) ∧
    ((state.icache ip).ref - 1 = 0 → (state.icache ip).data.nlink ≠ 0) := by
  simp only [inodeFree, Program.runs_bind, runs_modifyInode,
    runs_getInode] at run
  obtain ⟨_, _, acquire, _, _, rfl, _, _, ⟨rfl, rfl⟩, rest⟩ := run
  obtain ⟨unlocked, rfl⟩ := acquireIcache_runs acquire
  simp only [State.setInode_icache, Function.update_self,
    State.setLkIcache_icache, Inode.setRef_ref, Inode.setRef_data] at rest
  split at rest
  · next last =>
    simp only [Program.runs_bind] at rest
    obtain ⟨_, _, destroy, _⟩ := rest
    exact absurd destroy (inodeDestroy_not_runs (by simpa using last.1))
  · next kept =>
    rw [releaseIcache_runs rest]
    refine ⟨setInode_under_lock unlocked _ _, fun last unlinked => ?_⟩
    exact kept ⟨last, unlinked⟩

theorem inodeUnlockFree_runs
    {ip : Slot} {result : Unit}
    (run : (inodeUnlockFree ip).Runs state result final) :
    (state.icache ip).slk = true ∧
    final = state.setInode ip (((state.icache ip).setSlk false).setRef
      ((state.icache ip).ref - 1)) ∧
    ((state.icache ip).ref - 1 = 0 → (state.icache ip).data.nlink ≠ 0) := by
  simp only [inodeUnlockFree, Program.runs_bind] at run
  obtain ⟨_, _, unlock, free⟩ := run
  obtain ⟨locked, rfl⟩ := inodeUnlock_runs unlock
  obtain ⟨rfl, kept⟩ := inodeFree_runs free
  simp only [State.setInode_icache, Function.update_self, Inode.setSlk_ref,
    Inode.setSlk_data] at kept ⊢
  exact ⟨locked, State.setInode_setInode _ _ _, kept⟩

/-! ## Directories -/

theorem dirBlock_runs
    {pip : Slot} {caller : String} {result : UInt32 × Block}
    (run : (dirBlock pip caller).Runs state result final) :
    (state.icache pip).slk = true ∧ (state.icache pip).data.type = ftDir ∧
      diskIndex ((state.icache pip).data.addrs 0) < totalBlocks ∧
      result = ((state.icache pip).data.addrs 0,
        state.disk (diskIndex ((state.icache pip).data.addrs 0))) ∧
      final = state.setHeld
        ((state.icache pip).data.addrs 0 :: state.held) := by
  simp only [dirBlock, Program.runs_bind, runs_getInode, Program.runs_assert,
    Program.runs_pure, decide_eq_true_eq] at run
  obtain ⟨_, _, ⟨rfl, rfl⟩, _, _, ⟨locked, rfl⟩, _, _, ⟨isDir, rfl⟩, _, _,
    read, rfl, rfl⟩ := run
  obtain ⟨_, inside, rfl, rfl⟩ := bufRead_runs read
  exact ⟨locked, isDir, inside, rfl, rfl⟩

/-- The contents of the block of a directory in the cache. -/
def State.dirData (state : State) (pip : Slot) : Block :=
  state.disk (diskIndex ((state.icache pip).data.addrs 0))

/-- The entry of a name in a directory block. -/
def findEntry (data : Block) (name : CString) : Option EntryIndex :=
  (List.finRange direntPerBlock).find? (matchesName data name)

/-- The first unused entry of a directory block. -/
def freeEntry (data : Block) : Option EntryIndex :=
  (List.finRange direntPerBlock).find? fun entry => entryName data entry = []

/-- The inode number a block has for a name, or `inodeNumUnused`. -/
def lookupName (data : Block) (name : CString) : UInt16 :=
  ((findEntry data name).map (entryInode data)).getD inodeNumUnused

/-- What `dir_add_entry` makes of the block. -/
def addName (data : Block) (inodeNum : UInt16) (name : CString) : Block :=
  if dirNameLen ≤ name.bytes.length then data
  else if lookupName data name ≠ inodeNumUnused then data
  else match freeEntry data with
    | some entry => storeEntry data entry inodeNum name
    | none => data

/-- Searching a directory changes nothing. -/
theorem dirSearchEntry_runs
    {pip : Slot} {name : CString} {result : UInt16}
    (run : (dirSearchEntry pip name).Runs state result final) :
    (state.icache pip).slk = true ∧ (state.icache pip).data.type = ftDir ∧
      diskIndex ((state.icache pip).data.addrs 0) < totalBlocks ∧
      final = state ∧ result = lookupName (state.dirData pip) name := by
  simp only [dirSearchEntry, Program.runs_bind] at run
  obtain ⟨_, _, block, rest⟩ := run
  obtain ⟨locked, isDir, inside, rfl, rfl⟩ := dirBlock_runs block
  refine ⟨locked, isDir, inside, ?_⟩
  unfold lookupName findEntry State.dirData
  split at rest
  · next entry found =>
    simp only [Program.runs_bind, Program.runs_pure] at rest
    obtain ⟨_, _, release, rfl, rfl⟩ := rest
    rw [found]
    exact ⟨bufRelease_after_read release, rfl⟩
  · next absent =>
    simp only [Program.runs_bind, Program.runs_pure] at rest
    obtain ⟨_, _, release, rfl, rfl⟩ := rest
    rw [absent]
    exact ⟨bufRelease_after_read release, rfl⟩

/-- The state after a name was stored in an entry of a directory. -/
def State.addEntry (state : State) (pip : Slot) (entry : EntryIndex)
    (inodeNum : UInt16) (name : CString) : State :=
  (state.setDisk (diskIndex ((state.icache pip).data.addrs 0))
    (storeEntry (state.dirData pip) entry inodeNum name)).setData pip
      ((state.icache pip).data.setSize
        (UInt32.ofNat (direntSize * entry) + 32))

/-- The entry that `dir_add_entry` fills. -/
def addedEntry (data : Block) (name : CString) : Option EntryIndex :=
  if dirNameLen ≤ name.bytes.length then none
  else if lookupName data name ≠ inodeNumUnused then none
  else freeEntry data

theorem addedEntry_eq_some
    {data : Block} {name : CString} {entry : EntryIndex} :
    addedEntry data name = some entry ↔ name.bytes.length < dirNameLen ∧
      lookupName data name = inodeNumUnused ∧
      freeEntry data = some entry := by
  unfold addedEntry
  split_ifs with long found
  · exact ⟨nofun, fun added => absurd added.1 (by omega)⟩
  · exact ⟨nofun, fun added => absurd added.2.1 found⟩
  · exact ⟨fun free => ⟨by omega, not_not.mp found, free⟩,
      fun added => added.2.2⟩

theorem addName_eq (data : Block) (inodeNum : UInt16) (name : CString) :
    addName data inodeNum name = match addedEntry data name with
      | some entry => storeEntry data entry inodeNum name
      | none => data := by
  unfold addName addedEntry
  split_ifs <;> rfl

/-- Adding a name fills an entry, or fails and changes nothing. -/
theorem dirAddEntry_added
    {pip : Slot} {inodeNum : UInt16} {name : CString} {result : UInt32}
    (run : (dirAddEntry pip inodeNum name).Runs state result final) :
    (state.icache pip).slk = true ∧ (state.icache pip).data.type = ftDir ∧
    ((result = 1024 ∧ final = state ∧
        addedEntry (state.dirData pip) name = none) ∨
      ∃ entry : EntryIndex, result = UInt32.ofNat (direntSize * entry) ∧
        diskIndex ((state.icache pip).data.addrs 0) < totalBlocks ∧
        addedEntry (state.dirData pip) name = some entry ∧
        final = state.addEntry pip entry inodeNum name) := by
  simp only [dirAddEntry, Program.runs_bind, runs_getInode,
    Program.runs_assert, decide_eq_true_eq] at run
  obtain ⟨_, _, ⟨rfl, rfl⟩, _, _, ⟨locked, rfl⟩, _, _, ⟨isDir, rfl⟩, rest⟩ :=
    run
  refine ⟨locked, isDir, ?_⟩
  split at rest
  · next long =>
    rw [Program.runs_pure] at rest
    exact Or.inl ⟨rest.1.symm, rest.2.symm, if_pos long⟩
  · next short =>
    simp only [Program.runs_bind] at rest
    obtain ⟨found, _, search, rest⟩ := rest
    obtain ⟨_, _, inside, rfl, rfl⟩ := dirSearchEntry_runs search
    split at rest
    · next listed =>
      rw [Program.runs_pure] at rest
      exact Or.inl ⟨rest.1.symm, rest.2.symm,
        (if_neg short).trans (if_pos listed)⟩
    · next absent =>
      simp only [dirStoreEntry, Program.runs_bind, runs_getInode] at rest
      obtain ⟨_, _, ⟨rfl, rfl⟩, _, _, read, rest⟩ := rest
      obtain ⟨_, _, rfl, rfl⟩ := bufRead_runs read
      split at rest
      · next entry free =>
        simp only [Program.runs_bind, runs_modifyData,
          Program.runs_pure] at rest
        obtain ⟨_, _, write, _, _, release, _, _, rfl, rfl, rfl⟩ := rest
        obtain rfl := bufRelease_after_write write release
        exact Or.inr ⟨entry, rfl, inside, addedEntry_eq_some.mpr ⟨by omega,
          not_not.mp absent, free⟩, rfl⟩
      · next full =>
        simp only [Program.runs_bind, Program.runs_pure] at rest
        obtain ⟨_, _, release, rfl, rfl⟩ := rest
        exact Or.inl ⟨rfl, bufRelease_after_read release,
          (if_neg short).trans ((if_neg absent).trans full)⟩

/-- Adding a name fills the first unused entry, or fails and changes
nothing. -/
theorem dirAddEntry_runs
    {pip : Slot} {inodeNum : UInt16} {name : CString} {result : UInt32}
    (run : (dirAddEntry pip inodeNum name).Runs state result final) :
    (state.icache pip).slk = true ∧ (state.icache pip).data.type = ftDir ∧
    ((result = 1024 ∧ final = state ∧
        addName (state.dirData pip) inodeNum name = state.dirData pip) ∨
      ∃ entry : EntryIndex, result = UInt32.ofNat (direntSize * entry) ∧
        name.bytes.length < dirNameLen ∧
        diskIndex ((state.icache pip).data.addrs 0) < totalBlocks ∧
        lookupName (state.dirData pip) name = inodeNumUnused ∧
        freeEntry (state.dirData pip) = some entry ∧
        final = state.addEntry pip entry inodeNum name) := by
  obtain ⟨locked, isDir, ⟨fails, same, none⟩ |
    ⟨entry, offset, inside, added, rfl⟩⟩ := dirAddEntry_added run
  · refine ⟨locked, isDir, Or.inl ⟨fails, same, ?_⟩⟩
    rw [addName_eq, none]
  · obtain ⟨short, absent, free⟩ := addedEntry_eq_some.mp added
    exact ⟨locked, isDir, Or.inr ⟨entry, offset, short, inside, absent, free,
      rfl⟩⟩

/-- Deleting a name clears its entry. -/
theorem dirDeleteEntry_runs
    {pip : Slot} {name : CString} {result : UInt16}
    (run : (dirDeleteEntry pip name).Runs state result final) :
    (findEntry (state.dirData pip) name = none ∧ final = state) ∨
    ∃ entry, findEntry (state.dirData pip) name = some entry ∧
      final = state.setDisk (diskIndex ((state.icache pip).data.addrs 0))
        (clearEntry (state.dirData pip) entry) := by
  simp only [dirDeleteEntry, Program.runs_bind] at run
  obtain ⟨_, _, block, rest⟩ := run
  obtain ⟨_, _, _, rfl, rfl⟩ := dirBlock_runs block
  split at rest
  · next entry found =>
    simp only [Program.runs_bind, Program.runs_pure] at rest
    obtain ⟨_, _, write, _, _, release, _, rfl⟩ := rest
    exact Or.inr ⟨entry, found, bufRelease_after_write write release⟩
  · next absent =>
    simp only [Program.runs_bind, Program.runs_pure] at rest
    obtain ⟨_, _, release, _, rfl⟩ := rest
    exact Or.inl ⟨absent, bufRelease_after_read release⟩

/-- The entries of a directory block in use. -/
def usedEntries (data : Block) : List EntryIndex :=
  (List.finRange direntPerBlock).filter fun entry => entryName data entry ≠ []

theorem dirGetEntries_runs
    {pip : Slot} {len : UInt32} {result : List (List UInt8)}
    (run : (dirGetEntries pip len).Runs state result final) :
    final = state ∧ result.length =
      min (len.toNat / direntSize) (usedEntries (state.dirData pip)).length := by
  simp only [dirGetEntries, Program.runs_bind, Program.runs_pure] at run
  obtain ⟨_, _, block, _, _, release, rfl, rfl⟩ := run
  obtain ⟨_, _, _, rfl, rfl⟩ := dirBlock_runs block
  refine ⟨bufRelease_after_read release, ?_⟩
  rw [List.length_map, List.length_take]
  rfl

/-- A directory passes the check exactly when it has two entries. -/
theorem checkUnlink_runs
    {ip : Slot} {result : Bool}
    (run : (checkUnlink ip).Runs state result final) :
    final = state ∧
      (result = true → (usedEntries (state.dirData ip)).length = 2) := by
  simp only [checkUnlink, Program.runs_bind, runs_getInode,
    Program.runs_assert] at run
  obtain ⟨_, _, ⟨rfl, rfl⟩, _, _, ⟨_, rfl⟩, entries, _, get, rest⟩ := run
  obtain ⟨rfl, length⟩ := dirGetEntries_runs get
  have three : (96 : UInt32).toNat / direntSize = 3 := rfl
  rw [three] at length
  split at rest
  · rw [Program.runs_pure] at rest
    obtain ⟨rfl, rfl⟩ := rest
    exact ⟨rfl, by simp⟩
  · split at rest
    · next two =>
      rw [Program.runs_pure] at rest
      obtain ⟨rfl, rfl⟩ := rest
      exact ⟨rfl, fun _ => by omega⟩
    · exact absurd rest Program.runs_panic

end Fs
end WhuOs
