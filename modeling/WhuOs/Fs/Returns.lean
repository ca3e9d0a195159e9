import WhuOs.Fs.InodeCache

/-!
# Calls that return

A buffer that nobody has locked can be read as long as there is room for it and
its block is on the disk, and then it can be written and released.  The calls on
the bitmaps return when bit 0 is set, and those on an inode when its slot is
referenced and locked or unlocked as they demand.
-/

namespace WhuOs
namespace Fs

open Library
open Program (Runs)

variable {state : State}

/-! ## Buffers -/

theorem bufRead_total
    {blockNum : UInt32} (unlocked : blockNum ∉ state.held)
    (room : state.held.length < Buf.nBlockBuf)
    (inside : diskIndex blockNum < totalBlocks) :
    (bufRead blockNum).Runs state (state.disk (diskIndex blockNum))
      (state.setHeld (blockNum :: state.held)) := by
  simp only [bufRead, Program.runs_bind, Program.runs_get,
    Program.runs_assert, Program.runs_modify, Program.runs_wait,
    Program.runs_pure, decide_eq_true_eq]
  exact ⟨_, _, ⟨rfl, rfl⟩, (), _, ⟨unlocked, rfl⟩, (), _, ⟨room, rfl⟩, (), _,
    rfl, (), _, rfl, (), _, ⟨inside, rfl⟩, _, _, ⟨rfl, rfl⟩, rfl, rfl⟩

theorem bufWrite_total
    {blockNum : UInt32} (locked : blockNum ∈ state.held) (data : Block) :
    (bufWrite blockNum data).Runs state ()
      (state.setDisk (diskIndex blockNum) data) := by
  simp only [bufWrite, Program.runs_bind, Program.runs_get,
    Program.runs_assert, Program.runs_modify, Program.runs_wait,
    decide_eq_true_eq]
  exact ⟨_, _, ⟨rfl, rfl⟩, (), _, ⟨locked, rfl⟩, (), _, rfl, rfl⟩

theorem bufRelease_total
    {blockNum : UInt32} (locked : blockNum ∈ state.held) :
    (bufRelease blockNum).Runs state ()
      (state.setHeld (state.held.erase blockNum)) := by
  simp only [bufRelease, Program.runs_bind, Program.runs_get,
    Program.runs_assert, Program.runs_modify, decide_eq_true_eq]
  exact ⟨_, _, ⟨rfl, rfl⟩, (), _, ⟨locked, rfl⟩, rfl⟩

/-! ## Bitmaps -/

section Bitmap

variable {bitmapBlock : UInt32}
  (unlocked : bitmapBlock ∉ state.held)
  (room : state.held.length < Buf.nBlockBuf)
  (inside : diskIndex bitmapBlock < totalBlocks)

include unlocked room inside

/-- A search returns as long as bit 0 is set. -/
theorem bitmapSearchAndSet_total
    (first : bitAt (state.disk (diskIndex bitmapBlock)) 0 = true) :
    ∃ bitNum final,
      (bitmapSearchAndSet bitmapBlock).Runs state bitNum final := by
  have read := bufRead_total unlocked room inside
  unfold bitmapSearchAndSet
  simp only [read.bind_iff]
  cases found : firstClear (state.disk (diskIndex bitmapBlock)) with
  | none =>
      exact ⟨0, _, Program.runs_bind.mpr ⟨(), _,
        bufRelease_total List.mem_cons_self,
        Program.runs_pure.mpr ⟨rfl, rfl⟩⟩⟩
  | some number =>
      have notZero : number ≠ 0 := by
        rintro rfl
        have clear := (firstClear_eq_some found).2.1
        rw [first] at clear
        cases clear
      simp only [if_neg notZero]
      exact ⟨_, _, Program.runs_bind.mpr ⟨(), _,
        bufWrite_total List.mem_cons_self _, Program.runs_bind.mpr ⟨(), _,
          bufRelease_total List.mem_cons_self,
          Program.runs_pure.mpr ⟨rfl, rfl⟩⟩⟩⟩

theorem bitmapUnset_total (bitNum : UInt32) :
    ∃ final, (bitmapUnset bitmapBlock bitNum).Runs state () final := by
  have read := bufRead_total unlocked room inside
  unfold bitmapUnset
  split
  · exact ⟨_, Program.runs_pure.mpr ⟨rfl, rfl⟩⟩
  · simp only [read.bind_iff]
    split
    · exact ⟨_, bufRelease_total List.mem_cons_self⟩
    · exact ⟨_, Program.runs_bind.mpr ⟨(), _,
        bufWrite_total List.mem_cons_self _,
        bufRelease_total List.mem_cons_self⟩⟩

end Bitmap

/-- Allocating a block returns as long as bit 0 of the bitmap is set. -/
theorem bitmapAllocBlock_total
    (unlocked : dataBitmapStart ∉ state.held)
    (room : state.held.length < Buf.nBlockBuf)
    (first : bitAt state.dataBitmap 0 = true) :
    ∃ result final, bitmapAllocBlock.Runs state result final := by
  obtain ⟨bitNum, middle, search⟩ := bitmapSearchAndSet_total unlocked room
    (by decide) first
  unfold bitmapAllocBlock
  simp only [search.bind_iff]
  split
  · exact ⟨_, _, Program.runs_pure.mpr ⟨rfl, rfl⟩⟩
  · exact ⟨_, _, Program.runs_pure.mpr ⟨rfl, rfl⟩⟩

/-- Allocating an inode number returns as long as bit 0 of the bitmap is
set. -/
theorem bitmapAllocInode_total
    (unlocked : inodeBitmapStart ∉ state.held)
    (room : state.held.length < Buf.nBlockBuf)
    (first : bitAt state.inodeBitmap 0 = true) :
    ∃ result final, bitmapAllocInode.Runs state result final := by
  obtain ⟨bitNum, middle, search⟩ := bitmapSearchAndSet_total unlocked room
    (by decide) first
  exact ⟨_, _, search.bind_iff.mpr (Program.runs_pure.mpr ⟨rfl, rfl⟩)⟩

theorem bitmapFreeBlock_total
    (unlocked : dataBitmapStart ∉ state.held)
    (room : state.held.length < Buf.nBlockBuf) (blockNum : UInt32) :
    ∃ final, (bitmapFreeBlock blockNum).Runs state () final := by
  unfold bitmapFreeBlock
  split
  · exact ⟨_, Program.runs_pure.mpr ⟨rfl, rfl⟩⟩
  · exact bitmapUnset_total unlocked room (by decide) _

theorem bitmapFreeInode_total
    (unlocked : inodeBitmapStart ∉ state.held)
    (room : state.held.length < Buf.nBlockBuf) (inodeNum : UInt16) :
    ∃ final, (bitmapFreeInode inodeNum).Runs state () final :=
  bitmapUnset_total unlocked room (by decide) _

/-! ## Inodes -/

section Inodes

variable {ip : Slot}

/-- An inode is found in the cache or in a slot nobody references. -/
theorem inodeAlloc_total
    (unlocked : state.lkIcache = false) (free : (state.icache ip).ref = 0)
    (inodeNum : UInt16) :
    ∃ found final, (inodeAlloc inodeNum).Runs state found final := by
  by_contra stuck
  have panics := (inodeAlloc_panics_iff unlocked).mp
    (Program.panics_iff.mpr stuck)
  exact panics.2 ip free

theorem inodeBlock_inside (inodeNum : UInt16) :
    diskIndex (inodeBlock inodeNum) < totalBlocks := by
  have size : totalBlocks = 8323 := rfl
  have bound := inodeNum.toNat_lt
  rw [diskIndex_inodeBlock]
  omega

section Rw

variable (locked : (state.icache ip).slk = true)
  (notHeld : inodeBlock (state.icache ip).inodeNum ∉ state.held)
  (room : state.held.length < Buf.nBlockBuf)

include locked notHeld room

theorem inodeRw_write_total :
    (inodeRw ip true).Runs state () (state.storeDinode
      (state.icache ip).inodeNum (state.icache ip).data) := by
  have inode : (getInode ip).Runs state (state.icache ip) state :=
    runs_getInode.mpr ⟨rfl, rfl⟩
  have isLocked : (Program.assert (state.icache ip).slk
      "inode_rw: no lock").Runs state () state :=
    Program.runs_assert.mpr ⟨locked, rfl⟩
  have read := bufRead_total notHeld room (inodeBlock_inside _)
  suffices returns : ∃ final, (inodeRw ip true).Runs state () final by
    obtain ⟨final, run⟩ := returns
    obtain ⟨_, rfl⟩ := inodeRw_write_stores run
    exact run
  unfold inodeRw
  simp only [inode.bind_iff, isLocked.bind_iff, read.bind_iff, if_true,
    Program.runs_bind, runs_getInode]
  exact ⟨_, _, _, ⟨rfl, rfl⟩, (), _, bufWrite_total List.mem_cons_self _,
    bufRelease_total List.mem_cons_self⟩

theorem inodeRw_read_total :
    ∃ final, (inodeRw ip false).Runs state () final := by
  have inode : (getInode ip).Runs state (state.icache ip) state :=
    runs_getInode.mpr ⟨rfl, rfl⟩
  have isLocked : (Program.assert (state.icache ip).slk
      "inode_rw: no lock").Runs state () state :=
    Program.runs_assert.mpr ⟨locked, rfl⟩
  have read := bufRead_total notHeld room (inodeBlock_inside _)
  unfold inodeRw
  simp only [inode.bind_iff, isLocked.bind_iff, read.bind_iff,
    Bool.false_eq_true, if_false, Program.runs_bind, runs_modifyInode]
  exact ⟨_, (), _, rfl, bufRelease_total List.mem_cons_self⟩

end Rw

/-- A referenced inode that nobody has locked can be locked. -/
theorem inodeLock_total
    (referenced : (state.icache ip).ref ≠ 0)
    (unlocked : (state.icache ip).slk = false)
    (notHeld : inodeBlock (state.icache ip).inodeNum ∉ state.held)
    (room : state.held.length < Buf.nBlockBuf) :
    (inodeLock ip).Runs state () (state.setInode ip (state.locked ip)) := by
  have positive : (state.icache ip).ref ≥ 1 := by
    refine UInt32.le_iff_toNat_le.mpr (Nat.pos_of_ne_zero fun zero => ?_)
    exact referenced (UInt32.toNat_inj.mp zero)
  suffices returns : ∃ final, (inodeLock ip).Runs state () final by
    obtain ⟨final, run⟩ := returns
    obtain ⟨_, _, rfl⟩ := inodeLock_runs run
    exact run
  simp only [inodeLock, Program.runs_bind, runs_getInode, runs_modifyInode,
    Program.runs_assert, decide_eq_true_eq]
  have number : ((state.setInode ip ((state.icache ip).setSlk true)).icache
      ip).inodeNum = (state.icache ip).inodeNum := by
    rw [State.setInode_icache, Function.update_self]
    rfl
  have locked : ((state.setInode ip ((state.icache ip).setSlk true)).icache
      ip).slk = true := by
    rw [State.setInode_icache, Function.update_self]
    rfl
  have lockedRead := inodeRw_read_total locked
    (by rw [number]; exact notHeld) room
  obtain ⟨final, read⟩ := lockedRead
  by_cases valid : ((state.setInode ip ((state.icache ip).setSlk true)).icache
      ip).valid = true
  · exact ⟨_, _, _, ⟨rfl, rfl⟩, (), _, ⟨positive, rfl⟩, (), _,
      ⟨by rw [unlocked]; rfl, rfl⟩, (), _, rfl, _, _, ⟨rfl, rfl⟩, by
        rw [if_pos valid]
        exact Program.runs_pure.mpr ⟨rfl, rfl⟩⟩
  · exact ⟨_, _, _, ⟨rfl, rfl⟩, (), _, ⟨positive, rfl⟩, (), _,
      ⟨by rw [unlocked]; rfl, rfl⟩, (), _, rfl, _, _, ⟨rfl, rfl⟩, by
        rw [if_neg valid]
        exact read⟩

theorem inodeUnlock_total
    (locked : (state.icache ip).slk = true) :
    (inodeUnlock ip).Runs state ()
      (state.setInode ip ((state.icache ip).setSlk false)) := by
  simp only [inodeUnlock, Program.runs_bind, runs_getInode,
    Program.runs_assert, runs_modifyInode]
  exact ⟨_, _, ⟨rfl, rfl⟩, (), _, ⟨locked, rfl⟩, rfl⟩

/-- A reference that is not the last one, or one to an inode with links in the
cache, can be given back. -/
theorem inodeFree_total
    (unlocked : state.lkIcache = false)
    (kept : (state.icache ip).ref - 1 = 0 →
      (state.icache ip).data.nlink ≠ 0) :
    (inodeFree ip).Runs state () (state.setInode ip
      ((state.icache ip).setRef ((state.icache ip).ref - 1))) := by
  simp only [inodeFree, Program.runs_bind, runs_modifyInode, runs_getInode]
  refine ⟨(), _, acquireIcache_of_unlocked unlocked, (), _, rfl, _, _,
    ⟨rfl, rfl⟩, ?_⟩
  simp only [State.setInode_icache, Function.update_self,
    State.setLkIcache_icache, Inode.setRef_ref, Inode.setRef_data]
  rw [if_neg fun last => kept last.1 last.2]
  exact releaseIcache_after_set unlocked _ _

end Inodes

end Fs
end WhuOs
