import WhuOs.Fs.Locate
import WhuOs.Fs.Returns

/-!
# The last release of an inode

`inode_free` deletes an inode with its last reference and link.  It lowers the
number of references first, and deleting locks the inode, which demands a
reference.  Between calls, blocks are written and locked inodes are changed.
-/

namespace WhuOs
namespace Fs

open Library
open Program (Runs)

variable {state final : State}

/-! ## Runs -/

/-- A call of the inode cache, a write of a block, or a change of the stored
fields of an inode. -/
inductive InodeCall
  | cache (call : CacheCall)
  | write (blockNum : UInt32) (data : Block)
  | update (ip : Slot) (data : Dinode)

/-- Read a block, write it and release it. -/
def replaceBlock (blockNum : UInt32) (data : Block) : FsM Unit := do
  let _ ← bufRead blockNum
  bufWrite blockNum data
  bufRelease blockNum

/-- What the functions on inodes and their data are made of.  An inode is
changed while it is locked. -/
inductive InodeStep : CacheRun → InodeCall → CacheRun → Prop
  | cache {before after : CacheRun} {call : CacheCall} :
      CacheStep before call after → InodeStep before (.cache call) after
  | write {before : CacheRun} {blockNum : UInt32} {data : Block}
      {after : State} :
      (replaceBlock blockNum data).Runs before.fs () after →
      InodeStep before (.write blockNum data)
        ⟨after, before.taken, before.freed⟩
  | update {before : CacheRun} {ip : Slot} {data : Dinode} {after : State} :
      (before.fs.icache ip).slk = true →
      (modifyData ip fun _ => data).Runs before.fs () after →
      InodeStep before (.update ip data) ⟨after, before.taken, before.freed⟩

/-- Runs on any disk, from the cache `inode_init` leaves. -/
def inodeSystem : TransitionSystem CacheRun InodeCall where
  Init run := ∃ disk, run = ⟨initialCache disk, fun _ => 0, fun _ => 0⟩
  Step := InodeStep

/-- No call returns with the lock of the cache. -/
theorem CacheStep.unlocked
    {before after : CacheRun} {call : CacheCall}
    (step : CacheStep before call after)
    (unlocked : before.fs.lkIcache = false) : after.fs.lkIcache = false := by
  cases step with
  | alloc used run =>
      rcases inodeAlloc_runs run with ⟨_, rfl⟩ | ⟨_, _, rfl⟩
      · exact unlocked
      · exact unlocked
  | dup used run =>
      obtain rfl := inodeDup_runs run
      exact unlocked
  | free used held run =>
      obtain ⟨rfl, _⟩ := inodeFree_runs run
      exact unlocked
  | lock run =>
      obtain ⟨_, _, rfl⟩ := inodeLock_runs run
      exact unlocked
  | unlock run =>
      obtain ⟨_, rfl⟩ := inodeUnlock_runs run
      exact unlocked

theorem replaceBlock_runs
    {blockNum : UInt32} {data : Block} {result : Unit}
    (run : (replaceBlock blockNum data).Runs state result final) :
    final = state.setDisk (diskIndex blockNum) data := by
  unfold replaceBlock at run
  simp only [Program.runs_bind] at run
  obtain ⟨_, _, read, _, _, write, release⟩ := run
  obtain ⟨_, _, _, rfl⟩ := bufRead_runs read
  exact bufRelease_after_write write release

/-- Between calls nobody has the lock of the cache. -/
theorem unlocked_of_reachable
    {run : CacheRun} (reachable : inodeSystem.Reachable run) :
    run.fs.lkIcache = false := by
  induction reachable with
  | init start =>
      obtain ⟨disk, rfl⟩ := start
      rfl
  | step _ _ step unlocked =>
      cases step with
      | cache step => exact step.unlocked unlocked
      | write replaced =>
          obtain rfl := replaceBlock_runs replaced
          exact unlocked
      | update locked changed =>
          obtain rfl := runs_modifyData.mp changed
          exact unlocked

/-! ## Giving back a reference -/

/-- An inode is deleted: its blocks and its number are free, no type is stored
for it, and its slot is unused. -/
structure Deleted (state final : State) (ip : Slot) : Prop where
  blocks : ∀ (k : Fin nAddrs) (path : List ChildIndex),
    path.length ≤ addrLevel k →
    state.blockAt ((state.dinodeAt (state.icache ip).inodeNum).addrs k) path
      ≠ 0 →
    ¬final.Marked (state.blockAt
      ((state.dinodeAt (state.icache ip).inodeNum).addrs k) path)
  type : (final.dinodeAt (state.icache ip).inodeNum).type = ftUnused
  number : bitAt final.inodeBitmap (state.icache ip).inodeNum.toNat = false
  slot : (final.icache ip).inodeNum = inodeNumUnused

/-- Giving back a reference does not panic, lowers the number of references,
and deletes the inode exactly when this was the last reference and the inode on
disk has no link. -/
def Releases (state : State) (ip : Slot) : Prop :=
  ∃ final, (inodeFree ip).Runs state () final ∧
    (final.icache ip).ref.toNat + 1 = (state.icache ip).ref.toNat ∧
    if (state.icache ip).ref = 1 ∧
        (state.dinodeAt (state.icache ip).inodeNum).nlink = 0 then
      Deleted state final ip
    else final.disk = state.disk

/-- `inode_free` does what it should for a reference that is not the last one,
and for the last one when the inode has links both in the cache and on disk. -/
theorem releases_iff
    {ip : Slot} (unlocked : state.lkIcache = false)
    (used : (state.icache ip).inodeNum ≠ inodeNumUnused) :
    Releases state ip ↔ 2 ≤ (state.icache ip).ref.toNat ∨
      ((state.icache ip).ref = 1 ∧ (state.icache ip).data.nlink ≠ 0 ∧
        (state.dinodeAt (state.icache ip).inodeNum).nlink ≠ 0) := by
  have one : (1 : UInt32).toNat = 1 := rfl
  constructor
  · rintro ⟨final, run, lowered, outcome⟩
    obtain ⟨rfl, linked⟩ := inodeFree_runs run
    by_cases last : (state.icache ip).ref = 1
    · refine Or.inr ⟨last, linked (by rw [last]; rfl), fun unlinked => ?_⟩
      rw [if_pos ⟨last, unlinked⟩] at outcome
      refine used ?_
      have slot := outcome.slot
      rwa [State.setInode_icache, Function.update_self] at slot
    · left
      have notOne : (state.icache ip).ref.toNat ≠ 1 := fun same =>
        last (UInt32.toNat_inj.mp same)
      omega
  · intro condition
    have positive : 1 ≤ (state.icache ip).ref.toNat := by
      rcases condition with more | ⟨last, _⟩
      · omega
      · rw [last, one]
    have atLeast : 1 ≤ (state.icache ip).ref :=
      UInt32.le_iff_toNat_le.mpr positive
    have lowered : ((state.icache ip).ref - 1).toNat + 1 =
        (state.icache ip).ref.toNat := by
      rw [UInt32.toNat_sub_of_le _ _ atLeast, one]
      omega
    refine ⟨_, inodeFree_total unlocked ?_, ?_, ?_⟩
    · intro zero
      rcases condition with more | ⟨_, linked, _⟩
      · rw [zero, UInt32.toNat_zero] at lowered
        omega
      · exact linked
    · rw [State.setInode_icache, Function.update_self, Inode.setRef_ref]
      exact lowered
    · rw [if_neg]
      · rfl
      · rintro ⟨last, unlinked⟩
        rcases condition with more | ⟨_, _, linked⟩
        · rw [last, one] at more
          omega
        · exact linked unlinked

/-- In every state that runs reach, giving back a reference does what it should
when it is not the last one, and for the last one when the inode has links both
in the cache and on disk.  The last reference to an inode without links cannot
be given back. -/
theorem inodeFree_releases_iff
    {run : CacheRun} (reachable : inodeSystem.Reachable run) {ip : Slot}
    (used : (run.fs.icache ip).inodeNum ≠ inodeNumUnused) :
    (Releases run.fs ip ↔ 2 ≤ (run.fs.icache ip).ref.toNat ∨
      ((run.fs.icache ip).ref = 1 ∧ (run.fs.icache ip).data.nlink ≠ 0 ∧
        (run.fs.dinodeAt (run.fs.icache ip).inodeNum).nlink ≠ 0)) :=
  releases_iff (unlocked_of_reachable reachable) used

/-- The root directory taken once on a fresh image. -/
def rootHeld : CacheRun :=
  CacheRun.take ⟨initialCache (mkfsDisk zeroBlock), fun _ => 0, fun _ => 0⟩
    ((initialCache (mkfsDisk zeroBlock)).takeOver 0 inodeRoot) inodeRoot

theorem rootHeld_reachable : inodeSystem.Reachable rootHeld := by
  have absent : slotOf (initialCache (mkfsDisk zeroBlock)) inodeRoot =
      none := by decide
  have free : freeSlot (initialCache (mkfsDisk zeroBlock)) = some 0 := by
    decide
  have start : inodeSystem.Reachable
      ⟨initialCache (mkfsDisk zeroBlock), fun _ => 0, fun _ => 0⟩ :=
    .init ⟨_, rfl⟩
  exact start.step trivial
    (.cache (.alloc (by decide) (inodeAlloc_miss rfl absent free)))

/-- Giving back a reference to the root directory that was never locked panics
on a fresh image. -/
theorem inodeFree_not_releases :
    ¬∀ run, inodeSystem.Reachable run → ∀ ip : Slot,
      (run.fs.icache ip).inodeNum ≠ inodeNumUnused →
      run.freed (run.fs.icache ip).inodeNum <
        run.taken (run.fs.icache ip).inodeNum →
      (run.fs.icache ip).slk = false → Releases run.fs ip := by
  intro all
  obtain ⟨final, run, _⟩ := all rootHeld rootHeld_reachable 0 (by decide)
    (by decide) (by decide)
  exact (inodeFree_runs run).2 (by decide) (by decide)

/-- One of two references to the root directory is given back. -/
theorem inodeFree_releases_shared :
    ∃ run, inodeSystem.Reachable run ∧ Releases run.fs 0 := by
  have shared := rootHeld_reachable.step trivial (.cache (.alloc
    (by decide : inodeRoot ≠ inodeNumUnused)
    (inodeAlloc_hit rfl (rfl : slotOf rootHeld.fs inodeRoot = some 0))))
  exact ⟨_, shared, (inodeFree_releases_iff shared (by decide)).mpr
    (Or.inl (by decide))⟩

end Fs
end WhuOs
