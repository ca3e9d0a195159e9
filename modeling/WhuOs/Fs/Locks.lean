import WhuOs.Fs.Session

/-!
# Locks of inodes

A call unlocks every inode that it locks before it returns, on each of its
exits.  So between two calls of a session no inode is locked, and neither is the
cache.
-/

namespace WhuOs
namespace Fs

open Library
open Program (Runs Keeps)

variable {state final : State} {held : List Slot} {ip dirIp : Slot}

/-- The slots that a call has locked, while the cache is not. -/
structure Locks (held : List Slot) (state : State) : Prop where
  cacheIdle : state.lkIcache = false
  locked : ∀ ip, (state.icache ip).slk = true ↔ ip ∈ held
  nodup : held.Nodup

namespace Locks

theorem congr (locks : Locks held state) (same : final.slots = state.slots) :
    Locks held final := by
  obtain ⟨sameCache, sameSlots⟩ := Prod.mk.inj same
  refine ⟨sameCache.trans locks.cacheIdle, fun ip => ?_, locks.nodup⟩
  rw [(Prod.mk.inj (Prod.mk.inj (congrFun sameSlots ip)).2).2]
  exact locks.locked ip

theorem keep
    {α : Type} {program : FsM α} {result : α} (locks : Locks held state)
    (keeps : Keeps State.slots program)
    (run : program.Runs state result final) : Locks held final :=
  locks.congr (keeps.runs run)

theorem perm
    {held' : List Slot} (locks : Locks held state) (same : held.Perm held') :
    Locks held' state :=
  ⟨locks.cacheIdle, fun ip => (locks.locked ip).trans same.mem_iff,
    same.nodup_iff.mp locks.nodup⟩

/-- References and data of an inode change while its lock does not. -/
theorem setInode
    {inode : Inode} (locks : Locks held state)
    (same : inode.slk = (state.icache ip).slk) :
    Locks held (state.setInode ip inode) := by
  refine ⟨locks.cacheIdle, fun other => ?_, locks.nodup⟩
  rw [← locks.locked other, State.setInode_icache]
  by_cases here : other = ip
  · rw [here, Function.update_self, same]
  · rw [Function.update_of_ne here]

theorem alloc
    {inodeNum : UInt16} (locks : Locks held state)
    (run : (inodeAlloc inodeNum).Runs state ip final) : Locks held final := by
  rcases inodeAlloc_runs run with ⟨_, rfl⟩ | ⟨_, _, rfl⟩
  · exact locks.setInode rfl
  · exact locks.setInode rfl

theorem free
    {result : Unit} (locks : Locks held state)
    (run : (inodeFree ip).Runs state result final) : Locks held final := by
  rw [(inodeFree_runs run).1]
  exact locks.setInode rfl

theorem lock
    {result : Unit} (locks : Locks held state)
    (run : (inodeLock ip).Runs state result final) :
    Locks (ip :: held) final := by
  obtain ⟨_, unlocked, rfl⟩ := inodeLock_runs run
  have fresh : ip ∉ held := fun member => by
    rw [(locks.locked ip).mpr member] at unlocked
    cases unlocked
  refine ⟨locks.cacheIdle, fun other => ?_, locks.nodup.cons fresh⟩
  rw [State.setInode_icache, List.mem_cons]
  by_cases here : other = ip
  · rw [here, Function.update_self]
    exact ⟨fun _ => Or.inl rfl, fun _ => rfl⟩
  · rw [Function.update_of_ne here, locks.locked other]
    exact ⟨Or.inr, fun either => either.resolve_left here⟩

theorem unlock
    {result : Unit} (locks : Locks (ip :: held) state)
    (run : (inodeUnlock ip).Runs state result final) : Locks held final := by
  obtain ⟨_, rfl⟩ := inodeUnlock_runs run
  obtain ⟨absent, nodup⟩ := List.nodup_cons.mp locks.nodup
  refine ⟨locks.cacheIdle, fun other => ?_, nodup⟩
  rw [State.setInode_icache]
  by_cases here : other = ip
  · rw [here, Function.update_self]
    exact ⟨nofun, fun member => absurd member absent⟩
  · rw [Function.update_of_ne here, locks.locked other, List.mem_cons]
    exact ⟨fun either => either.resolve_left here, Or.inr⟩

theorem unlockFree
    {result : Unit} (locks : Locks (ip :: held) state)
    (run : (inodeUnlockFree ip).Runs state result final) :
    Locks held final := by
  simp only [inodeUnlockFree, Program.runs_bind] at run
  obtain ⟨_, _, unlock, free⟩ := run
  exact (locks.unlock unlock).free free

end Locks

/-! ## Paths -/

theorem searchLoop_locks
    {findParent : Bool} {elements : List CString}
    {result : Option (Slot × CString)} (locks : Locks held state)
    (run : (searchLoop findParent ip elements).Runs state result final) :
    Locks held final := by
  induction elements generalizing ip state with
  | nil =>
      unfold searchLoop at run
      split at run
      · simp only [Program.runs_bind, Program.runs_pure] at run
        obtain ⟨_, _, free, rfl, rfl⟩ := run
        exact locks.free free
      · simp only [Program.runs_pure] at run
        obtain ⟨rfl, rfl⟩ := run
        exact locks
  | cons name rest inductionHypothesis =>
      simp only [searchLoop, Program.runs_bind, runs_getInode] at run
      obtain ⟨_, _, lock, _, _, ⟨rfl, rfl⟩, run⟩ := run
      have locked := locks.lock lock
      split at run
      · simp only [Program.runs_bind, Program.runs_pure] at run
        obtain ⟨_, _, free, rfl, rfl⟩ := run
        exact locked.unlockFree free
      · split at run
        · simp only [Program.runs_bind, Program.runs_pure] at run
          obtain ⟨_, _, unlock, rfl, rfl⟩ := run
          exact locked.unlock unlock
        · simp only [Program.runs_bind] at run
          obtain ⟨next, _, search, run⟩ := run
          have searched :=
            locked.keep (dirSearchEntry_keeps_slots ip name) search
          split at run
          · simp only [Program.runs_bind, Program.runs_pure] at run
            obtain ⟨_, _, free, rfl, rfl⟩ := run
            exact searched.unlockFree free
          · simp only [Program.runs_bind] at run
            obtain ⟨_, _, unlock, _, _, free, ip', _, alloc, run⟩ := run
            have freed := (searched.unlock unlock).free free
            exact inductionHypothesis (freed.alloc alloc) run

theorem searchInode_locks
    {path : CString} {findParent : Bool} {result : Option (Slot × CString)}
    (locks : Locks held state)
    (run : (searchInode path findParent).Runs state result final) :
    Locks held final := by
  simp only [searchInode, Program.runs_bind] at run
  obtain ⟨ip, _, alloc, run⟩ := run
  exact searchLoop_locks (locks.alloc alloc) run

theorem pathToInode_locks
    {path : CString} {result : Option Slot} (locks : Locks held state)
    (run : (pathToInode path).Runs state result final) :
    Locks held final := by
  simp only [pathToInode, Program.runs_bind, Program.runs_pure] at run
  obtain ⟨found, _, search, _, rfl⟩ := run
  exact searchInode_locks locks search

theorem inodeCreate_locks
    {type major minor : UInt16} {result : Option Slot}
    (locks : Locks held state)
    (run : (inodeCreate type major minor).Runs state result final) :
    Locks held final := by
  simp only [inodeCreate, Program.runs_bind] at run
  obtain ⟨inodeNum, _, bitmap, run⟩ := run
  have marked := locks.keep bitmapAllocInode_keeps_slots bitmap
  split at run
  · simp only [Program.runs_pure] at run
    obtain ⟨rfl, rfl⟩ := run
    exact marked
  · simp only [Program.runs_bind, runs_modifyData, Program.runs_pure] at run
    obtain ⟨ip, _, alloc, _, _, lock, _, _, rfl, _, _, write, _, _, unlock,
      rfl, rfl⟩ := run
    have locked := (marked.alloc alloc).lock lock
    have written := (locked.congr (slots_setData ip _)).keep
      (inodeRw_write_keeps_slots ip) write
    exact written.unlock unlock

theorem fillDirectory_locks
    {name : CString} {result : Bool} (locks : Locks held state)
    (run : (fillDirectory dirIp ip name).Runs state result final) :
    Locks held final ∧ result = true := by
  simp only [fillDirectory, Program.runs_bind] at run
  obtain ⟨blockNum, _, alloc, run⟩ := run
  have marked := locks.keep bitmapAllocBlock_keeps_slots alloc
  split at run
  · simp only [Program.runs_bind] at run
    obtain ⟨_, _, unlock, _, _, freeData, _⟩ := run
    exact absurd freeData (unlock_freeData_not_runs unlock)
  · simp only [Program.runs_bind, runs_modifyData, runs_getInode,
      Program.runs_pure] at run
    obtain ⟨_, _, rfl, _, _, ⟨rfl, rfl⟩, _, _, addDot, _, _, ⟨rfl, rfl⟩, _, _,
      addDotDot, _, _, rfl, _, _, write, rfl, rfl⟩ := run
    have withDot := (marked.congr (slots_setData ip _)).keep
      (dirAddEntry_keeps_slots _ _ _) addDot
    have withDotDot := withDot.keep (dirAddEntry_keeps_slots _ _ _) addDotDot
    exact ⟨(withDotDot.congr (slots_setData dirIp _)).keep
      (inodeRw_write_keeps_slots dirIp) write, rfl⟩

theorem finishCreate_locks
    {result : Option Slot} (locks : Locks (ip :: dirIp :: held) state)
    (run : (finishCreate dirIp ip).Runs state result final) :
    Locks held final := by
  simp only [finishCreate, Program.runs_bind, runs_modifyData,
    Program.runs_pure] at run
  obtain ⟨_, _, rfl, _, _, write, _, _, unlock, _, _, free, rfl, rfl⟩ := run
  have written := (locks.congr (slots_setData ip _)).keep
    (inodeRw_write_keeps_slots ip) write
  exact (written.unlock unlock).unlockFree free

theorem pathCreateInode_locks
    {path : CString} {type major minor : UInt16} {result : Option Slot}
    (locks : Locks held state)
    (run : (pathCreateInode path type major minor).Runs state result final) :
    Locks held final := by
  simp only [pathCreateInode, Program.runs_bind] at run
  obtain ⟨parent, _, search, run⟩ := run
  have searched := searchInode_locks locks search
  cases parent with
  | none =>
      simp only [Program.runs_pure] at run
      obtain ⟨rfl, rfl⟩ := run
      exact searched
  | some parent =>
      obtain ⟨dirIp, name⟩ := parent
      simp only [Program.runs_bind] at run
      obtain ⟨_, _, lock, found, _, lookup, run⟩ := run
      have looked := (searched.lock lock).keep
        (dirSearchEntry_keeps_slots dirIp name) lookup
      split at run
      · simp only [Program.runs_bind, Program.runs_pure] at run
        obtain ⟨_, _, free, rfl, rfl⟩ := run
        exact looked.unlockFree free
      · simp only [Program.runs_bind] at run
        obtain ⟨created, _, create, run⟩ := run
        have made := inodeCreate_locks looked create
        cases created with
        | none =>
            simp only [Program.runs_bind, Program.runs_pure] at run
            obtain ⟨_, _, free, rfl, rfl⟩ := run
            exact made.unlockFree free
        | some ip =>
            simp only [Program.runs_bind, runs_getInode] at run
            obtain ⟨_, _, lockNew, _, _, ⟨rfl, rfl⟩, offset, _, add, run⟩ :=
              run
            have added := (made.lock lockNew).keep
              (dirAddEntry_keeps_slots _ _ _) add
            split at run
            · simp only [Program.runs_bind] at run
              obtain ⟨_, _, unlock, _, _, freeData, _⟩ := run
              exact absurd freeData (unlock_freeData_not_runs unlock)
            · split at run
              · simp only [Program.runs_bind] at run
                obtain ⟨filled, _, fill, run⟩ := run
                obtain ⟨filledLocks, rfl⟩ := fillDirectory_locks added fill
                exact finishCreate_locks filledLocks run
              · exact finishCreate_locks added run

theorem pathLink_locks
    {oldPath newPath : CString} {result : Bool} (locks : Locks held state)
    (run : (pathLink oldPath newPath).Runs state result final) :
    Locks held final := by
  simp only [pathLink, Program.runs_bind] at run
  obtain ⟨old, _, search, run⟩ := run
  have searched := pathToInode_locks locks search
  cases old with
  | none =>
      simp only [Program.runs_pure] at run
      obtain ⟨_, rfl⟩ := run
      exact searched
  | some oldIp =>
      simp only [Program.runs_bind, runs_getInode] at run
      obtain ⟨_, _, lock, _, _, ⟨rfl, rfl⟩, run⟩ := run
      have locked := searched.lock lock
      split at run
      · simp only [Program.runs_bind, Program.runs_pure] at run
        obtain ⟨_, _, free, _, rfl⟩ := run
        exact locked.unlockFree free
      · simp only [Program.runs_bind] at run
        obtain ⟨parent, _, searchParent, run⟩ := run
        have both := searchInode_locks locked searchParent
        cases parent with
        | none =>
            simp only [Program.runs_bind, Program.runs_pure] at run
            obtain ⟨_, _, free, _, rfl⟩ := run
            exact both.unlockFree free
        | some parent =>
            obtain ⟨dirIp, newName⟩ := parent
            simp only [Program.runs_bind, runs_getInode] at run
            obtain ⟨_, _, lockDir, _, _, ⟨rfl, rfl⟩, offset, _, add, run⟩ :=
              run
            have added := (both.lock lockDir).keep
              (dirAddEntry_keeps_slots _ _ _) add
            split at run
            · simp only [Program.runs_bind, Program.runs_pure] at run
              obtain ⟨_, _, freeDir, _, _, freeOld, _, rfl⟩ := run
              exact (added.unlockFree freeDir).unlockFree freeOld
            · simp only [Program.runs_bind, runs_modifyData,
                Program.runs_pure] at run
              obtain ⟨_, _, rfl, _, _, write, _, _, freeDir, _, _, freeOld, _,
                rfl⟩ := run
              have written := (added.congr (slots_setData oldIp _)).keep
                (inodeRw_write_keeps_slots oldIp) write
              exact (written.unlockFree freeDir).unlockFree freeOld

theorem finishUnlink_locks
    {name : CString} {result : Bool}
    (locks : Locks (dirIp :: ip :: held) state)
    (run : (finishUnlink dirIp ip name).Runs state result final) :
    Locks held final := by
  simp only [finishUnlink, Program.runs_bind, runs_modifyData,
    runs_getInode] at run
  obtain ⟨_, _, delete, _, _, freeDir, _, _, rfl, _, _, ⟨rfl, rfl⟩, run⟩ :=
    run
  have deleted := locks.keep (dirDeleteEntry_keeps_slots dirIp name) delete
  have freed := deleted.unlockFree freeDir
  split at run
  · simp only [Program.runs_bind, Program.runs_pure] at run
    obtain ⟨_, _, freeData, _, _, write, _, _, free, _, rfl⟩ := run
    have emptied := (freed.congr (slots_setData ip _)).keep
      (inodeFreeData_keeps_slots ip) freeData
    exact (emptied.keep (inodeRw_write_keeps_slots ip) write).unlockFree free
  · simp only [Program.runs_bind, Program.runs_pure] at run
    obtain ⟨_, _, write, _, _, free, _, rfl⟩ := run
    have written := (freed.congr (slots_setData ip _)).keep
      (inodeRw_write_keeps_slots ip) write
    exact written.unlockFree free

theorem pathUnlink_locks
    {path : CString} {result : Bool} (locks : Locks held state)
    (run : (pathUnlink path).Runs state result final) :
    Locks held final := by
  simp only [pathUnlink, Program.runs_bind] at run
  obtain ⟨parent, _, search, run⟩ := run
  have searched := searchInode_locks locks search
  cases parent with
  | none =>
      simp only [Program.runs_pure] at run
      obtain ⟨_, rfl⟩ := run
      exact searched
  | some parent =>
      obtain ⟨dirIp, name⟩ := parent
      simp only [Program.runs_bind] at run
      obtain ⟨_, _, lock, run⟩ := run
      have locked := searched.lock lock
      split at run
      · simp only [Program.runs_bind, Program.runs_pure] at run
        obtain ⟨_, _, free, _, rfl⟩ := run
        exact locked.unlockFree free
      · simp only [Program.runs_bind] at run
        obtain ⟨inum, _, lookup, run⟩ := run
        have looked := locked.keep (dirSearchEntry_keeps_slots dirIp name)
          lookup
        split at run
        · simp only [Program.runs_bind, Program.runs_pure] at run
          obtain ⟨_, _, free, _, rfl⟩ := run
          exact looked.unlockFree free
        · simp only [Program.runs_bind, runs_getInode] at run
          obtain ⟨ip, _, alloc, _, _, lockIp, _, _, ⟨rfl, rfl⟩, run⟩ := run
          have both := (looked.alloc alloc).lock lockIp
          have bothLocked := both.perm (.swap dirIp ip held)
          split at run
          · simp only [Program.runs_bind] at run
            obtain ⟨empty, _, check, run⟩ := run
            have checked := bothLocked.keep (checkUnlink_keeps_slots ip) check
            split at run
            · simp only [Program.runs_bind, runs_modifyData] at run
              obtain ⟨_, _, rfl, _, _, write, run⟩ := run
              have written := (checked.congr (slots_setData dirIp _)).keep
                (inodeRw_write_keeps_slots dirIp) write
              exact finishUnlink_locks written run
            · simp only [Program.runs_bind, Program.runs_pure] at run
              obtain ⟨_, _, free, _, _, freeDir, _, rfl⟩ := run
              exact ((checked.perm (.swap ip dirIp held)).unlockFree
                free).unlockFree freeDir
          · exact finishUnlink_locks bothLocked run

/-! ## Files -/

section Files

variable {kernel after : Kernel} {index : FileIndex}

theorem openInode_locks
    {path : CString} {openMode : UInt32} {result : Option Slot}
    (locks : Locks held state)
    (run : (openInode path openMode).Runs state result final) :
    Locks held final := by
  unfold openInode at run
  split at run
  · exact pathCreateInode_locks locks run
  · exact pathToInode_locks locks run

theorem fileOpen_locks
    {path : CString} {openMode : UInt32} {result : Option FileIndex}
    (locks : Locks held kernel.fs)
    (run : (fileOpen path openMode).Runs kernel result after) :
    Locks held after.fs := by
  rcases fileOpen_runs run with ⟨fs, opened, _, rfl⟩ |
    ⟨ip, fs₁, fs₂, opened, lock, ⟨fs, free, _, rfl⟩ |
      ⟨fs, index, unlock, _, unused, rfl⟩⟩
  · exact openInode_locks locks opened
  · exact ((openInode_locks locks opened).lock lock).unlockFree free
  · exact ((openInode_locks locks opened).lock lock).unlock unlock

theorem fileClose_locks
    {result : Unit} (locks : Locks held kernel.fs)
    (run : (fileClose index).Runs kernel result after) :
    Locks held after.fs := by
  obtain ⟨_, fs, rfl, closes⟩ := fileClose_runs run
  unfold ClosesTo at closes
  split at closes
  · split at closes
    · exact locks.free closes
    · exact closes ▸ locks
  · exact closes ▸ locks

theorem fileRead_locks
    {len result : UInt32} (locks : Locks held kernel.fs)
    (run : (fileRead index len).Runs kernel result after) :
    Locks held after.fs := by
  simp only [fileRead, Program.runs_bind, runs_getFile] at run
  obtain ⟨_, _, ⟨rfl, rfl⟩, run⟩ := run
  split at run
  · rw [Program.runs_pure] at run
    exact run.2 ▸ locks
  · split at run
    · simp only [Program.runs_bind, runs_fileIp, runs_onFs,
        Program.runs_pure] at run
      obtain ⟨ip, _, ⟨_, rfl⟩, _, _, ⟨_, lock, rfl⟩, _, _, ⟨_, entries, rfl⟩,
        _, _, ⟨_, unlock, rfl⟩, _, rfl⟩ := run
      exact ((locks.lock lock).keep (dirGetEntries_keeps_slots ip len)
        entries).unlock unlock
    · simp only [Program.runs_bind, runs_fileIp, runs_onFs, runs_advance,
        Program.runs_pure] at run
      obtain ⟨ip, _, ⟨_, rfl⟩, _, _, ⟨_, lock, rfl⟩, _, _, ⟨_, read, rfl⟩, _,
        _, rfl, _, _, ⟨_, unlock, rfl⟩, _, rfl⟩ := run
      exact ((locks.lock lock).keep (inodeReadData_keeps_slots ip _ _)
        read).unlock unlock
    all_goals
      rw [Program.runs_pure] at run
      exact run.2 ▸ locks

theorem fileWrite_locks
    {len result : UInt32} {src : Bytes} (locks : Locks held kernel.fs)
    (run : (fileWrite index len src).Runs kernel result after) :
    Locks held after.fs := by
  simp only [fileWrite, Program.runs_bind, runs_getFile] at run
  obtain ⟨_, _, ⟨rfl, rfl⟩, run⟩ := run
  split at run
  · rw [Program.runs_pure] at run
    exact run.2 ▸ locks
  · split at run
    · simp only [Program.runs_bind, runs_fileIp, runs_onFs, runs_advance,
        Program.runs_pure] at run
      obtain ⟨ip, _, ⟨_, rfl⟩, _, _, ⟨_, lock, rfl⟩, _, _, ⟨_, write, rfl⟩, _,
        _, rfl, _, _, ⟨_, unlock, rfl⟩, _, rfl⟩ := run
      exact ((locks.lock lock).keep (inodeWriteData_keeps_slots ip _ _ _)
        write).unlock unlock
    all_goals
      rw [Program.runs_pure] at run
      exact run.2 ▸ locks

theorem fileStat_locks
    {result : Option Inode} (locks : Locks held kernel.fs)
    (run : (fileStat index).Runs kernel result after) :
    Locks held after.fs := by
  simp only [fileStat, Program.runs_bind, runs_getFile] at run
  obtain ⟨_, _, ⟨rfl, rfl⟩, run⟩ := run
  split at run
  · simp only [Program.runs_bind, runs_fileIp, runs_onFs, runs_getInode,
      Program.runs_pure] at run
    obtain ⟨ip, _, ⟨_, rfl⟩, _, _, ⟨_, lock, rfl⟩, _, _, ⟨_, ⟨rfl, rfl⟩,
      rfl⟩, _, _, ⟨_, unlock, rfl⟩, _, rfl⟩ := run
    exact (locks.lock lock).unlock unlock
  · rw [Program.runs_pure] at run
    exact run.2 ▸ locks

theorem fileLseek_locks
    {offset flags : UInt32} {result : Option UInt32}
    (locks : Locks held kernel.fs)
    (run : (fileLseek index offset flags).Runs kernel result after) :
    Locks held after.fs := by
  simp only [fileLseek, Program.runs_bind, runs_getFile] at run
  obtain ⟨_, _, ⟨rfl, rfl⟩, run⟩ := run
  split at run
  · rw [Program.runs_pure] at run
    exact run.2 ▸ locks
  · generalize (if flags = 0 then _ else _ : Option UInt32) = target at run
    cases target with
    | some target =>
        simp only [Program.runs_bind, runs_modifyFile, Program.runs_pure]
          at run
        obtain ⟨_, _, rfl, _, rfl⟩ := run
        exact locks
    | none =>
        simp only [Program.runs_pure] at run
        exact run.2 ▸ locks

end Files

/-! ## Sessions -/

/-- Every call unlocks what it locks. -/
theorem FileStep.locks
    {before after : Session} {call : FileCall}
    (locks : Locks held before.kernel.fs)
    (taken : FileStep before call after) : Locks held after.kernel.fs := by
  cases taken with
  | «open» run => exact fileOpen_locks locks run
  | close run => exact fileClose_locks locks run
  | dup run =>
      obtain ⟨_, rfl⟩ := fileDup_runs run
      exact locks
  | read run => exact fileRead_locks locks run
  | write run => exact fileWrite_locks locks run
  | lseek run => exact fileLseek_locks locks run
  | stat run => exact fileStat_locks locks run
  | create run => exact pathCreateInode_locks locks run
  | giveBack _ run => exact locks.free run
  | link run => exact pathLink_locks locks run
  | unlink run => exact pathUnlink_locks locks run

/-- Between two calls no inode is locked. -/
def Session.Unlocked (session : Session) : Prop :=
  Locks [] session.kernel.fs

theorem Session.Unlocked.step
    {before after : Session} {call : FileCall} (unlocked : before.Unlocked)
    (taken : FileStep before call after) : after.Unlocked :=
  taken.locks unlocked

theorem Session.Unlocked.of_reachable
    {guard : Session → FileCall → Prop} {session : Session}
    (reachable : sessionSystem.ReachableBy guard session) :
    session.Unlocked := by
  refine reachable.invariant ?_ fun _ _ _ unlocked _ taken =>
    unlocked.step taken
  rintro ⟨kernel, returned⟩ ⟨_, junk, rfl⟩
  exact ⟨rfl, fun _ => ⟨nofun, nofun⟩, List.nodup_nil⟩

end Fs
end WhuOs
