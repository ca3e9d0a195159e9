import WhuOs.Fs.OpenFiles

/-!
# References to cached inodes

Between system calls every reference to a slot of the inode cache was left by
the boot code or belongs to an open file.  During a call the functions of
`dir.c` and `file.c` hold further references, which the specifications below
list.  `sys_mkdir` never gives back the reference to the directory it made.
-/

namespace WhuOs
namespace Fs

open Library
open Program (Runs Keeps)

variable {state final : State} {kernel after : Kernel}

/-! ## Functions that take and give back no reference -/

/-- The inode and the number of references of each slot. -/
def State.refs (state : State) (ip : Slot) : UInt16 × UInt32 :=
  ((state.icache ip).inodeNum, (state.icache ip).ref)

/-- The inode, the references and the lock of each slot, and the lock of the
cache. -/
def State.slots (state : State) : Bool × (Slot → UInt16 × UInt32 × Bool) :=
  (state.lkIcache, fun ip => ((state.icache ip).inodeNum,
    (state.icache ip).ref, (state.icache ip).slk))

theorem refs_of_slots (same : final.slots = state.slots) :
    final.refs = state.refs := by
  funext ip
  have sameSlot := congrFun (Prod.mk.inj same).2 ip
  exact Prod.ext (Prod.mk.inj sameSlot).1
    (Prod.mk.inj (Prod.mk.inj sameSlot).2).1

/-- A program that keeps the slots keeps the references. -/
theorem keeps_refs
    {α : Type} {program : FsM α} (keeps : Keeps State.slots program) :
    Keeps State.refs program := by
  apply Keeps.of_runs
  intro before result after run
  exact refs_of_slots (keeps.runs run)

/-- A change of a slot that keeps its inode and references. -/
theorem refs_setInode
    {ip : Slot} {inode : Inode}
    (sameNum : inode.inodeNum = (state.icache ip).inodeNum)
    (sameRef : inode.ref = (state.icache ip).ref) :
    (state.setInode ip inode).refs = state.refs := by
  funext other
  by_cases same : other = ip
  · subst same
    simp [State.refs, sameNum, sameRef]
  · simp [State.refs, same]

theorem slots_setInode
    {ip : Slot} {inode : Inode}
    (sameNum : inode.inodeNum = (state.icache ip).inodeNum)
    (sameRef : inode.ref = (state.icache ip).ref)
    (sameSlk : inode.slk = (state.icache ip).slk) :
    (state.setInode ip inode).slots = state.slots := by
  refine Prod.ext rfl (funext fun other => ?_)
  by_cases same : other = ip
  · subst same
    simp [State.slots, sameNum, sameRef, sameSlk]
  · simp [State.slots, same]

theorem slots_setData (ip : Slot) (data : Dinode) :
    (state.setData ip data).slots = state.slots :=
  slots_setInode rfl rfl rfl

theorem refs_setData (ip : Slot) (data : Dinode) :
    (state.setData ip data).refs = state.refs :=
  refs_of_slots (slots_setData ip data)

theorem getInode_keeps_slots (ip : Slot) :
    Keeps State.slots (getInode ip) := by
  apply Keeps.of_runs
  intro before result after run
  rw [(runs_getInode.mp run).2]

theorem modifyData_keeps_slots (ip : Slot) (change : Dinode → Dinode) :
    Keeps State.slots (modifyData ip change) := by
  apply Keeps.of_runs
  intro before result after run
  rw [← runs_modifyData.mp run]
  exact slots_setData ip _

theorem bufRead_keeps_slots (blockNum : UInt32) :
    Keeps State.slots (bufRead blockNum) := by
  apply Keeps.of_runs
  intro before result after run
  obtain ⟨_, _, _, rfl⟩ := bufRead_runs run
  rfl

theorem bufWrite_keeps_slots (blockNum : UInt32) (data : Block) :
    Keeps State.slots (bufWrite blockNum data) := by
  apply Keeps.of_runs
  intro before result after run
  obtain rfl := bufWrite_runs run
  rfl

theorem bufRelease_keeps_slots (blockNum : UInt32) :
    Keeps State.slots (bufRelease blockNum) := by
  apply Keeps.of_runs
  intro before result after run
  obtain rfl := bufRelease_runs run
  rfl

theorem bitmapAllocBlock_keeps_slots : Keeps State.slots bitmapAllocBlock := by
  apply Keeps.of_runs
  intro before result after run
  rcases bitmapAllocBlock_runs run with ⟨_, _, rfl⟩ | ⟨_, _, _, _, rfl⟩
  · rfl
  · rfl

theorem bitmapFreeBlock_keeps_slots (blockNum : UInt32) :
    Keeps State.slots (bitmapFreeBlock blockNum) := by
  apply Keeps.of_runs
  intro before result after run
  rcases bitmapFreeBlock_runs run with ⟨_, rfl⟩ | ⟨_, _, _, _, rfl⟩
  · rfl
  · rfl

theorem bitmapAllocInode_keeps_slots : Keeps State.slots bitmapAllocInode := by
  apply Keeps.of_runs
  intro before result after run
  rcases bitmapAllocInode_runs run with ⟨_, _, rfl⟩ | ⟨_, _, _, _, rfl⟩
  · rfl
  · rfl

theorem inodeRw_write_keeps_slots (ip : Slot) :
    Keeps State.slots (inodeRw ip true) := by
  apply Keeps.of_runs
  intro before result after run
  obtain ⟨_, rfl⟩ := inodeRw_write_runs run
  rfl

theorem inodeLock_keeps_refs (ip : Slot) :
    Keeps State.refs (inodeLock ip) := by
  apply Keeps.of_runs
  intro before result after run
  obtain ⟨_, _, rfl⟩ := inodeLock_runs run
  exact refs_setInode rfl rfl

theorem inodeUnlock_keeps_refs (ip : Slot) :
    Keeps State.refs (inodeUnlock ip) := by
  apply Keeps.of_runs
  intro before result after run
  obtain ⟨_, rfl⟩ := inodeUnlock_runs run
  exact refs_setInode rfl rfl

theorem blockOfEntry_keeps_slots (entry : UInt32) :
    Keeps State.slots (blockOfEntry entry) :=
  .ite bitmapAllocBlock_keeps_slots (.pure _)

theorem locateBlock_keeps_slots (entry bn : UInt32) (level : Nat) :
    Keeps State.slots (locateBlock entry bn level) := by
  induction level generalizing entry bn with
  | zero =>
      exact .bind (blockOfEntry_keeps_slots _) fun _ => .pure _
  | succ level inductionHypothesis =>
      exact .bind (blockOfEntry_keeps_slots _) fun entry =>
        .bind (bufRead_keeps_slots entry) fun _ =>
        .bind (inductionHypothesis _ _) fun _ =>
        .bind (bufWrite_keeps_slots _ _) fun _ =>
        .bind (bufRelease_keeps_slots _) fun _ => .pure _

theorem inodeLocateBlock_keeps_slots (ip : Slot) (bn : UInt32) :
    Keeps State.slots (inodeLocateBlock ip bn) := by
  have located : ∀ index bn level,
      Keeps State.slots (locateAddr ip index bn level) := by
    intro index bn level
    exact .bind (getInode_keeps_slots ip) fun _ =>
      .bind (locateBlock_keeps_slots _ _ _) fun _ =>
      .bind (modifyData_keeps_slots _ _) fun _ => .pure _
  exact .ite (located _ _ _) (.ite (located _ _ _)
    (.ite (located _ _ _) (.panic _)))

theorem readLoop_keeps_slots
    (ip : Slot) (offset len total : UInt32) (dst : List UInt8) (fuel : Nat) :
    Keeps State.slots (readLoop ip offset len total dst fuel) := by
  induction fuel generalizing offset total dst with
  | zero => exact .pure _
  | succ fuel inductionHypothesis =>
      refine .ite ?_ (.pure _)
      exact .bind (inodeLocateBlock_keeps_slots _ _) fun _ =>
        .bind (bufRead_keeps_slots _) fun _ =>
        .bind (bufRelease_keeps_slots _) fun _ => inductionHypothesis _ _ _

theorem inodeReadData_keeps_slots (ip : Slot) (offset len : UInt32) :
    Keeps State.slots (inodeReadData ip offset len) :=
  .bind (getInode_keeps_slots ip) fun _ => .bind (.assert _ _) fun _ =>
    .ite (.pure _) (readLoop_keeps_slots _ _ _ _ _ _)

theorem writeLoop_keeps_slots
    (ip : Slot) (offset len total : UInt32) (src : Bytes) (fuel : Nat) :
    Keeps State.slots (writeLoop ip offset len total src fuel) := by
  induction fuel generalizing offset total with
  | zero => exact .pure _
  | succ fuel inductionHypothesis =>
      refine .ite ?_ (.pure _)
      exact .bind (inodeLocateBlock_keeps_slots _ _) fun _ =>
        .bind (bufRead_keeps_slots _) fun _ =>
        .bind (bufWrite_keeps_slots _ _) fun _ =>
        .bind (bufRelease_keeps_slots _) fun _ => inductionHypothesis _ _

theorem inodeWriteData_keeps_slots
    (ip : Slot) (offset len : UInt32) (src : Bytes) :
    Keeps State.slots (inodeWriteData ip offset len src) :=
  .bind (getInode_keeps_slots ip) fun _ => .bind (.assert _ _) fun _ =>
    .ite (.pure _) <|
      .bind (writeLoop_keeps_slots _ _ _ _ _ _) fun _ =>
      .bind (getInode_keeps_slots ip) fun _ =>
      .ite (.bind (modifyData_keeps_slots _ _) fun _ =>
        .bind (inodeRw_write_keeps_slots ip) fun _ => .pure _) (.pure _)

theorem dataFree_keeps_slots (blockNum : UInt32) (level : Nat) :
    Keeps State.slots (dataFree blockNum level) := by
  induction level generalizing blockNum with
  | zero =>
      exact .bind (.assert _ _) fun _ => bitmapFreeBlock_keeps_slots _
  | succ level inductionHypothesis =>
      exact .bind (.assert _ _) fun _ =>
        .bind (bufRead_keeps_slots _) fun _ =>
        .bind (.forM (fun addr => inductionHypothesis addr) _) fun _ =>
        .bind (bufRelease_keeps_slots _) fun _ => bitmapFreeBlock_keeps_slots _

theorem inodeFreeData_keeps_slots (ip : Slot) :
    Keeps State.slots (inodeFreeData ip) := by
  refine .bind (getInode_keeps_slots ip) fun _ => .bind (.assert _ _) fun _ =>
    .bind (.forM (fun index => ?_) _) fun _ => modifyData_keeps_slots _ _
  exact .bind (getInode_keeps_slots ip) fun _ => .ite
    (.bind (dataFree_keeps_slots _ _) fun _ => modifyData_keeps_slots _ _)
    (.pure _)

theorem dirSearchEntry_keeps_slots (pip : Slot) (name : CString) :
    Keeps State.slots (dirSearchEntry pip name) := by
  apply Keeps.of_runs
  intro before result after run
  obtain ⟨_, _, _, rfl, _⟩ := dirSearchEntry_runs run
  rfl

theorem dirAddEntry_keeps_slots
    (pip : Slot) (inodeNum : UInt16) (name : CString) :
    Keeps State.slots (dirAddEntry pip inodeNum name) := by
  apply Keeps.of_runs
  intro before result after run
  obtain ⟨_, _, ⟨_, rfl, _⟩ | ⟨_, _, _, _, _, _, rfl⟩⟩ := dirAddEntry_runs run
  · rfl
  · exact slots_setData pip _

theorem dirDeleteEntry_keeps_slots (pip : Slot) (name : CString) :
    Keeps State.slots (dirDeleteEntry pip name) := by
  apply Keeps.of_runs
  intro before result after run
  rcases dirDeleteEntry_runs run with ⟨_, rfl⟩ | ⟨_, _, rfl⟩
  · rfl
  · rfl

theorem dirGetEntries_keeps_slots (pip : Slot) (len : UInt32) :
    Keeps State.slots (dirGetEntries pip len) := by
  apply Keeps.of_runs
  intro before result after run
  rw [(dirGetEntries_runs run).1]

theorem checkUnlink_keeps_slots (ip : Slot) :
    Keeps State.slots (checkUnlink ip) := by
  apply Keeps.of_runs
  intro before result after run
  rw [(checkUnlink_runs run).1]

/-! ## Accounting for references -/

/-- Every inode has at most one slot, and the references to a slot are those
left by the boot code, those of open files and those the running call holds. -/
structure References (base : UInt16 → Nat) (opened : Slot → Nat)
    (held : List Slot) (state : State) : Prop where
  unique : ∀ ip ip', (state.icache ip).inodeNum ≠ inodeNumUnused →
    (state.icache ip).inodeNum = (state.icache ip').inodeNum → ip = ip'
  counted : ∀ ip, (state.icache ip).ref.toNat =
    base (state.icache ip).inodeNum + opened ip + held.count ip
  cached : ∀ inodeNum, base inodeNum ≠ 0 →
    ∃ ip, (state.icache ip).inodeNum = inodeNum
  unusedBase : base inodeNumUnused = 0
  baseBound : ∀ inodeNum, base inodeNum < 2 ^ 31
  openedBound : ∀ ip, opened ip ≤ nFile

namespace References

variable {base : UInt16 → Nat} {opened : Slot → Nat} {held : List Slot}

/-- The account depends on the inodes and references of the slots only. -/
theorem congr
    (references : References base opened held state)
    (same : final.refs = state.refs) :
    References base opened held final := by
  have sameNum : ∀ ip, (final.icache ip).inodeNum =
      (state.icache ip).inodeNum :=
    fun ip => congrArg Prod.fst (congrFun same ip)
  have sameRef : ∀ ip, (final.icache ip).ref = (state.icache ip).ref :=
    fun ip => congrArg Prod.snd (congrFun same ip)
  refine ⟨?_, ?_, ?_, references.unusedBase, references.baseBound,
    references.openedBound⟩
  · intro ip ip' used equal
    rw [sameNum] at used
    rw [sameNum, sameNum] at equal
    exact references.unique ip ip' used equal
  · intro ip
    rw [sameNum, sameRef]
    exact references.counted ip
  · intro inodeNum left
    obtain ⟨ip, number⟩ := references.cached inodeNum left
    exact ⟨ip, (sameNum ip).trans number⟩

/-- A program that keeps the references keeps the account. -/
theorem keepRefs
    {α : Type} {program : FsM α} {result : α}
    (references : References base opened held state)
    (keeps : Keeps State.refs program)
    (run : program.Runs state result final) :
    References base opened held final :=
  references.congr (keeps.runs run)

theorem keep
    {α : Type} {program : FsM α} {result : α}
    (references : References base opened held state)
    (keeps : Keeps State.slots program)
    (run : program.Runs state result final) :
    References base opened held final :=
  references.keepRefs (keeps_refs keeps) run

/-- The order of the references of the running call does not matter. -/
theorem perm
    {held' : List Slot}
    (references : References base opened held state)
    (same : held.Perm held') :
    References base opened held' state := by
  refine ⟨references.unique, fun ip => ?_, references.cached,
    references.unusedBase, references.baseBound, references.openedBound⟩
  rw [← same.count_eq]
  exact references.counted ip

/-- A slot holds fewer references than its counter can count. -/
theorem ref_lt
    (references : References base opened held state)
    (few : held.length ≤ nInode) (ip : Slot) :
    (state.icache ip).ref.toNat + 1 < 2 ^ 32 := by
  have counted := references.counted ip
  have left := references.baseBound (state.icache ip).inodeNum
  have files := references.openedBound ip
  have length : held.count ip ≤ held.length := List.count_le_length
  have sizes : nFile = 32 ∧ nInode = 32 := ⟨rfl, rfl⟩
  omega

/-- Finding or loading an inode takes a reference. -/
theorem alloc
    {inodeNum : UInt16} {ip : Slot}
    (references : References base opened held state)
    (few : held.length ≤ nInode)
    (run : (inodeAlloc inodeNum).Runs state ip final) :
    References base opened (ip :: held) final ∧
      (final.icache ip).inodeNum = inodeNum := by
  have bound := references.ref_lt few ip
  rcases inodeAlloc_runs run with
    ⟨number, rfl⟩ | ⟨absent, unreferenced, rfl⟩
  · have sameNum : ∀ other, ((state.setInode ip ((state.icache ip).setRef
        ((state.icache ip).ref + 1))).icache other).inodeNum =
        (state.icache other).inodeNum := by
      intro other
      by_cases same : other = ip
      · subst same
        simp
      · simp [same]
    refine ⟨⟨?_, ?_, ?_, references.unusedBase, references.baseBound,
      references.openedBound⟩, (sameNum ip).trans number⟩
    · intro other other' otherUsed equal
      rw [sameNum] at otherUsed
      rw [sameNum, sameNum] at equal
      exact references.unique other other' otherUsed equal
    · intro other
      rw [sameNum]
      have counted := references.counted other
      by_cases same : other = ip
      · subst same
        rw [List.count_cons_self]
        simp only [State.setInode_icache, Function.update_self,
          Inode.setRef_ref, UInt32.toNat_add, UInt32.reduceToNat]
        omega
      · rw [List.count_cons_of_ne (Ne.symm same)]
        simpa [same] using counted
    · intro left kept
      obtain ⟨other, otherNumber⟩ := references.cached left kept
      exact ⟨other, (sameNum other).trans otherNumber⟩
  · have fresh : base inodeNum = 0 := by
      by_contra left
      obtain ⟨other, number⟩ := references.cached inodeNum left
      exact absent other number
    have counted := references.counted ip
    rw [unreferenced] at counted
    have zero : base (state.icache ip).inodeNum = 0 ∧ opened ip = 0 ∧
        held.count ip = 0 := by
      simp only [UInt32.toNat_zero] at counted
      omega
    refine ⟨⟨?_, ?_, ?_, references.unusedBase, references.baseBound,
      references.openedBound⟩, by simp⟩
    · intro other other' otherUsed equal
      by_cases same : other = ip
      · subst same
        by_cases same' : other' = other
        · exact same'.symm
        · simp only [State.setInode_icache, Function.update_self,
            Function.update_of_ne same'] at equal
          exact absurd equal.symm (absent other')
      · by_cases same' : other' = ip
        · subst same'
          simp only [State.setInode_icache, Function.update_self,
            Function.update_of_ne same] at equal
          exact absurd equal (absent other)
        · simp only [State.setInode_icache, Function.update_of_ne same,
            Function.update_of_ne same'] at otherUsed equal
          exact references.unique other other' otherUsed equal
    · intro other
      by_cases same : other = ip
      · subst same
        rw [List.count_cons_self]
        simp only [State.setInode_icache, Function.update_self, fresh, zero]
        rfl
      · rw [List.count_cons_of_ne (Ne.symm same)]
        simpa [same] using references.counted other
    · intro left kept
      obtain ⟨other, number⟩ := references.cached left kept
      have differs : other ≠ ip := by
        rintro rfl
        rw [number] at zero
        exact kept zero.1
      exact ⟨other, by simpa [differs] using number⟩

/-- Giving back a reference the running call holds. -/
theorem free
    {ip : Slot} {result : Unit}
    (references : References base opened (ip :: held) state)
    (run : (inodeFree ip).Runs state result final) :
    References base opened held final := by
  obtain ⟨rfl, _⟩ := inodeFree_runs run
  have sameNum : ∀ other, ((state.setInode ip ((state.icache ip).setRef
      ((state.icache ip).ref - 1))).icache other).inodeNum =
      (state.icache other).inodeNum := by
    intro other
    by_cases same : other = ip
    · subst same
      simp
    · simp [same]
  refine ⟨?_, ?_, ?_, references.unusedBase, references.baseBound,
    references.openedBound⟩
  · intro other other' otherUsed equal
    rw [sameNum] at otherUsed
    rw [sameNum, sameNum] at equal
    exact references.unique other other' otherUsed equal
  · intro other
    rw [sameNum]
    have counted := references.counted other
    by_cases same : other = ip
    · subst same
      rw [List.count_cons_self] at counted
      have one : (1 : UInt32).toNat = 1 := rfl
      have positive : 1 ≤ (state.icache other).ref := by
        apply UInt32.le_iff_toNat_le.mpr
        rw [counted, one]
        omega
      simp only [State.setInode_icache, Function.update_self,
        Inode.setRef_ref]
      rw [UInt32.toNat_sub_of_le _ _ positive, counted, one]
      omega
    · rw [List.count_cons_of_ne (Ne.symm same)] at counted
      simpa [same] using counted
  · intro left kept
    obtain ⟨other, otherNumber⟩ := references.cached left kept
    exact ⟨other, (sameNum other).trans otherNumber⟩

theorem unlockFree
    {ip : Slot} {result : Unit}
    (references : References base opened (ip :: held) state)
    (run : (inodeUnlockFree ip).Runs state result final) :
    References base opened held final := by
  simp only [inodeUnlockFree, Program.runs_bind] at run
  obtain ⟨_, _, unlock, free⟩ := run
  exact (references.keepRefs (inodeUnlock_keeps_refs ip) unlock).free free

end References

/-! ## Paths -/

section Paths

variable {base : UInt16 → Nat} {opened : Slot → Nat} {held : List Slot}

/-- The references a search leaves with its caller. -/
def foundSlot : Option (Slot × CString) → List Slot
  | some (ip, _) => [ip]
  | none => []

theorem searchLoop_references
    {findParent : Bool} {ip : Slot} {elements : List CString}
    {result : Option (Slot × CString)}
    (references : References base opened (ip :: held) state)
    (few : held.length < nInode)
    (run : (searchLoop findParent ip elements).Runs state result final) :
    References base opened (foundSlot result ++ held) final := by
  induction elements generalizing ip state with
  | nil =>
      unfold searchLoop at run
      split at run
      · simp only [Program.runs_bind, Program.runs_pure] at run
        obtain ⟨_, _, free, rfl, rfl⟩ := run
        exact references.free free
      · simp only [Program.runs_pure] at run
        obtain ⟨rfl, rfl⟩ := run
        exact references
  | cons name rest inductionHypothesis =>
      simp only [searchLoop, Program.runs_bind, runs_getInode] at run
      obtain ⟨_, _, lock, _, _, ⟨rfl, rfl⟩, run⟩ := run
      have locked := references.keepRefs (inodeLock_keeps_refs ip) lock
      split at run
      · simp only [Program.runs_bind, Program.runs_pure] at run
        obtain ⟨_, _, free, rfl, rfl⟩ := run
        exact locked.unlockFree free
      · split at run
        · simp only [Program.runs_bind, Program.runs_pure] at run
          obtain ⟨_, _, unlock, rfl, rfl⟩ := run
          exact locked.keepRefs (inodeUnlock_keeps_refs ip) unlock
        · simp only [Program.runs_bind] at run
          obtain ⟨next, _, search, run⟩ := run
          have searched :=
            locked.keep (dirSearchEntry_keeps_slots ip name) search
          split at run
          · simp only [Program.runs_bind, Program.runs_pure] at run
            obtain ⟨_, _, free, rfl, rfl⟩ := run
            exact searched.unlockFree free
          · simp only [Program.runs_bind] at run
            obtain ⟨_, _, unlock, _, _, free, ip', _, alloc, run⟩ := run
            have unlocked :=
              searched.keepRefs (inodeUnlock_keeps_refs ip) unlock
            have freed := unlocked.free free
            exact inductionHypothesis (freed.alloc few.le alloc).1 run

theorem searchInode_references
    {path : CString} {findParent : Bool} {result : Option (Slot × CString)}
    (references : References base opened held state)
    (few : held.length < nInode)
    (run : (searchInode path findParent).Runs state result final) :
    References base opened (foundSlot result ++ held) final := by
  simp only [searchInode, Program.runs_bind] at run
  obtain ⟨ip, _, alloc, run⟩ := run
  exact searchLoop_references (references.alloc few.le alloc).1 few run

theorem pathToInode_references
    {path : CString} {result : Option Slot}
    (references : References base opened held state)
    (few : held.length < nInode)
    (run : (pathToInode path).Runs state result final) :
    References base opened (result.toList ++ held) final := by
  simp only [pathToInode, Program.runs_bind, Program.runs_pure] at run
  obtain ⟨found, _, search, rfl, rfl⟩ := run
  have searched := searchInode_references references few search
  cases found with
  | none => exact searched
  | some found => exact searched

/-- A new inode comes with a reference. -/
theorem inodeCreate_references
    {type major minor : UInt16} {result : Option Slot}
    (references : References base opened held state)
    (few : held.length ≤ nInode)
    (run : (inodeCreate type major minor).Runs state result final) :
    References base opened (result.toList ++ held) final := by
  simp only [inodeCreate, Program.runs_bind] at run
  obtain ⟨inodeNum, _, bitmap, run⟩ := run
  have marked := references.keep bitmapAllocInode_keeps_slots bitmap
  split at run
  · simp only [Program.runs_pure] at run
    obtain ⟨rfl, rfl⟩ := run
    exact marked
  · simp only [Program.runs_bind, runs_modifyData, Program.runs_pure] at run
    obtain ⟨ip, _, alloc, _, _, lock, _, _, rfl, _, _, write, _, _, unlock,
      rfl, rfl⟩ := run
    have allocated := (marked.alloc few alloc).1
    have locked := allocated.keepRefs (inodeLock_keeps_refs ip) lock
    have written := (locked.congr (refs_setData ip _)).keep
      (inodeRw_write_keeps_slots ip) write
    exact written.keepRefs (inodeUnlock_keeps_refs ip) unlock

/-- An unlocked inode has no data to free. -/
theorem inodeFreeData_not_runs
    {ip : Slot} {result : Unit}
    (unlocked : (state.icache ip).slk = false) :
    ¬(inodeFreeData ip).Runs state result final := by
  intro run
  simp only [inodeFreeData, Program.runs_bind, runs_getInode,
    Program.runs_assert] at run
  obtain ⟨_, _, ⟨rfl, rfl⟩, _, _, ⟨locked, rfl⟩, _⟩ := run
  rw [unlocked] at locked
  cases locked

/-- The error exits that unlock a new inode before freeing its data panic. -/
theorem unlock_freeData_not_runs
    {ip : Slot} {middle : State} {result result' : Unit}
    (unlock : (inodeUnlock ip).Runs state result middle) :
    ¬(inodeFreeData ip).Runs middle result' final := by
  obtain ⟨_, rfl⟩ := inodeUnlock_runs unlock
  apply inodeFreeData_not_runs
  simp

theorem fillDirectory_references
    {dirIp ip : Slot} {name : CString} {result : Bool}
    (references : References base opened held state)
    (run : (fillDirectory dirIp ip name).Runs state result final) :
    References base opened held final ∧ result = true := by
  simp only [fillDirectory, Program.runs_bind] at run
  obtain ⟨blockNum, _, alloc, run⟩ := run
  have marked := references.keep bitmapAllocBlock_keeps_slots alloc
  split at run
  · simp only [Program.runs_bind] at run
    obtain ⟨_, _, unlock, _, _, freeData, _⟩ := run
    exact absurd freeData (unlock_freeData_not_runs unlock)
  · simp only [Program.runs_bind, runs_modifyData, runs_getInode,
      Program.runs_pure] at run
    obtain ⟨_, _, rfl, _, _, ⟨rfl, rfl⟩, _, _, addDot, _, _, ⟨rfl, rfl⟩, _, _,
      addDotDot, _, _, rfl, _, _, write, rfl, rfl⟩ := run
    have withDot := (marked.congr (refs_setData ip _)).keep
      (dirAddEntry_keeps_slots _ _ _) addDot
    have withDotDot := withDot.keep (dirAddEntry_keeps_slots _ _ _) addDotDot
    exact ⟨(withDotDot.congr (refs_setData dirIp _)).keep
      (inodeRw_write_keeps_slots dirIp) write, rfl⟩

theorem finishCreate_references
    {dirIp ip : Slot} {result : Option Slot}
    (references : References base opened (ip :: dirIp :: held) state)
    (run : (finishCreate dirIp ip).Runs state result final) :
    result = some ip ∧ References base opened (ip :: held) final := by
  simp only [finishCreate, Program.runs_bind, runs_modifyData,
    Program.runs_pure] at run
  obtain ⟨_, _, rfl, _, _, write, _, _, unlock, _, _, free, rfl, rfl⟩ := run
  have written := (references.congr (refs_setData ip _)).keep
    (inodeRw_write_keeps_slots ip) write
  have unlocked := written.keepRefs (inodeUnlock_keeps_refs ip) unlock
  exact ⟨rfl, (unlocked.perm (.swap dirIp ip held)).unlockFree free⟩

/-- A new inode is returned with a reference. -/
theorem pathCreateInode_references
    {path : CString} {type major minor : UInt16} {result : Option Slot}
    (references : References base opened held state)
    (few : held.length + 2 ≤ nInode)
    (run : (pathCreateInode path type major minor).Runs state result final) :
    References base opened (result.toList ++ held) final := by
  simp only [pathCreateInode, Program.runs_bind] at run
  obtain ⟨parent, _, search, run⟩ := run
  have searched := searchInode_references references (by omega) search
  cases parent with
  | none =>
      simp only [Program.runs_pure] at run
      obtain ⟨rfl, rfl⟩ := run
      exact searched
  | some parent =>
      obtain ⟨dirIp, name⟩ := parent
      have parentHeld : References base opened (dirIp :: held) _ := searched
      simp only [Program.runs_bind] at run
      obtain ⟨_, _, lock, found, _, lookup, run⟩ := run
      have locked := parentHeld.keepRefs (inodeLock_keeps_refs dirIp) lock
      have looked := locked.keep (dirSearchEntry_keeps_slots dirIp name) lookup
      split at run
      · simp only [Program.runs_bind, Program.runs_pure] at run
        obtain ⟨_, _, free, rfl, rfl⟩ := run
        exact looked.unlockFree free
      · simp only [Program.runs_bind] at run
        obtain ⟨created, _, create, run⟩ := run
        have made := inodeCreate_references looked
          (by simp only [List.length_cons]; omega) create
        cases created with
        | none =>
            simp only [Program.runs_bind, Program.runs_pure] at run
            obtain ⟨_, _, free, rfl, rfl⟩ := run
            exact made.unlockFree free
        | some ip =>
            simp only [Program.runs_bind, runs_getInode] at run
            obtain ⟨_, _, lockNew, _, _, ⟨rfl, rfl⟩, offset, _, add, run⟩ :=
              run
            have newHeld : References base opened (ip :: dirIp :: held) _ :=
              made
            have added := (newHeld.keepRefs (inodeLock_keeps_refs ip)
              lockNew).keep (dirAddEntry_keeps_slots _ _ _) add
            split at run
            · simp only [Program.runs_bind] at run
              obtain ⟨_, _, unlock, _, _, freeData, _⟩ := run
              exact absurd freeData (unlock_freeData_not_runs unlock)
            · split at run
              · simp only [Program.runs_bind] at run
                obtain ⟨filled, _, fill, run⟩ := run
                obtain ⟨filledHeld, rfl⟩ :=
                  fillDirectory_references added fill
                obtain ⟨rfl, finished⟩ :=
                  finishCreate_references filledHeld run
                exact finished
              · obtain ⟨rfl, finished⟩ := finishCreate_references added run
                exact finished

/-- The number of a name in a directory that was found and is now locked, or
`inodeNumUnused`. -/
def State.lookup (state : State) (dirIp : Slot) (name : CString) : UInt16 :=
  let data := state.disk (diskIndex ((state.locked dirIp).data.addrs 0))
  ((findEntry data name).map (entryInode data)).getD inodeNumUnused

/-- A path at which nothing can be created: it has no parent directory, or the
parent holds the name already, or no inode is free. -/
def CannotCreate (state : State) (path : CString) : Prop :=
  ∀ dirIp name found,
    (pathToPinode path).Runs state (some (dirIp, name)) found →
    found.lookup dirIp name ≠ inodeNumUnused ∨
      firstClear found.inodeBitmap = none

/-- Nothing is created at a path where nothing can be. -/
theorem pathCreateInode_none
    {path : CString} {type major minor : UInt16} {result : Option Slot}
    (refused : CannotCreate state path)
    (run : (pathCreateInode path type major minor).Runs state result final) :
    result = none := by
  simp only [pathCreateInode, Program.runs_bind] at run
  obtain ⟨parent, found, search, run⟩ := run
  cases parent with
  | none =>
      simp only [Program.runs_pure] at run
      exact run.1.symm
  | some parent =>
      obtain ⟨dirIp, name⟩ := parent
      simp only [Program.runs_bind] at run
      obtain ⟨_, _, lock, number, _, lookup, run⟩ := run
      obtain ⟨_, _, rfl⟩ := inodeLock_runs lock
      obtain ⟨_, _, _, rfl, rfl⟩ := dirSearchEntry_runs lookup
      have sameLookup : lookupName ((found.setInode dirIp
          (found.locked dirIp)).dirData dirIp) name =
          found.lookup dirIp name := by
        simp only [State.dirData, State.setInode_icache, lookupName,
          Function.update_self, State.setInode_disk, State.lookup]
      rw [sameLookup] at run
      split at run
      · simp only [Program.runs_bind, Program.runs_pure] at run
        obtain ⟨_, _, _, rfl, _⟩ := run
        rfl
      · next absent =>
        have full := (refused dirIp name found search).resolve_left
          absent
        simp only [Program.runs_bind] at run
        obtain ⟨created, _, create, run⟩ := run
        simp only [inodeCreate, Program.runs_bind] at create
        obtain ⟨inodeNum, _, bitmap, create⟩ := create
        rcases bitmapAllocInode_runs bitmap with
          ⟨_, rfl, rfl⟩ | ⟨number, clear, _⟩
        · rw [if_pos rfl, Program.runs_pure] at create
          obtain ⟨rfl, rfl⟩ := create
          simp only [Program.runs_bind, Program.runs_pure] at run
          obtain ⟨_, _, _, rfl, _⟩ := run
          rfl
        · have full' : firstClear (found.setInode dirIp
              (found.locked dirIp)).inodeBitmap = none := full
          rw [full'] at clear
          cases clear

theorem pathLink_references
    {oldPath newPath : CString} {result : Bool}
    (references : References base opened held state)
    (few : held.length + 2 ≤ nInode)
    (run : (pathLink oldPath newPath).Runs state result final) :
    References base opened held final := by
  simp only [pathLink, Program.runs_bind] at run
  obtain ⟨old, _, search, run⟩ := run
  have searched := pathToInode_references references (by omega) search
  cases old with
  | none =>
      simp only [Program.runs_pure] at run
      obtain ⟨_, rfl⟩ := run
      exact searched
  | some oldIp =>
      have oldHeld : References base opened (oldIp :: held) _ := searched
      simp only [Program.runs_bind, runs_getInode] at run
      obtain ⟨_, _, lock, _, _, ⟨rfl, rfl⟩, run⟩ := run
      have locked := oldHeld.keepRefs (inodeLock_keeps_refs oldIp) lock
      split at run
      · simp only [Program.runs_bind, Program.runs_pure] at run
        obtain ⟨_, _, free, _, rfl⟩ := run
        exact locked.unlockFree free
      · simp only [Program.runs_bind] at run
        obtain ⟨parent, _, searchParent, run⟩ := run
        have both := searchInode_references locked
          (by simp only [List.length_cons]; omega) searchParent
        cases parent with
        | none =>
            simp only [Program.runs_bind, Program.runs_pure] at run
            obtain ⟨_, _, free, _, rfl⟩ := run
            exact both.unlockFree free
        | some parent =>
            obtain ⟨dirIp, newName⟩ := parent
            have bothHeld : References base opened (dirIp :: oldIp :: held)
                _ := both
            simp only [Program.runs_bind, runs_getInode] at run
            obtain ⟨_, _, lockDir, _, _, ⟨rfl, rfl⟩, offset, _, add, run⟩ :=
              run
            have added := (bothHeld.keepRefs (inodeLock_keeps_refs dirIp)
              lockDir).keep (dirAddEntry_keeps_slots _ _ _) add
            split at run
            · simp only [Program.runs_bind, Program.runs_pure] at run
              obtain ⟨_, _, freeDir, _, _, freeOld, _, rfl⟩ := run
              exact (added.unlockFree freeDir).unlockFree freeOld
            · simp only [Program.runs_bind, runs_modifyData,
                Program.runs_pure] at run
              obtain ⟨_, _, rfl, _, _, write, _, _, freeDir, _, _, freeOld, _,
                rfl⟩ := run
              have written := (added.congr (refs_setData oldIp _)).keep
                (inodeRw_write_keeps_slots oldIp) write
              exact (written.unlockFree freeDir).unlockFree freeOld

theorem finishUnlink_references
    {dirIp ip : Slot} {name : CString} {result : Bool}
    (references : References base opened (dirIp :: ip :: held) state)
    (run : (finishUnlink dirIp ip name).Runs state result final) :
    References base opened held final := by
  simp only [finishUnlink, Program.runs_bind, runs_modifyData,
    runs_getInode] at run
  obtain ⟨_, _, delete, _, _, freeDir, _, _, rfl, _, _, ⟨rfl, rfl⟩, run⟩ :=
    run
  have deleted := references.keep (dirDeleteEntry_keeps_slots dirIp name)
    delete
  have freed := deleted.unlockFree freeDir
  split at run
  · simp only [Program.runs_bind, Program.runs_pure] at run
    obtain ⟨_, _, freeData, _, _, write, _, _, free, _, rfl⟩ := run
    have emptied := (freed.congr (refs_setData ip _)).keep
      (inodeFreeData_keeps_slots ip) freeData
    exact (emptied.keep (inodeRw_write_keeps_slots ip) write).unlockFree free
  · simp only [Program.runs_bind, Program.runs_pure] at run
    obtain ⟨_, _, write, _, _, free, _, rfl⟩ := run
    have written := (freed.congr (refs_setData ip _)).keep
      (inodeRw_write_keeps_slots ip) write
    exact written.unlockFree free

theorem pathUnlink_references
    {path : CString} {result : Bool}
    (references : References base opened held state)
    (few : held.length + 2 ≤ nInode)
    (run : (pathUnlink path).Runs state result final) :
    References base opened held final := by
  simp only [pathUnlink, Program.runs_bind] at run
  obtain ⟨parent, _, search, run⟩ := run
  have searched := searchInode_references references (by omega) search
  cases parent with
  | none =>
      simp only [Program.runs_pure] at run
      obtain ⟨_, rfl⟩ := run
      exact searched
  | some parent =>
      obtain ⟨dirIp, name⟩ := parent
      have parentHeld : References base opened (dirIp :: held) _ := searched
      simp only [Program.runs_bind] at run
      obtain ⟨_, _, lock, run⟩ := run
      have locked := parentHeld.keepRefs (inodeLock_keeps_refs dirIp) lock
      split at run
      · simp only [Program.runs_bind, Program.runs_pure] at run
        obtain ⟨_, _, free, _, rfl⟩ := run
        exact locked.unlockFree free
      · simp only [Program.runs_bind] at run
        obtain ⟨inum, _, lookup, run⟩ := run
        have looked := locked.keep (dirSearchEntry_keeps_slots dirIp name)
          lookup
        split at run
        · simp only [Program.runs_bind, Program.runs_pure] at run
          obtain ⟨_, _, free, _, rfl⟩ := run
          exact looked.unlockFree free
        · simp only [Program.runs_bind, runs_getInode] at run
          obtain ⟨ip, _, alloc, _, _, lockIp, _, _, ⟨rfl, rfl⟩, run⟩ := run
          have allocated := (looked.alloc
            (by simp only [List.length_cons]; omega) alloc).1
          have bothLocked := (allocated.keepRefs (inodeLock_keeps_refs ip)
            lockIp).perm (.swap dirIp ip held)
          split at run
          · simp only [Program.runs_bind] at run
            obtain ⟨empty, _, check, run⟩ := run
            have checked := bothLocked.keep (checkUnlink_keeps_slots ip) check
            split at run
            · simp only [Program.runs_bind, runs_modifyData] at run
              obtain ⟨_, _, rfl, _, _, write, run⟩ := run
              have written := (checked.congr (refs_setData dirIp _)).keep
                (inodeRw_write_keeps_slots dirIp) write
              exact finishUnlink_references written run
            · simp only [Program.runs_bind, Program.runs_pure] at run
              obtain ⟨_, _, free, _, _, freeDir, _, rfl⟩ := run
              exact ((checked.perm (.swap ip dirIp held)).unlockFree
                free).unlockFree freeDir
          · exact finishUnlink_references bothLocked run

theorem dirChange_references
    {path : CString} {result : Bool}
    (references : References base opened held state)
    (few : held.length < nInode)
    (run : (dirChange path).Runs state result final) :
    References base opened held final := by
  simp only [dirChange, Program.runs_bind] at run
  obtain ⟨found, _, search, run⟩ := run
  have searched := pathToInode_references references few search
  cases found with
  | none =>
      simp only [Program.runs_pure] at run
      obtain ⟨_, rfl⟩ := run
      exact searched
  | some ip =>
      simp only [Program.runs_bind, runs_getInode, Program.runs_pure] at run
      obtain ⟨_, _, lock, _, _, ⟨rfl, rfl⟩, _, _, free, _, rfl⟩ := run
      have ipHeld : References base opened (ip :: held) _ := searched
      exact (ipHeld.keepRefs (inodeLock_keeps_refs ip) lock).unlockFree free

end Paths

end Fs
end WhuOs
