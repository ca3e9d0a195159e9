import WhuOs.Fs.FreshDisk
import WhuOs.Fs.Unlinking
import WhuOs.Library.TransitionSystem

/-!
# Sessions

Sequences of the calls of `file.c` and `dir.c` on the kernel.  A caller of
`path_create_inode` holds a reference to the new inode until it gives it back.
The calls keep the blocks sound and the directories a tree as long as new inodes
fit into the table, new directories get a block without other entries, and
transfers find enough free blocks that read as zero.
-/

namespace WhuOs
namespace Fs

open Library
open Program (Runs)

/-! ## Calls -/

/-- The kernel with the references, by inode number, that callers of
`path_create_inode` hold. -/
structure Session where
  kernel : Kernel
  returned : UInt16 → Nat

/-- The calls on open files and paths. -/
inductive FileCall
  | «open» (path : CString) (openMode : UInt32)
  | close (index : FileIndex)
  | dup (index : FileIndex)
  | read (index : FileIndex) (len : UInt32)
  | write (index : FileIndex) (len : UInt32) (src : Bytes)
  | lseek (index : FileIndex) (offset flags : UInt32)
  | stat (index : FileIndex)
  | create (path : CString) (type major minor : UInt16)
  | giveBack (ip : Slot)
  | link (oldPath newPath : CString)
  | unlink (path : CString)

/-- The number of an inode that `path_create_inode` returned counts once more. -/
def Session.creates (before : Session) (after : Kernel) :
    Option Slot → UInt16 → Nat
  | none => before.returned
  | some ip => Function.update before.returned (after.fs.icache ip).inodeNum
      (before.returned (after.fs.icache ip).inodeNum + 1)

/-- A call that does not panic. -/
inductive FileStep : Session → FileCall → Session → Prop
  | «open» {before : Session} {path : CString} {openMode : UInt32}
      {result : Option FileIndex} {after : Kernel} :
      (fileOpen path openMode).Runs before.kernel result after →
      FileStep before (.open path openMode) ⟨after, before.returned⟩
  | close {before : Session} {index : FileIndex} {after : Kernel} :
      (fileClose index).Runs before.kernel () after →
      FileStep before (.close index) ⟨after, before.returned⟩
  | dup {before : Session} {index : FileIndex} {after : Kernel} :
      (fileDup index).Runs before.kernel () after →
      FileStep before (.dup index) ⟨after, before.returned⟩
  | read {before : Session} {index : FileIndex} {len result : UInt32}
      {after : Kernel} :
      (fileRead index len).Runs before.kernel result after →
      FileStep before (.read index len) ⟨after, before.returned⟩
  | write {before : Session} {index : FileIndex} {len result : UInt32}
      {src : Bytes} {after : Kernel} :
      (fileWrite index len src).Runs before.kernel result after →
      FileStep before (.write index len src) ⟨after, before.returned⟩
  | lseek {before : Session} {index : FileIndex} {offset flags : UInt32}
      {result : Option UInt32} {after : Kernel} :
      (fileLseek index offset flags).Runs before.kernel result after →
      FileStep before (.lseek index offset flags) ⟨after, before.returned⟩
  | stat {before : Session} {index : FileIndex} {result : Option Inode}
      {after : Kernel} :
      (fileStat index).Runs before.kernel result after →
      FileStep before (.stat index) ⟨after, before.returned⟩
  | create {before : Session} {path : CString} {type major minor : UInt16}
      {result : Option Slot} {fs : State} :
      (pathCreateInode path type major minor).Runs before.kernel.fs result
        fs →
      FileStep before (.create path type major minor)
        ⟨before.kernel.setFs fs, before.creates (before.kernel.setFs fs)
          result⟩
  | giveBack {before : Session} {ip : Slot} {fs : State} :
      before.returned (before.kernel.fs.icache ip).inodeNum ≠ 0 →
      (inodeFree ip).Runs before.kernel.fs () fs →
      FileStep before (.giveBack ip) ⟨before.kernel.setFs fs,
        Function.update before.returned
          (before.kernel.fs.icache ip).inodeNum
          (before.returned (before.kernel.fs.icache ip).inodeNum - 1)⟩
  | link {before : Session} {oldPath newPath : CString} {result : Bool}
      {fs : State} :
      (pathLink oldPath newPath).Runs before.kernel.fs result fs →
      FileStep before (.link oldPath newPath)
        ⟨before.kernel.setFs fs, before.returned⟩
  | unlink {before : Session} {path : CString} {result : Bool} {fs : State} :
      (pathUnlink path).Runs before.kernel.fs result fs →
      FileStep before (.unlink path) ⟨before.kernel.setFs fs, before.returned⟩

/-- Sessions on the image that `mkfs` writes without user files. -/
def sessionSystem : TransitionSystem Session FileCall where
  Init session := session.returned = (fun _ => 0) ∧
    ∃ junk, session.kernel = bootKernel junk
  Step := FileStep

/-! ## Careful calls -/

/-- The next inode number that is free, if there is one, is in the table. -/
def InodeFits (state : State) : Prop :=
  ∀ number, firstClear state.inodeBitmap = some number → number < maxInodes

/-- The block that a new directory gets has no entries in use but the two that
the directory is given. -/
def DirBlockFits (state : State) (path : CString) : Prop :=
  ∀ dir name block node, state.search path true = some (dir, name) →
    state.freeBlocks.head? = some block →
    firstClear state.inodeBitmap = some node.toNat →
    OwnEntries (state.disk block) node dir

/-- Creating an inode fails, or it fits. -/
def CreateFits (state : State) (path : CString) (type : UInt16) : Prop :=
  CannotCreate state path ∨
    (InodeFits state ∧ (type = ftDir → DirBlockFits state path))

/-- The free blocks that become index blocks in a transfer of a locked inode
exist and read as zero. -/
def ReadFits (state : State) (file : File) (len : UInt32) : Prop :=
  ∀ ip locked, file.ip = some ip → (inodeLock ip).Runs state () locked →
    locked.TransferSupplied (locked.icache ip).inodeNum file.offset.toNat
      (readLength (locked.icache ip).data.size file.offset len).toNat

@[inherit_doc ReadFits]
def WriteFits (state : State) (file : File) (len : UInt32) : Prop :=
  ∀ ip locked, file.ip = some ip → (inodeLock ip).Runs state () locked →
    (file.offset + len).toNat ≤ inodeMaxSize →
    locked.TransferSupplied (locked.icache ip).inodeNum file.offset.toNat
      len.toNat

/-- A call that has what it needs. -/
def Careful (before : Session) : FileCall → Prop
  | .open path openMode => openMode &&& modeCreate ≠ 0 →
      CreateFits before.kernel.fs path ftFile
  | .create path type _ _ => CreateFits before.kernel.fs path type
  | .read index len => (before.kernel.ftable index).type = .file →
      ReadFits before.kernel.fs (before.kernel.ftable index) len
  | .write index len _ => (before.kernel.ftable index).type = .file →
      WriteFits before.kernel.fs (before.kernel.ftable index) len
  | _ => True

/-! ## Locks -/

theorem Live.unlocks
    {base : UInt16 → Nat} {opened : Slot → Nat} {held : List Slot}
    {state final : State} {ip : Slot} {result : Unit}
    (live : Live base opened held state)
    (used : (state.icache ip).inodeNum ≠ inodeNumUnused)
    (run : (inodeUnlock ip).Runs state result final) :
    LeavesDisk base opened held state final := by
  obtain ⟨live', quiet⟩ := live.unlock used run
  obtain ⟨_, rfl⟩ := inodeUnlock_runs run
  exact ⟨live', quiet, rfl⟩

theorem Live.frees
    {base : UInt16 → Nat} {opened : Slot → Nat} {held : List Slot}
    {state final : State} {ip : Slot} {result : Unit}
    (live : Live base opened (ip :: held) state)
    (used : (state.icache ip).inodeNum ≠ inodeNumUnused)
    (run : (inodeFree ip).Runs state result final) :
    LeavesDisk base opened held state final := by
  obtain ⟨live', quiet⟩ := live.free used run
  obtain ⟨rfl, _⟩ := inodeFree_runs run
  exact ⟨live', quiet, rfl⟩

/-- A slot that is locked is filled and keeps its number. -/
theorem locked_slot
    {state final : State} {ip : Slot} {result : Unit}
    (run : (inodeLock ip).Runs state result final) :
    (final.icache ip).inodeNum = (state.icache ip).inodeNum ∧
      (final.icache ip).valid = true := by
  obtain ⟨_, _, rfl⟩ := inodeLock_runs run
  rw [State.setInode_icache, Function.update_self]
  exact ⟨rfl, rfl⟩

/-! ## Changes of a file -/

/-- A change of an inode that is no directory leaves the directories alone. -/
theorem DirTree.changesFile
    {opened : Slot → Nat} {state final : State} {node : UInt16}
    (tree : DirTree state) (sound : Sound state) (sound' : Sound final)
    (frame : Frame opened (· = node) state final)
    (set : bitAt state.inodeBitmap node.toNat = true)
    (notDir : (state.dinodeAt node).type ≠ ftDir)
    (type : (final.dinodeAt node).type = (state.dinodeAt node).type)
    (nlink : (final.dinodeAt node).nlink = (state.dinodeAt node).nlink) :
    DirTree final := by
  have isFile : ¬state.IsDir node := fun isDir => notDir isDir.2.1
  have isFile' : ¬final.IsDir node := fun isDir =>
    notDir (type.symm.trans isDir.2.1)
  have sameNode : ∀ inodeNum, SameNode state final inodeNum := by
    intro inodeNum
    by_cases same : inodeNum = node
    · subst same
      refine ⟨iff_of_false isFile' isFile, ?_, fun entry => ?_⟩
      · simp only [State.directories, nlink]
      · simp only [State.directories, if_neg isFile, if_neg isFile']
    · exact frame.sameNode tree sound sound' same
  have sameDirs : final.directories = state.directories :=
    Directories.ext
      (funext fun inodeNum => funext fun entry =>
        (sameNode inodeNum).entries entry)
      (funext fun inodeNum => propext (sameNode inodeNum).isDir)
      (funext fun inodeNum => (sameNode inodeNum).links)
  refine tree.of_frame frame ?_ ?_ ?_
  · rw [sameDirs]
    exact tree.consistent
  · rintro inodeNum rfl isDir
    exact absurd isDir isFile'
  · rintro inodeNum rfl
    exact frame.bits _ set

/-! ## References of callers -/

section Returned

variable {base : UInt16 → Nat} {opened : Slot → Nat} {held : List Slot}
  {state : State} {ip : Slot}

/-- Moving a reference to an inode between a call and its caller. -/
theorem References.rebase
    {base' : UInt16 → Nat} {held' : List Slot}
    (references : References base opened held state)
    (used : (state.icache ip).inodeNum ≠ inodeNumUnused)
    (others : ∀ inodeNum, inodeNum ≠ (state.icache ip).inodeNum →
      base' inodeNum = base inodeNum)
    (otherSlots : ∀ other, other ≠ ip → held'.count other = held.count other)
    (moved : base' (state.icache ip).inodeNum + held'.count ip =
      base (state.icache ip).inodeNum + held.count ip)
    (bound : base' (state.icache ip).inodeNum < 2 ^ 31) :
    References base' opened held' state := by
  refine ⟨references.unique, fun other => ?_, fun inodeNum returned => ?_, ?_,
    fun inodeNum => ?_, references.openedBound⟩
  · by_cases same : other = ip
    · subst same
      have counted := references.counted other
      omega
    · have differs : (state.icache other).inodeNum ≠
          (state.icache ip).inodeNum := fun equal =>
        same (references.unique ip other used equal.symm).symm
      rw [others _ differs, otherSlots other same]
      exact references.counted other
  · by_cases same : inodeNum = (state.icache ip).inodeNum
    · exact ⟨ip, same.symm⟩
    · rw [others _ same] at returned
      exact references.cached inodeNum returned
  · rw [others _ (Ne.symm used)]
    exact references.unusedBase
  · by_cases same : inodeNum = (state.icache ip).inodeNum
    · rw [same]
      exact bound
    · rw [others _ same]
      exact references.baseBound inodeNum

/-- A caller receives the reference to a new inode. -/
theorem References.receive
    (references : References base opened (ip :: held) state)
    (used : (state.icache ip).inodeNum ≠ inodeNumUnused)
    (new : base (state.icache ip).inodeNum = 0) :
    References (Function.update base (state.icache ip).inodeNum
      (base (state.icache ip).inodeNum + 1)) opened held state := by
  refine references.rebase used
    (fun inodeNum differs => Function.update_of_ne differs _ _)
    (fun other differs => (List.count_cons_of_ne (Ne.symm differs)).symm)
    ?_ ?_
  · rw [Function.update_self, List.count_cons_self]
    omega
  · rw [Function.update_self, new]
    decide

/-- A caller hands its reference to a call. -/
theorem References.handOver
    (references : References base opened held state)
    (returned : base (state.icache ip).inodeNum ≠ 0) :
    References (Function.update base (state.icache ip).inodeNum
      (base (state.icache ip).inodeNum - 1)) opened (ip :: held) state := by
  have used : (state.icache ip).inodeNum ≠ inodeNumUnused := by
    intro unused
    rw [unused] at returned
    exact returned references.unusedBase
  have bound := references.baseBound (state.icache ip).inodeNum
  refine references.rebase used
    (fun inodeNum differs => Function.update_of_ne differs _ _)
    (fun other differs => List.count_cons_of_ne (Ne.symm differs)) ?_ ?_
  · rw [Function.update_self, List.count_cons_self]
    omega
  · rw [Function.update_self]
    omega

end Returned

/-! ## The invariant -/

/-- An open file has an inode, which is no directory if the file is read and
written by its bytes. -/
structure FileFits (state : State) (file : File) : Prop where
  unused : file.type = .unused → file.ref = 0
  used : ∀ ip, OpensSlot ip file →
    (state.icache ip).inodeNum ≠ inodeNumUnused
  notDir : ∀ ip, OpensSlot ip file → file.type = .file →
    (state.dinodeAt (state.icache ip).inodeNum).type ≠ ftDir

/-- The blocks are sound, the directories are a tree, and the open files have
inodes. -/
structure Orderly (base : UInt16 → Nat) (held : List Slot)
    (kernel : Kernel) : Prop where
  live : Live base (openCount kernel) held kernel.fs
  tree : DirTree kernel.fs
  files : ∀ index, FileFits kernel.fs (kernel.ftable index)

namespace Orderly

variable {base base' : UInt16 → Nat} {held held' : List Slot}
  {kernel : Kernel} {fs : State} {index : FileIndex} {file : File}
  {changed : UInt16 → Prop}

theorem openCount_ne_zero
    {ip : Slot} (opens : OpensSlot ip (kernel.ftable index)) :
    openCount kernel ip ≠ 0 :=
  Nat.pos_iff_ne_zero.mp ((countEntries_pos _ _).mpr ⟨index, opens⟩)

/-- The file system changes some inodes. -/
theorem setFs
    (orderly : Orderly base held kernel)
    (live : Live base' (openCount kernel) held' fs) (tree : DirTree fs)
    (frame : Frame (openCount kernel) changed kernel.fs fs)
    (types : ∀ inodeNum : UInt16, inodeNum.toNat < maxInodes →
      changed inodeNum → OpenInode (openCount kernel) kernel.fs inodeNum →
      (kernel.fs.dinodeAt inodeNum).type ≠ ftDir →
      (fs.dinodeAt inodeNum).type ≠ ftDir) :
    Orderly base' held' (kernel.setFs fs) := by
  refine ⟨live, tree, fun index => ⟨(orderly.files index).unused,
    fun ip opens => ?_, fun ip opens isFile => ?_⟩⟩
  · rw [Kernel.setFs_fs, frame.sameOpen ip (openCount_ne_zero opens)]
    exact (orderly.files index).used ip opens
  · have isOpen := openCount_ne_zero opens
    have notDir := (orderly.files index).notDir ip opens isFile
    have small := orderly.live.small ((orderly.files index).used ip opens)
    rw [Kernel.setFs_fs, frame.sameOpen ip isOpen]
    by_cases isChanged : changed (kernel.fs.icache ip).inodeNum
    · exact types _ small isChanged ⟨ip, isOpen, rfl⟩ notDir
    · rw [(frame.kept _ small isChanged).stored]
      exact notDir

/-- The disk stays as it is. -/
theorem leaves
    (orderly : Orderly base held kernel)
    (leaves : LeavesDisk base (openCount kernel) held' kernel.fs fs) :
    Orderly base held' (kernel.setFs fs) :=
  orderly.setFs leaves.live (leaves.tree orderly.tree) leaves.quiet
    fun _ _ none => none.elim

/-- A file is opened or closed, or its offset or number of references
changes. -/
theorem setFile
    (orderly : Orderly base held kernel)
    (moved : ∀ ip,
      (if OpensSlot ip file then 1 else 0) + held'.count ip =
        (if OpensSlot ip (kernel.ftable index) then 1 else 0) +
          held.count ip)
    (fits : FileFits kernel.fs file) :
    Orderly base held' (kernel.setFile index file) := by
  have references : References base (openCount (kernel.setFile index file))
      held' kernel.fs := by
    refine orderly.live.references.reassign (fun ip => ?_) (openCount_le _)
    have count := openCount_setFile kernel index file ip
    have same := moved ip
    omega
  refine ⟨⟨orderly.live.sound, references, orderly.live.cached,
    orderly.live.idle⟩, orderly.tree, fun other => ?_⟩
  by_cases same : other = index
  · rw [Kernel.setFile_ftable, same, Function.update_self]
    exact fits
  · rw [Kernel.setFile_ftable, Function.update_of_ne same]
    exact orderly.files other

/-- A file keeps its kind and inode. -/
theorem setSameFile
    (orderly : Orderly base held kernel)
    (sameType : file.type = (kernel.ftable index).type)
    (sameIp : file.ip = (kernel.ftable index).ip)
    (unused : file.type = .unused → file.ref = 0) :
    Orderly base held (kernel.setFile index file) := by
  have sameOpens : ∀ ip, OpensSlot ip file ↔
      OpensSlot ip (kernel.ftable index) := by
    intro ip
    unfold OpensSlot
    rw [sameType, sameIp]
  refine orderly.setFile (fun ip => ?_) ⟨unused, fun ip opens => ?_,
    fun ip opens isFile => ?_⟩
  · simp only [sameOpens]
  · exact (orderly.files index).used ip ((sameOpens ip).mp opens)
  · exact (orderly.files index).notDir ip ((sameOpens ip).mp opens)
      (sameType.symm.trans isFile)

/-! ## Paths -/

theorem lookups
    {path : CString} {result : Option Slot}
    (orderly : Orderly base [] kernel)
    (run : (pathToInode path).Runs kernel.fs result fs) :
    Orderly base result.toList (kernel.setFs fs) ∧
      ∀ ip ∈ result, (fs.icache ip).inodeNum ≠ inodeNumUnused := by
  simp only [pathToInode, Program.runs_bind, Program.runs_pure] at run
  obtain ⟨found, _, search, rfl, rfl⟩ := run
  have walks := searchInode_walks orderly.tree orderly.live (by decide) search
  cases found with
  | none => exact ⟨orderly.leaves walks.leavesDisk, by simp⟩
  | some found =>
      obtain ⟨ip, name⟩ := found
      refine ⟨orderly.leaves walks.leavesDisk, ?_⟩
      rintro _ ⟨⟩
      exact (walks.found orderly.tree).2

/-- An inode whose bit is clear has no slot. -/
theorem not_cached_of_first
    {node : UInt16} (orderly : Orderly base held kernel)
    (first : firstClear kernel.fs.inodeBitmap = some node.toNat)
    (used : node ≠ inodeNumUnused) (ip : Slot) :
    (kernel.fs.icache ip).inodeNum ≠ node := by
  rintro rfl
  have set := orderly.live.cached ip used
  rw [(firstClear_eq_some first).2.1] at set
  cases set

/-- A directory and a new inode, which are the ones that a creation changes,
are no open file. -/
theorem created
    {path : CString} {name : CString} {dir node : UInt16}
    (orderly : Orderly base [] kernel)
    (live : Live base (openCount kernel) held fs) (tree : DirTree fs)
    (leads : kernel.fs.search path true = some (dir, name))
    (first : firstClear kernel.fs.inodeBitmap = some node.toNat)
    (used : node ≠ inodeNumUnused)
    (frame : Frame (openCount kernel) (fun inodeNum => inodeNum = dir ∨
      inodeNum = node) kernel.fs fs) :
    Orderly base held (kernel.setFs fs) := by
  refine orderly.setFs live tree frame fun inodeNum _ isChanged isOpen
    notDir => ?_
  obtain ⟨-, isDir⟩ := orderly.tree.search_linked leads
  obtain ⟨⟨_, type, _⟩, _⟩ := isDir rfl
  rcases isChanged with rfl | rfl
  · exact absurd type notDir
  · obtain ⟨ip, _, number⟩ := isOpen
    exact absurd number (orderly.not_cached_of_first first used ip)

/-- What a call that creates an inode leaves behind. -/
theorem creates
    {path : CString} {type major minor : UInt16} {result : Option Slot}
    (orderly : Orderly base [] kernel)
    (fits : CreateFits kernel.fs path type)
    (run : (pathCreateInode path type major minor).Runs kernel.fs result
      fs) :
    Orderly base result.toList (kernel.setFs fs) ∧
      ∀ ip ∈ result, (fs.icache ip).inodeNum ≠ inodeNumUnused ∧
        base (fs.icache ip).inodeNum = 0 := by
  cases result with
  | none =>
      refine ⟨orderly.leaves ?_, by simp⟩
      exact orderly.live.createFails orderly.tree (by decide) run
  | some ip =>
      obtain ⟨number, block⟩ : InodeFits kernel.fs ∧
          (type = ftDir → DirBlockFits kernel.fs path) := by
        rcases fits with refused | fits
        · cases pathCreateInode_none refused run
        · exact fits
      have unused : ∀ node : UInt16,
          firstClear kernel.fs.inodeBitmap = some node.toNat →
          node ≠ inodeNumUnused ∧ base node = 0 := by
        intro node first
        have used : node ≠ inodeNumUnused :=
          ne_unused_of_small (number _ first)
        refine ⟨used, Decidable.byContradiction fun returned => ?_⟩
        obtain ⟨ip, cached⟩ := orderly.live.references.cached node returned
        exact orderly.not_cached_of_first first used ip cached
      by_cases isDir : type = ftDir
      · subst isDir
        obtain ⟨dir, node, taken, makes⟩ :=
          orderly.live.createsDir orderly.tree (by decide) number run
        obtain ⟨name, leads⟩ := makes.leads
        obtain ⟨_, _, slot⟩ := makes.slot
        obtain ⟨used, new⟩ := unused node makes.first
        have own := block rfl dir name taken.toNat node leads makes.next
          makes.first
        refine ⟨orderly.created makes.live (makes.tree own) leads makes.first
          used makes.frame, ?_⟩
        rintro _ ⟨⟩
        rw [slot]
        exact ⟨used, new⟩
      · obtain ⟨dir, node, makes⟩ :=
          orderly.live.createsFile orderly.tree (by decide) number isDir run
        obtain ⟨name, leads⟩ := makes.leads
        obtain ⟨_, slot⟩ := makes.slot
        obtain ⟨used, new⟩ := unused node makes.first
        refine ⟨orderly.created makes.live makes.tree leads makes.first used
          makes.frame, ?_⟩
        rintro _ ⟨⟩
        rw [slot]
        exact ⟨used, new⟩

/-! ## Open files -/

theorem opensInode
    {path : CString} {openMode : UInt32} {result : Option Slot}
    (orderly : Orderly base [] kernel)
    (fits : openMode &&& modeCreate ≠ 0 → CreateFits kernel.fs path ftFile)
    (run : (openInode path openMode).Runs kernel.fs result fs) :
    Orderly base result.toList (kernel.setFs fs) ∧
      ∀ ip ∈ result, (fs.icache ip).inodeNum ≠ inodeNumUnused := by
  unfold openInode at run
  split at run
  · next create =>
    obtain ⟨orderly', new⟩ := orderly.creates (fits create) run
    exact ⟨orderly', fun ip found => (new ip found).1⟩
  · exact orderly.lookups run

/-- A file that is opened for an inode fits it. -/
theorem opensFile
    {ip : Slot} (orderly : Orderly base [ip] kernel)
    (used : (kernel.fs.icache ip).inodeNum ≠ inodeNumUnused)
    (unused : (kernel.ftable index).type = .unused) {type : UInt16}
    (sameType : type = (kernel.fs.dinodeAt (kernel.fs.icache ip).inodeNum).type)
    (opens : file.type = fdTypeOf type) (onSlot : file.ip = some ip) :
    Orderly base [] (kernel.setFile index file) := by
  have fileUsed : file.type ≠ .unused := by
    rw [opens]
    exact fdTypeOf_ne_unused _
  have theSlot : ∀ other, OpensSlot other file → other = ip :=
    fun other isOpen => Option.some.inj (isOpen.2.symm.trans onSlot)
  refine orderly.setFile (openCount_opened unused fileUsed onSlot)
    ⟨fun fileUnused => absurd fileUnused fileUsed, fun other isOpen => ?_,
      fun other isOpen isFile => ?_⟩
  · rw [theSlot other isOpen]
    exact used
  · rw [theSlot other isOpen, ← sameType]
    rintro rfl
    rw [opens] at isFile
    cases isFile

theorem fileOpen
    {path : CString} {openMode : UInt32} {result : Option FileIndex}
    {after : Kernel} (orderly : Orderly base [] kernel)
    (fits : openMode &&& modeCreate ≠ 0 → CreateFits kernel.fs path ftFile)
    (run : (fileOpen path openMode).Runs kernel result after) :
    Orderly base [] after := by
  rcases fileOpen_runs run with ⟨fs, opened, _, rfl⟩ |
    ⟨ip, fs₁, fs₂, opened, lock, rest⟩
  · exact (orderly.opensInode fits opened).1
  · obtain ⟨found, used⟩ := orderly.opensInode fits opened
    have used := used ip rfl
    have locks := found.live.locks used lock
    have locked : Orderly base [ip] (kernel.setFs fs₂) := found.leaves locks
    obtain ⟨number, valid⟩ := locked_slot lock
    have usedLocked : (fs₂.icache ip).inodeNum ≠ inodeNumUnused := by
      rw [number]
      exact used
    rcases rest with ⟨fs₃, free, _, rfl⟩ |
      ⟨fs₃, index, unlock, _, unused, rfl⟩
    · exact locked.leaves (locked.live.unlocksFree usedLocked free)
    · have unlocks := locked.live.unlocks usedLocked unlock
      have unlocked : Orderly base [ip] (kernel.setFs fs₃) :=
        locked.leaves unlocks
      obtain ⟨_, rfl⟩ := inodeUnlock_runs unlock
      refine unlocked.opensFile ?_ unused ?_ rfl rfl
      · rw [Kernel.setFs_fs, State.setInode_icache, Function.update_self]
        exact usedLocked
      · rw [Kernel.setFs_fs, State.setInode_icache, Function.update_self]
        exact locked.live.sound.slot_type usedLocked valid

theorem fileClose
    {result : Unit} {after : Kernel} (orderly : Orderly base [] kernel)
    (run : (fileClose index).Runs kernel result after) :
    Orderly base [] after := by
  obtain ⟨referenced, fs, rfl, closes⟩ := fileClose_runs run
  have used : (kernel.ftable index).type ≠ .unused :=
    fun unused => referenced ((orderly.files index).unused unused)
  unfold ClosesTo at closes
  unfold File.closed
  have closedFits : ∀ state, FileFits state
      ⟨.unused, false, false, 0, (kernel.ftable index).major, 0, none⟩ :=
    fun _ => ⟨fun _ => rfl, fun _ opens => absurd rfl opens.1,
      fun _ opens => absurd rfl opens.1⟩
  split at closes
  · next last =>
    rw [if_pos last]
    split at closes
    · next ip found =>
      have handed : Orderly base [ip] (kernel.setFile index
          ⟨.unused, false, false, 0, (kernel.ftable index).major, 0,
            none⟩) :=
        orderly.setFile (openCount_closed used found rfl) (closedFits _)
      have usedIp := (orderly.files index).used ip ⟨used, found⟩
      exact handed.leaves (handed.live.frees usedIp closes)
    · next absent =>
      obtain rfl := closes
      refine orderly.setFile (fun other => ?_) (closedFits _)
      have before : ¬OpensSlot other (kernel.ftable index) := by
        intro opens
        cases opens.2.symm.trans absent
      rw [if_neg (fun opens => opens.1 rfl), if_neg before]
  · next more =>
    obtain rfl := closes
    rw [if_neg more]
    exact orderly.setSameFile rfl rfl fun unused => absurd unused used

theorem fileDup
    {result : Unit} {after : Kernel} (orderly : Orderly base held kernel)
    (run : (fileDup index).Runs kernel result after) :
    Orderly base held after := by
  obtain ⟨referenced, rfl⟩ := fileDup_runs run
  refine orderly.setSameFile rfl rfl fun unused => ?_
  have unused : (kernel.ftable index).type = .unused := unused
  rw [(orderly.files index).unused unused] at referenced
  exact absurd referenced (by decide)

/-- A call that locks the inode of a file, and does something to it that
leaves the directories alone. -/
theorem locksInode
    {ip : Slot} {locked moved unlocked : State} {result result' : Unit}
    (orderly : Orderly base held kernel)
    (opens : OpensSlot ip (kernel.ftable index))
    (lock : (inodeLock ip).Runs kernel.fs result locked)
    (moves : Orderly base held (kernel.setFs locked) →
      (locked.icache ip).inodeNum ≠ inodeNumUnused →
      (locked.icache ip).valid = true →
      Orderly base held (kernel.setFs moved) ∧
        (moved.icache ip).inodeNum = (locked.icache ip).inodeNum)
    (unlock : (inodeUnlock ip).Runs moved result' unlocked) :
    Orderly base held (kernel.setFs unlocked) := by
  have used := (orderly.files index).used ip opens
  obtain ⟨number, valid⟩ := locked_slot lock
  have locks := orderly.live.locks used lock
  have usedLocked : (locked.icache ip).inodeNum ≠ inodeNumUnused := by
    rw [number]
    exact used
  obtain ⟨orderly', sameNumber⟩ := moves (orderly.leaves locks) usedLocked
    valid
  refine orderly'.leaves (orderly'.live.unlocks ?_ unlock)
  rw [Kernel.setFs_fs, sameNumber]
  exact usedLocked

/-- The inode of a file that is no directory changes. -/
theorem changesFile
    {ip : Slot} (orderly : Orderly base held kernel)
    (used : (kernel.fs.icache ip).inodeNum ≠ inodeNumUnused)
    (notDir : (kernel.fs.dinodeAt (kernel.fs.icache ip).inodeNum).type ≠
      ftDir)
    (live : Live base (openCount kernel) held fs)
    (frame : Frame (openCount kernel) (ChangesSlot kernel.fs ip) kernel.fs fs)
    (type : (fs.dinodeAt (kernel.fs.icache ip).inodeNum).type =
      (kernel.fs.dinodeAt (kernel.fs.icache ip).inodeNum).type)
    (nlink : (fs.dinodeAt (kernel.fs.icache ip).inodeNum).nlink =
      (kernel.fs.dinodeAt (kernel.fs.icache ip).inodeNum).nlink) :
    Orderly base held (kernel.setFs fs) := by
  have set := orderly.live.cached ip used
  refine orderly.setFs live (orderly.tree.changesFile orderly.live.sound
    live.sound frame set notDir type nlink) frame ?_
  rintro inodeNum _ rfl _ _
  rw [type]
  exact notDir

/-- The bytes of a file are read or written. -/
theorem transfers
    {ip : Slot} (orderly : Orderly base held kernel)
    (used : (kernel.fs.icache ip).inodeNum ≠ inodeNumUnused)
    (notDir : (kernel.fs.dinodeAt (kernel.fs.icache ip).inodeNum).type ≠
      ftDir)
    (moved : Transferred kernel.fs fs ip) :
    Orderly base held (kernel.setFs fs) := by
  obtain ⟨live, frame⟩ := orderly.live.transferred moved
  have table : SameTable kernel.fs fs := fun index low high =>
    moved.table index (by omega) high
  have stored := table.dinodeAt (orderly.live.small used)
  exact orderly.changesFile used notDir live frame (by rw [stored])
    (by rw [stored])

/-- The size of a file changes. -/
theorem storesSize
    {ip : Slot} {size : UInt32} (orderly : Orderly base held kernel)
    (used : (kernel.fs.icache ip).inodeNum ≠ inodeNumUnused)
    (valid : (kernel.fs.icache ip).valid = true)
    (notDir : (kernel.fs.dinodeAt (kernel.fs.icache ip).inodeNum).type ≠
      ftDir) :
    Orderly base held (kernel.setFs (kernel.fs.storeData ip
      ((kernel.fs.icache ip).data.setSize size))) := by
  have fewer : ∀ k, ((kernel.fs.icache ip).data.setSize size).addrs k =
      (kernel.fs.icache ip).data.addrs k ∨
        ((kernel.fs.icache ip).data.setSize size).addrs k = 0 :=
    fun _ => Or.inl rfl
  obtain ⟨live, frame⟩ := orderly.live.store used valid fewer
  have backs := orderly.live.sound.backed ip used valid
  have stored : (kernel.fs.storeData ip ((kernel.fs.icache ip).data.setSize
      size)).dinodeAt (kernel.fs.icache ip).inodeNum =
        (kernel.fs.icache ip).data.setSize size :=
    dinodeAt_storeDinode_self _ _
  exact orderly.changesFile used notDir live frame
    (by rw [stored]; exact backs.type.symm)
    (by rw [stored]; exact backs.nlink.symm)

theorem fileStat
    {result : Option Inode} {after : Kernel}
    (orderly : Orderly base held kernel)
    (run : (fileStat index).Runs kernel result after) :
    Orderly base held after := by
  simp only [Fs.fileStat, Program.runs_bind, runs_getFile] at run
  obtain ⟨_, _, ⟨rfl, rfl⟩, run⟩ := run
  split at run
  · next fileOrDir =>
    simp only [Program.runs_bind, runs_fileIp, runs_onFs, runs_getInode,
      Program.runs_pure] at run
    obtain ⟨ip, _, ⟨found, rfl⟩, _, _, ⟨locked, lock, rfl⟩, _, _,
      ⟨_, ⟨rfl, rfl⟩, rfl⟩, _, _, ⟨unlocked, unlock, rfl⟩, _, rfl⟩ := run
    have used : (kernel.ftable index).type ≠ .unused := by
      rintro unused
      rw [unused] at fileOrDir
      rcases fileOrDir with absurd | absurd <;> cases absurd
    exact orderly.locksInode ⟨used, found⟩ lock
      (fun orderly' _ _ => ⟨orderly', rfl⟩) unlock
  · simp only [Program.runs_pure] at run
    obtain ⟨-, rfl⟩ := run
    exact orderly

theorem fileLseek
    {offset flags : UInt32} {result : Option UInt32} {after : Kernel}
    (orderly : Orderly base held kernel)
    (run : (fileLseek index offset flags).Runs kernel result after) :
    Orderly base held after := by
  simp only [Fs.fileLseek, Program.runs_bind, runs_getFile] at run
  obtain ⟨_, _, ⟨rfl, rfl⟩, run⟩ := run
  split at run
  · simp only [Program.runs_pure] at run
    obtain ⟨-, rfl⟩ := run
    exact orderly
  · next isFile =>
    split at run
    · simp only [Program.runs_bind, runs_modifyFile,
        Program.runs_pure] at run
      obtain ⟨_, _, rfl, _, rfl⟩ := run
      exact orderly.setSameFile rfl rfl (orderly.files index).unused
    · simp only [Program.runs_pure] at run
      obtain ⟨-, rfl⟩ := run
      exact orderly

theorem advance
    {count : UInt32} (orderly : Orderly base held kernel) :
    Orderly base held (kernel.setFile index ⟨(kernel.ftable index).type,
      (kernel.ftable index).readable, (kernel.ftable index).writable,
      (kernel.ftable index).ref, (kernel.ftable index).major,
      (kernel.ftable index).offset + count, (kernel.ftable index).ip⟩) :=
  orderly.setSameFile rfl rfl (orderly.files index).unused

/-- The type of the inode of a file that is locked. -/
theorem locked_notDir
    {ip : Slot} {locked : State} {result : Unit}
    (orderly : Orderly base held kernel)
    (opens : OpensSlot ip (kernel.ftable index))
    (isFile : (kernel.ftable index).type = .file)
    (lock : (inodeLock ip).Runs kernel.fs result locked) :
    (locked.dinodeAt (locked.icache ip).inodeNum).type ≠ ftDir := by
  obtain ⟨number, _⟩ := locked_slot lock
  obtain ⟨_, _, rfl⟩ := inodeLock_runs lock
  rw [number]
  exact (orderly.files index).notDir ip opens isFile

theorem fileRead
    {len result : UInt32} {after : Kernel}
    (orderly : Orderly base held kernel)
    (fits : (kernel.ftable index).type = .file →
      ReadFits kernel.fs (kernel.ftable index) len)
    (run : (fileRead index len).Runs kernel result after) :
    Orderly base held after := by
  simp only [Fs.fileRead, Program.runs_bind, runs_getFile] at run
  obtain ⟨_, _, ⟨rfl, rfl⟩, run⟩ := run
  split at run
  · rw [Program.runs_pure] at run
    rw [← run.2]
    exact orderly
  · split at run
    · next isDir =>
      simp only [Program.runs_bind, runs_fileIp, runs_onFs,
        Program.runs_pure] at run
      obtain ⟨ip, _, ⟨found, rfl⟩, _, _, ⟨locked, lock, rfl⟩, _, _,
        ⟨_, entries, rfl⟩, _, _, ⟨unlocked, unlock, rfl⟩, _, rfl⟩ := run
      obtain ⟨rfl, _⟩ := dirGetEntries_runs entries
      have opens : OpensSlot ip (kernel.ftable index) :=
        ⟨by rw [isDir]; decide, found⟩
      exact orderly.locksInode opens lock (fun orderly' _ _ =>
        ⟨orderly', rfl⟩) unlock
    · next isFile =>
      simp only [Program.runs_bind, runs_fileIp, runs_onFs, runs_advance,
        Program.runs_pure] at run
      obtain ⟨ip, _, ⟨found, rfl⟩, _, _, ⟨locked, lock, rfl⟩, _, _,
        ⟨moved, read, rfl⟩, _, _, rfl, _, _, ⟨unlocked, unlock, rfl⟩, _,
        rfl⟩ := run
      have opens : OpensSlot ip (kernel.ftable index) :=
        ⟨by rw [isFile]; decide, found⟩
      have unlocks : Orderly base held (kernel.setFs unlocked) := by
        refine orderly.locksInode opens lock (fun orderly' used valid => ?_)
          unlock
        have moves : Transferred locked moved ip :=
          inodeReadData_transferred orderly'.live.sound used valid
            (fits isFile ip locked found lock) read
        exact ⟨orderly'.transfers used
          (orderly.locked_notDir opens isFile lock) moves, moves.inodeNum⟩
      exact unlocks.advance
    all_goals
      rw [Program.runs_pure] at run
      rw [← run.2]
      exact orderly

theorem fileWrite
    {len result : UInt32} {src : Bytes} {after : Kernel}
    (orderly : Orderly base held kernel)
    (fits : (kernel.ftable index).type = .file →
      WriteFits kernel.fs (kernel.ftable index) len)
    (run : (fileWrite index len src).Runs kernel result after) :
    Orderly base held after := by
  simp only [Fs.fileWrite, Program.runs_bind, runs_getFile] at run
  obtain ⟨_, _, ⟨rfl, rfl⟩, run⟩ := run
  split at run
  · rw [Program.runs_pure] at run
    rw [← run.2]
    exact orderly
  · split at run
    · next isFile =>
      simp only [Program.runs_bind, runs_fileIp, runs_onFs, runs_advance,
        Program.runs_pure] at run
      obtain ⟨ip, _, ⟨found, rfl⟩, _, _, ⟨locked, lock, rfl⟩, _, _,
        ⟨moved, write, rfl⟩, _, _, rfl, _, _, ⟨unlocked, unlock, rfl⟩, _,
        rfl⟩ := run
      have opens : OpensSlot ip (kernel.ftable index) :=
        ⟨by rw [isFile]; decide, found⟩
      have unlocks : Orderly base held (kernel.setFs unlocked) := by
        refine orderly.locksInode opens lock (fun orderly' used valid => ?_)
          unlock
        have notDir := orderly.locked_notDir opens isFile lock
        obtain ⟨middle, moves, rest⟩ := inodeWriteData_sound
          orderly'.live.sound used valid
          (fits isFile ip locked found lock) write
        have moved := orderly'.transfers used notDir moves
        rcases rest with rfl | ⟨size, rfl⟩
        · exact ⟨moved, moves.inodeNum⟩
        · have table : SameTable locked middle := fun place low high =>
            moves.table place (by omega) high
          have stored := table.dinodeAt (orderly'.live.small used)
          refine ⟨moved.storesSize ?_ ?_ ?_, ?_⟩
          · rw [Kernel.setFs_fs, moves.inodeNum]
            exact used
          · rw [Kernel.setFs_fs, moves.valid]
            exact valid
          · rw [Kernel.setFs_fs, moves.inodeNum, stored]
            exact notDir
          · change ((middle.storeData ip _).icache ip).inodeNum = _
            rw [storeData_icache_self]
            exact moves.inodeNum
      exact unlocks.advance
    all_goals
      rw [Program.runs_pure] at run
      rw [← run.2]
      exact orderly

/-! ## Links -/

theorem links
    {oldPath newPath : CString} {result : Bool}
    (orderly : Orderly base [] kernel)
    (run : (pathLink oldPath newPath).Runs kernel.fs result fs) :
    Orderly base [] (kernel.setFs fs) := by
  cases result with
  | false =>
      exact orderly.leaves (orderly.live.linkFails orderly.tree (by decide)
        run)
  | true =>
      obtain ⟨dir, node, makes⟩ :=
        orderly.live.linksNode orderly.tree (by decide) run
      obtain ⟨name, leads⟩ := makes.leads
      obtain ⟨⟨_, dirType, _⟩, _⟩ :=
        (orderly.tree.search_linked leads).2 rfl
      refine orderly.setFs makes.live makes.tree makes.frame fun inodeNum
        small isChanged isOpen notDir => ?_
      rcases isChanged with rfl | rfl
      · exact absurd dirType notDir
      · have stored := (orderly.live.sound.backs small).type
        have stored' := (makes.live.sound.backs small).type
        rw [stored', (makes.keeps isOpen).type, ← stored]
        exact notDir

theorem unlinks
    {path : CString} {result : Bool} (orderly : Orderly base [] kernel)
    (run : (pathUnlink path).Runs kernel.fs result fs) :
    Orderly base [] (kernel.setFs fs) := by
  cases result with
  | false =>
      exact orderly.leaves (orderly.live.unlinkFails orderly.tree (by decide)
        run)
  | true =>
      obtain ⟨dir, node, removes⟩ :=
        orderly.live.unlinksNode orderly.tree (by decide) run
      obtain ⟨name, leads, _⟩ := removes.leads
      obtain ⟨⟨_, dirType, _⟩, _⟩ :=
        (orderly.tree.search_linked leads).2 rfl
      refine orderly.setFs removes.live removes.tree removes.frame fun
        inodeNum _ isChanged _ notDir => ?_
      rcases isChanged with rfl | rfl
      · exact absurd dirType notDir
      · rw [removes.type]
        exact notDir

/-! ## Sequences of calls -/

theorem rebase
    (orderly : Orderly base held kernel)
    (references : References base' (openCount kernel) held' kernel.fs) :
    Orderly base' held' kernel :=
  ⟨⟨orderly.live.sound, references, orderly.live.cached, orderly.live.idle⟩,
    orderly.tree, orderly.files⟩

end Orderly

/-- The state of a session is orderly, and calls hold nothing. -/
def Session.Orderly (session : Session) : Prop :=
  Fs.Orderly session.returned [] session.kernel

/-- Careful calls keep the order. -/
theorem Session.Orderly.step
    {before after : Session} {call : FileCall} (orderly : before.Orderly)
    (careful : Careful before call) (taken : FileStep before call after) :
    after.Orderly := by
  cases taken with
  | «open» run => exact orderly.fileOpen careful run
  | close run => exact orderly.fileClose run
  | dup run => exact orderly.fileDup run
  | read run => exact orderly.fileRead careful run
  | write run => exact orderly.fileWrite careful run
  | lseek run => exact orderly.fileLseek run
  | stat run => exact orderly.fileStat run
  | @create _ _ _ _ result fs run =>
      obtain ⟨orderly', new⟩ := orderly.creates careful run
      cases result with
      | none => exact orderly'
      | some ip =>
          obtain ⟨used, new⟩ := new ip rfl
          exact orderly'.rebase (orderly'.live.references.receive used new)
  | @giveBack ip _ returned run =>
      have handed := orderly.rebase
        (orderly.live.references.handOver returned)
      have used : (before.kernel.fs.icache ip).inodeNum ≠ inodeNumUnused := by
        intro unused
        rw [unused] at returned
        exact returned orderly.live.references.unusedBase
      exact handed.leaves (handed.live.frees used run)
  | link run => exact orderly.links run
  | unlink run => exact orderly.unlinks run

theorem Session.Orderly.start (junk : Block) :
    Session.Orderly ⟨bootKernel junk, fun _ => 0⟩ :=
  ⟨live_bootKernel junk, dirTree_mkfsState junk, fun _ => ⟨fun _ => rfl,
    fun _ opens => absurd rfl opens.1, fun _ opens => absurd rfl opens.1⟩⟩

/-- Every state that careful calls reach is orderly. -/
theorem Session.Orderly.of_reachable
    {session : Session}
    (reachable : sessionSystem.ReachableBy Careful session) :
    session.Orderly := by
  refine reachable.invariant ?_ fun _ _ _ orderly careful taken =>
    orderly.step careful taken
  rintro ⟨kernel, returned⟩ ⟨rfl, junk, rfl⟩
  exact .start junk

end Fs
end WhuOs
