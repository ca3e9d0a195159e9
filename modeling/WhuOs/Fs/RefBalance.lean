import WhuOs.Fs.References
import WhuOs.Fs.View

/-!
# Balance of inode references

Over whole runs of system calls the references to the slot of an inode are
those the boot code left plus one for each open file on that slot.
-/

namespace WhuOs
namespace Fs

open Library
open Program (Runs Keeps Preserves)

variable {kernel after : Kernel}

/-- An entry of the file table in use for a slot of the inode cache. -/
def OpensSlot (ip : Slot) (file : File) : Prop :=
  file.type ≠ .unused ∧ file.ip = some ip

instance (ip : Slot) : DecidablePred (OpensSlot ip) :=
  fun _ => inferInstanceAs (Decidable (_ ∧ _))

/-- Number of entries of the file table in use whose inode is in a slot. -/
def openCount (kernel : Kernel) (ip : Slot) : Nat :=
  countEntries kernel.ftable (OpensSlot ip)

theorem openCount_setFile
    (kernel : Kernel) (index : FileIndex) (file : File) (ip : Slot) :
    openCount (kernel.setFile index file) ip +
        (if OpensSlot ip (kernel.ftable index) then 1 else 0) =
      openCount kernel ip + if OpensSlot ip file then 1 else 0 :=
  countEntries_update kernel.ftable (OpensSlot ip) index file

theorem openCount_le (kernel : Kernel) (ip : Slot) :
    openCount kernel ip ≤ nFile := by
  have bound := countEntries_le_card kernel.ftable (OpensSlot ip)
  rwa [Fintype.card_fin] at bound

/-- An open file takes over a reference of the call that opens it. -/
theorem openCount_opened
    {held : List Slot} {before file : File} {ip : Slot}
    (unused : before.type = .unused) (used : file.type ≠ .unused)
    (onSlot : file.ip = some ip) (other : Slot) :
    (if OpensSlot other file then 1 else 0) + held.count other =
      (if OpensSlot other before then 1 else 0) +
        (ip :: held).count other := by
  have notBefore : ¬OpensSlot other before := fun opens => opens.1 unused
  rw [if_neg notBefore]
  by_cases same : other = ip
  · subst same
    rw [if_pos ⟨used, onSlot⟩, List.count_cons_self]
    omega
  · have differs : ¬OpensSlot other file := by
      intro opens
      exact same (Option.some.inj (opens.2.symm.trans onSlot))
    rw [if_neg differs, List.count_cons_of_ne (Ne.symm same)]

/-- The reference of a file is handed to the call that closes it. -/
theorem openCount_closed
    {held : List Slot} {before file : File} {ip : Slot}
    (used : before.type ≠ .unused) (onSlot : before.ip = some ip)
    (unused : file.type = .unused) (other : Slot) :
    (if OpensSlot other file then 1 else 0) + (ip :: held).count other =
      (if OpensSlot other before then 1 else 0) + held.count other :=
  (openCount_opened unused used onSlot other).symm

/-- Moving references between open files and the running call. -/
theorem References.reassign
    {base : UInt16 → Nat} {opened opened' : Slot → Nat}
    {held held' : List Slot} {state : State}
    (references : References base opened held state)
    (moved : ∀ ip, opened' ip + held'.count ip = opened ip + held.count ip)
    (bound : ∀ ip, opened' ip ≤ nFile) :
    References base opened' held' state := by
  refine ⟨references.unique, fun ip => ?_, references.cached,
    references.unusedBase, references.baseBound, bound⟩
  have counted := references.counted ip
  have same := moved ip
  omega

/-- References are accounted for by the boot code, the open files and the
running call, and unused entries of the file table have no references. -/
structure Accounted (base : UInt16 → Nat) (held : List Slot)
    (kernel : Kernel) : Prop where
  references : References base (openCount kernel) held kernel.fs
  unused : ∀ index, (kernel.ftable index).type = .unused →
    (kernel.ftable index).ref = 0

namespace Accounted

variable {base : UInt16 → Nat} {held : List Slot}

/-- Changing the file system. -/
theorem setFs
    {held' : List Slot} {fs : State}
    (accounted : Accounted base held kernel)
    (references : References base (openCount kernel) held' fs) :
    Accounted base held' (kernel.setFs fs) :=
  ⟨references, accounted.unused⟩

/-- Changing an entry of the file table. -/
theorem setFile
    {held' : List Slot} {index : FileIndex} {file : File}
    (accounted : Accounted base held kernel)
    (moved : ∀ ip,
      (if OpensSlot ip file then 1 else 0) + held'.count ip =
        (if OpensSlot ip (kernel.ftable index) then 1 else 0) +
          held.count ip)
    (unused : file.type = .unused → file.ref = 0) :
    Accounted base held' (kernel.setFile index file) := by
  constructor
  · refine accounted.references.reassign (fun ip => ?_)
      (openCount_le _)
    have changed := openCount_setFile kernel index file ip
    have shift := moved ip
    omega
  · intro other
    by_cases same : other = index
    · subst same
      simpa using unused
    · simpa [same] using accounted.unused other

/-- Changing an entry without changing its kind and inode. -/
theorem setSameFile
    {index : FileIndex} {file : File}
    (accounted : Accounted base held kernel)
    (sameType : file.type = (kernel.ftable index).type)
    (sameIp : file.ip = (kernel.ftable index).ip)
    (unused : file.type = .unused → file.ref = 0) :
    Accounted base held (kernel.setFile index file) := by
  refine accounted.setFile (fun ip => ?_) unused
  have sameOpens : OpensSlot ip file ↔ OpensSlot ip (kernel.ftable index) := by
    unfold OpensSlot
    rw [sameType, sameIp]
  simp only [sameOpens]

/-- Opening a file passes a reference of the call to the file. -/
theorem opened
    {index : FileIndex} {file : File} {ip : Slot}
    (accounted : Accounted base (ip :: held) kernel)
    (unused : (kernel.ftable index).type = .unused)
    (used : file.type ≠ .unused) (onSlot : file.ip = some ip) :
    Accounted base held (kernel.setFile index file) := by
  exact accounted.setFile (openCount_opened unused used onSlot) fun isUnused =>
    absurd isUnused used

/-- A process table takes no part in the account. -/
theorem setProc
    {pid : Pid} {proc : Proc}
    (accounted : Accounted base held kernel) :
    Accounted base held (kernel.setProc pid proc) :=
  ⟨accounted.references, accounted.unused⟩

end Accounted

variable {base : UInt16 → Nat} {held : List Slot}

/-! ## Open files -/

/-- The last reference to a file gives its reference to the inode back. -/
theorem fileClose_preserves (index : FileIndex) :
    Preserves (Accounted base held) (fileClose index) := by
  intro kernel result after accounted run
  obtain ⟨referenced, fs, rfl, closes⟩ := fileClose_runs run
  have used : (kernel.ftable index).type ≠ .unused :=
    fun unused => referenced (accounted.unused index unused)
  unfold ClosesTo at closes
  unfold File.closed
  split at closes
  · next last =>
    rw [if_pos last]
    have cleared : ∀ ip, ¬OpensSlot ip
        ⟨.unused, false, false, 0, (kernel.ftable index).major, 0, none⟩ :=
      fun ip opens => opens.1 rfl
    split at closes
    · next ip found =>
      -- The entry's reference is handed to the call before it is given back.
      have handed : Accounted base (ip :: held) (kernel.setFile index
          ⟨.unused, false, false, 0, (kernel.ftable index).major, 0,
            none⟩) :=
        accounted.setFile (openCount_closed used found rfl) fun _ => rfl
      exact handed.setFs (handed.references.free closes)
    · next absent =>
      obtain rfl := closes
      refine accounted.setFile (fun other => ?_) fun _ => rfl
      have differs : ¬OpensSlot other (kernel.ftable index) := by
        intro opens
        cases opens.2.symm.trans absent
      rw [if_neg (cleared other), if_neg differs]
  · next more =>
    obtain rfl := closes
    rw [if_neg more]
    exact accounted.setSameFile rfl rfl fun unused => absurd unused used

theorem fileDup_preserves (index : FileIndex) :
    Preserves (Accounted base held) (fileDup index) := by
  intro kernel result after accounted run
  obtain ⟨referenced, rfl⟩ := fileDup_runs run
  refine accounted.setSameFile rfl rfl fun unused => ?_
  have unused : (kernel.ftable index).type = .unused := unused
  rw [accounted.unused index unused] at referenced
  exact absurd referenced (by decide)

/-- A file-system program that gives back what it takes. -/
theorem onFs_preserves
    {α : Type} {program : FsM α}
    (balanced : ∀ opened,
      Preserves (References base opened held) program) :
    Preserves (Accounted base held) (onFs program) := by
  intro kernel result after accounted run
  obtain ⟨fs, fsRun, rfl⟩ := runs_onFs.mp run
  exact accounted.setFs (balanced _ accounted.references fsRun)

/-- A file-system program that takes no reference. -/
theorem onFs_keepsRefs_preserves
    {α : Type} {program : FsM α} (keeps : Keeps State.refs program) :
    Preserves (Accounted base held) (onFs program) :=
  onFs_preserves fun _ _ _ _ references run => references.keepRefs keeps run

theorem onFs_keeps_preserves
    {α : Type} {program : FsM α} (keeps : Keeps State.slots program) :
    Preserves (Accounted base held) (onFs program) :=
  onFs_keepsRefs_preserves (keeps_refs keeps)

theorem openInode_references
    {path : CString} {openMode : UInt32} {result : Option Slot}
    {opened : Slot → Nat} {state final : State}
    (references : References base opened [] state)
    (run : (openInode path openMode).Runs state result final) :
    References base opened result.toList final := by
  have concluded : References base opened (result.toList ++ []) final := by
    unfold openInode at run
    split at run
    · exact pathCreateInode_references references (by decide) run
    · exact pathToInode_references references (by decide) run
  rwa [List.append_nil] at concluded

theorem fileOpen_preserves (path : CString) (openMode : UInt32) :
    Preserves (Accounted base []) (fileOpen path openMode) := by
  intro kernel result after accounted run
  rcases fileOpen_runs run with ⟨fs, opened, _, rfl⟩ |
    ⟨ip, fs₁, fs₂, opened, lock, ⟨fs, free, _, rfl⟩ |
      ⟨fs, index, unlock, _, unused, rfl⟩⟩
  · exact accounted.setFs (openInode_references accounted.references opened)
  · have locked := (openInode_references accounted.references opened).keepRefs
      (inodeLock_keeps_refs ip) lock
    exact accounted.setFs (locked.unlockFree free)
  · have locked := (openInode_references accounted.references opened).keepRefs
      (inodeLock_keeps_refs ip) lock
    have unlocked := locked.keepRefs (inodeUnlock_keeps_refs ip) unlock
    exact (accounted.setFs unlocked).opened unused (fdTypeOf_ne_unused _) rfl

theorem getFile_preserves (index : FileIndex) :
    Preserves (Accounted base held) (getFile index) :=
  .bind .get fun _ => .pure _

theorem fileIp_preserves (file : File) :
    Preserves (Accounted base held) (fileIp file) := by
  unfold fileIp
  split
  · exact .pure _
  · exact .panic _

/-- Changes of a file that leave its kind, references and inode alone. -/
theorem modifyFile_preserves
    {index : FileIndex} {change : File → File}
    (same : ∀ file, (change file).type = file.type ∧
      (change file).ref = file.ref ∧ (change file).ip = file.ip) :
    Preserves (Accounted base held) (modifyFile index change) := by
  refine .modify fun kernel accounted => ?_
  obtain ⟨type, ref, ip⟩ := same (kernel.ftable index)
  refine accounted.setSameFile type ip fun unused => ?_
  rw [ref]
  exact accounted.unused index (type.symm.trans unused)

theorem advance_preserves (index : FileIndex) (count : UInt32) :
    Preserves (Accounted base held) (advance index count) :=
  modifyFile_preserves fun _ => ⟨rfl, rfl, rfl⟩

theorem fileRead_preserves (index : FileIndex) (len : UInt32) :
    Preserves (Accounted base held) (fileRead index len) := by
  refine .bind (getFile_preserves index) fun file => .ite (.pure _) ?_
  split
  · exact .bind (fileIp_preserves file) fun ip =>
      .bind (onFs_keepsRefs_preserves (inodeLock_keeps_refs ip)) fun _ =>
      .bind (onFs_keeps_preserves (dirGetEntries_keeps_slots ip len)) fun _ =>
      .bind (onFs_keepsRefs_preserves (inodeUnlock_keeps_refs ip)) fun _ =>
      .pure _
  · exact .bind (fileIp_preserves file) fun ip =>
      .bind (onFs_keepsRefs_preserves (inodeLock_keeps_refs ip)) fun _ =>
      .bind (onFs_keeps_preserves (inodeReadData_keeps_slots ip _ _)) fun _ =>
      .bind (advance_preserves index _) fun _ =>
      .bind (onFs_keepsRefs_preserves (inodeUnlock_keeps_refs ip)) fun _ =>
      .pure _
  · exact .pure _
  · exact .pure _

theorem fileWrite_preserves (index : FileIndex) (len : UInt32) (src : Bytes) :
    Preserves (Accounted base held) (fileWrite index len src) := by
  refine .bind (getFile_preserves index) fun file => .ite (.pure _) ?_
  split
  · exact .bind (fileIp_preserves file) fun ip =>
      .bind (onFs_keepsRefs_preserves (inodeLock_keeps_refs ip)) fun _ =>
      .bind (onFs_keeps_preserves (inodeWriteData_keeps_slots ip _ _ _))
        fun _ =>
      .bind (advance_preserves index _) fun _ =>
      .bind (onFs_keepsRefs_preserves (inodeUnlock_keeps_refs ip)) fun _ =>
      .pure _
  · exact .pure _
  · exact .pure _
  · exact .pure _

theorem fileLseek_preserves (index : FileIndex) (offset flags : UInt32) :
    Preserves (Accounted base held) (fileLseek index offset flags) := by
  refine .bind (getFile_preserves index) fun file => .ite (.pure _) ?_
  simp only
  generalize (if flags = 0 then _ else _ : Option UInt32) = target
  cases target with
  | some target =>
      exact .bind (modifyFile_preserves fun _ => ⟨rfl, rfl, rfl⟩) fun _ =>
        .pure _
  | none => exact .pure _

theorem fileStat_preserves (index : FileIndex) :
    Preserves (Accounted base held) (fileStat index) :=
  .bind (getFile_preserves index) fun file => .ite
    (.bind (fileIp_preserves file) fun ip =>
      .bind (onFs_keepsRefs_preserves (inodeLock_keeps_refs ip)) fun _ =>
      .bind (onFs_keeps_preserves (getInode_keeps_slots ip)) fun _ =>
      .bind (onFs_keepsRefs_preserves (inodeUnlock_keeps_refs ip)) fun _ =>
      .pure _)
    (.pure _)

/-! ## Descriptors and processes -/

theorem argFd_preserves (pid : Pid) (fd : UInt32) :
    Preserves (Accounted base held) (argFd pid fd) := by
  intro kernel result after accounted run
  obtain ⟨rfl, _⟩ := argFd_runs run
  exact accounted

theorem setFd_preserves
    (pid : Pid) (fd : Fin filePerProc) (file : Option FileIndex) :
    Preserves (Accounted base held) (setFd pid fd file) :=
  .modify fun _ accounted => accounted.setProc

theorem fdAlloc_preserves (pid : Pid) (index : FileIndex) :
    Preserves (Accounted base held) (fdAlloc pid index) := by
  refine .bind .get fun kernel => ?_
  split
  · exact .bind (setFd_preserves _ _ _) fun _ => .pure _
  · exact .pure _

theorem withFd_preserves
    {α : Type} {pid : Pid} {fd : UInt32} {call : FileIndex → KernelM α}
    (each : ∀ index, Preserves (Accounted base held) (call index)) :
    Preserves (Accounted base held) (withFd pid fd call) := by
  refine .bind (argFd_preserves pid fd) fun arg => ?_
  split
  · exact .pure _
  · exact .bind (each _) fun _ => .pure _

theorem sysOpen_preserves (pid : Pid) (path : CString) (openMode : UInt32) :
    Preserves (Accounted base []) (sysOpen pid path openMode) := by
  refine .bind (fileOpen_preserves path openMode) fun opened => ?_
  split
  · exact .pure _
  · refine .bind (fdAlloc_preserves pid _) fun fd => ?_
    split
    · exact .bind (fileClose_preserves _) fun _ => .pure _
    · exact .pure _

theorem sysClose_preserves (pid : Pid) (fd : UInt32) :
    Preserves (Accounted base held) (sysClose pid fd) := by
  refine .bind (argFd_preserves pid fd) fun arg => ?_
  split
  · exact .pure _
  · exact .bind (setFd_preserves _ _ _) fun _ =>
      .bind (fileClose_preserves _) fun _ => .pure _

theorem sysDup_preserves (pid : Pid) (fd : UInt32) :
    Preserves (Accounted base held) (sysDup pid fd) := by
  refine .bind (argFd_preserves pid fd) fun arg => ?_
  split
  · exact .pure _
  · exact .bind (fdAlloc_preserves _ _) fun _ =>
      .bind (fileDup_preserves _) fun _ => .pure _

theorem sysGetdir_preserves (pid : Pid) (fd len : UInt32) :
    Preserves (Accounted base held) (sysGetdir pid fd len) := by
  refine withFd_preserves fun index =>
    .bind (getFile_preserves index) fun file => ?_
  split
  · exact .bind (onFs_keepsRefs_preserves (inodeLock_keeps_refs _)) fun _ =>
      .bind (onFs_keeps_preserves (dirGetEntries_keeps_slots _ _)) fun _ =>
      .bind (onFs_keepsRefs_preserves (inodeUnlock_keeps_refs _)) fun _ =>
      .pure _
  · exact .pure _

theorem procFree_preserves (pid : Pid) :
    Preserves (Accounted base held) (procFree pid) := by
  refine .bind (.modify fun _ accounted => accounted.setProc) fun _ =>
    .bind (.forM (fun fd => ?_) _) fun _ =>
    .modify fun _ accounted => accounted.setProc
  refine .bind .get fun kernel => ?_
  split
  · exact .bind (fileClose_preserves _) fun _ => setFd_preserves _ _ _
  · exact .pure _

theorem procAlloc_preserves (memory : Bool) :
    Preserves (Accounted base held) (procAlloc memory) := by
  refine .bind .get fun kernel => ?_
  split
  · exact .pure _
  · exact .bind (.modify fun _ accounted => accounted.setProc) fun _ =>
      .ite (.pure _) (.bind (procFree_preserves _) fun _ => .pure _)

theorem procFork_preserves (curr : Pid) (memory : Bool) :
    Preserves (Accounted base held) (procFork curr memory) := by
  refine .bind (procAlloc_preserves memory) fun allocated => ?_
  split
  · exact .pure _
  · refine .bind (.forM (fun fd => ?_) _) fun _ =>
      .bind (.modify fun _ accounted => accounted.setProc) fun _ => .pure _
    refine .bind .get fun kernel => ?_
    split
    · exact .bind (fileDup_preserves _) fun _ => setFd_preserves _ _ _
    · exact .pure _

theorem procExit_preserves (curr : Pid) :
    Preserves (Accounted base held) (procExit curr) :=
  .bind (.assert _ _) fun _ =>
    .bind (.modify fun _ accounted =>
      ⟨accounted.references, accounted.unused⟩) fun _ =>
    .modify fun _ accounted => accounted.setProc

theorem procWait_preserves (curr : Pid) :
    Preserves (Accounted base held) (procWait curr) := by
  refine .bind .get fun kernel => ?_
  split
  · exact .bind (procFree_preserves _) fun _ => .pure _
  · exact .ite (.pure _) (.pure _)

/-! ## Runs of system calls -/

/-- A process makes a directory only where nothing can be created. -/
def MkdirRefused (kernel : Kernel) (action : Pid × SysCall) : Prop :=
  match action.2 with
  | .mkdir path => CannotCreate kernel.fs path
  | _ => True

theorem ignoreResult_preserves
    {α : Type} {program : KernelM α}
    (preserves : Preserves (Accounted base held) program) :
    Preserves (Accounted base held) (ignoreResult program) :=
  .bind preserves fun _ => .pure _

/-- Every system call keeps the account, making no directory. -/
theorem Accounted.step
    {action : Pid × SysCall}
    (accounted : Accounted base [] kernel)
    (refused : MkdirRefused kernel action)
    (taken : CallStep kernel action after) :
    Accounted base [] after := by
  obtain ⟨pid, call⟩ := action
  obtain ⟨_, run⟩ := taken
  cases call with
  | «open» path openMode =>
      exact ignoreResult_preserves (sysOpen_preserves _ _ _) accounted run
  | close fd =>
      exact ignoreResult_preserves (sysClose_preserves _ _) accounted run
  | read fd len =>
      exact ignoreResult_preserves (withFd_preserves fun index =>
        fileRead_preserves index len) accounted run
  | write fd len src =>
      exact ignoreResult_preserves (withFd_preserves fun index =>
        fileWrite_preserves index len src) accounted run
  | lseek fd offset flags =>
      exact ignoreResult_preserves (withFd_preserves fun index =>
        fileLseek_preserves index offset flags) accounted run
  | dup fd =>
      exact ignoreResult_preserves (sysDup_preserves _ _) accounted run
  | fstat fd =>
      exact ignoreResult_preserves (withFd_preserves fun index =>
        fileStat_preserves index) accounted run
  | getdir fd len =>
      exact ignoreResult_preserves (sysGetdir_preserves _ _ _) accounted run
  | mkdir path =>
      simp only [SysCall.program, sysMkdir, runs_ignoreResult,
        Program.runs_bind, runs_onFs, Program.runs_pure] at run
      obtain ⟨_, created, _, ⟨fs, create, rfl⟩, _, rfl⟩ := run
      have references := pathCreateInode_references accounted.references
        (by decide) create
      obtain rfl := pathCreateInode_none refused create
      exact accounted.setFs references
  | chdir path =>
      exact ignoreResult_preserves (onFs_preserves
        fun _ _ _ _ references run => dirChange_references references
          (by decide) run) accounted run
  | link oldPath newPath =>
      exact ignoreResult_preserves (onFs_preserves
        fun _ _ _ _ references run => pathLink_references references
          (by decide) run) accounted run
  | unlink path =>
      exact ignoreResult_preserves (onFs_preserves
        fun _ _ _ _ references run => pathUnlink_references references
          (by decide) run) accounted run
  | fork memory =>
      exact ignoreResult_preserves (procFork_preserves _ _) accounted run
  | exit => exact procExit_preserves pid accounted run
  | wait =>
      exact ignoreResult_preserves (procWait_preserves _) accounted run

/-- The references to the slot of an inode. -/
def refOf (state : State) (inodeNum : UInt16) : Nat :=
  (slotOf state inodeNum).elim 0 fun ip => (state.icache ip).ref.toNat

/-- The files that are open on the slot of an inode. -/
def openOf (kernel : Kernel) (inodeNum : UInt16) : Nat :=
  (slotOf kernel.fs inodeNum).elim 0 (openCount kernel)

/-- What the boot code leaves: no open files, at most one slot for an inode, no
references to slots without an inode, and few references to the others. -/
structure Booted (kernel : Kernel) : Prop where
  noFiles : NoFiles kernel
  unique : ∀ ip ip', (kernel.fs.icache ip).inodeNum ≠ inodeNumUnused →
    (kernel.fs.icache ip).inodeNum = (kernel.fs.icache ip').inodeNum →
    ip = ip'
  unused : ∀ ip, (kernel.fs.icache ip).inodeNum = inodeNumUnused →
    (kernel.fs.icache ip).ref = 0
  few : ∀ ip, (kernel.fs.icache ip).ref.toNat < 2 ^ 31

/-- Number of slots with references. -/
def slotsInUse (kernel : Kernel) : Nat :=
  countEntries kernel.fs.icache fun inode => inode.ref ≠ 0

/-- Number of entries of the file table in use. -/
def filesInUse (kernel : Kernel) : Nat :=
  countEntries kernel.ftable fun file => file.type ≠ .unused

/-- Every inode has at most one slot, whose references are those at boot plus
its open files, and no other slot is in use. -/
structure RefBalanced (start kernel : Kernel) : Prop where
  unique : ∀ ip ip', (kernel.fs.icache ip).inodeNum ≠ inodeNumUnused →
    (kernel.fs.icache ip).inodeNum = (kernel.fs.icache ip').inodeNum →
    ip = ip'
  balance : ∀ inodeNum, inodeNum ≠ inodeNumUnused →
    refOf kernel.fs inodeNum =
      refOf start.fs inodeNum + openOf kernel inodeNum
  slots : slotsInUse kernel ≤ slotsInUse start + filesInUse kernel

/-- Processes making system calls after the kernel has booted. -/
def bootedSystem (start : Kernel) :
    TransitionSystem Kernel (Pid × SysCall) where
  Init := fun kernel => kernel = start
  Step := CallStep

theorem Booted.accounted
    {start : Kernel} (booted : Booted start) :
    Accounted (refOf start.fs) [] start := by
  have noneOpen : ∀ ip, openCount start ip = 0 := by
    intro ip
    apply (countEntries_eq_zero _ _).mpr
    intro index opens
    exact opens.1 (booted.noFiles.1 index).1
  refine ⟨⟨booted.unique, ?_, ?_, ?_, ?_, openCount_le start⟩,
    fun index _ => (booted.noFiles.1 index).2⟩
  · intro ip
    rw [noneOpen, List.count_nil]
    by_cases used : (start.fs.icache ip).inodeNum = inodeNumUnused
    · rw [booted.unused ip used, used]
      unfold refOf
      cases found : slotOf start.fs inodeNumUnused with
      | none => exact absurd used (slotOf_eq_none found ip)
      | some other =>
          rw [Option.elim_some, booted.unused other (slotOf_eq_some found)]
          rfl
    · unfold refOf
      rw [slotOf_of_unique booted.unique used]
      rfl
  · intro inodeNum left
    unfold refOf at left
    cases found : slotOf start.fs inodeNum with
    | none =>
        rw [found] at left
        exact absurd rfl left
    | some ip => exact ⟨ip, slotOf_eq_some found⟩
  · unfold refOf
    cases found : slotOf start.fs inodeNumUnused with
    | none => rfl
    | some other =>
        rw [Option.elim_some, booted.unused other (slotOf_eq_some found)]
        rfl
  · intro inodeNum
    unfold refOf
    cases slotOf start.fs inodeNum with
    | none => exact Nat.two_pow_pos 31
    | some ip => exact booted.few ip

/-- A slot in use held references at boot or is that of an open file. -/
theorem Accounted.slotsInUse_le
    {start : Kernel}
    (accounted : Accounted (refOf start.fs) [] kernel) :
    slotsInUse kernel ≤ slotsInUse start + filesInUse kernel := by
  have covered : (Finset.univ.filter fun ip =>
      (kernel.fs.icache ip).ref ≠ 0) ⊆
      (Finset.univ.filter fun ip =>
        refOf start.fs (kernel.fs.icache ip).inodeNum ≠ 0) ∪
      (Finset.univ.filter fun ip => openCount kernel ip ≠ 0) := by
    intro ip member
    simp only [Finset.mem_filter, Finset.mem_univ, true_and,
      Finset.mem_union] at member ⊢
    by_contra neither
    have counted := accounted.references.counted ip
    rw [List.count_nil] at counted
    exact member (UInt32.toNat_inj.mp (by
      simp only [UInt32.toNat_zero]
      omega))
  have atBoot : (Finset.univ.filter fun ip =>
      refOf start.fs (kernel.fs.icache ip).inodeNum ≠ 0).card ≤
      slotsInUse start := by
    unfold slotsInUse countEntries
    apply Finset.card_le_card_of_injOn fun ip =>
      (slotOf start.fs (kernel.fs.icache ip).inodeNum).getD ip
    · intro ip member
      simp only [Finset.coe_filter, Finset.mem_univ, true_and,
        Set.mem_ofPred_eq] at member ⊢
      unfold refOf at member
      cases found : slotOf start.fs (kernel.fs.icache ip).inodeNum with
      | none =>
          rw [found] at member
          exact absurd rfl member
      | some other =>
          rw [found] at member
          intro zero
          simp only [Option.getD_some] at zero
          exact member (by rw [Option.elim_some, zero]; rfl)
    · intro ip member ip' member' same
      simp only [Finset.coe_filter, Finset.mem_univ, true_and,
        Set.mem_ofPred_eq] at member member'
      have used : (kernel.fs.icache ip).inodeNum ≠ inodeNumUnused := by
        intro unused
        rw [unused] at member
        exact member accounted.references.unusedBase
      unfold refOf at member member'
      cases found : slotOf start.fs (kernel.fs.icache ip).inodeNum with
      | none =>
          rw [found] at member
          exact absurd rfl member
      | some other =>
          cases found' : slotOf start.fs (kernel.fs.icache ip').inodeNum with
          | none =>
              rw [found'] at member'
              exact absurd rfl member'
          | some other' =>
              simp only [found, found', Option.getD_some] at same
              rw [same] at found
              exact accounted.references.unique ip ip' used
                ((slotOf_eq_some found).symm.trans (slotOf_eq_some found'))
  have byFiles : (Finset.univ.filter fun ip =>
      openCount kernel ip ≠ 0).card ≤ filesInUse kernel := by
    have images : (Finset.univ.filter fun ip => openCount kernel ip ≠ 0) ⊆
        (Finset.univ.filter fun index =>
          (kernel.ftable index).type ≠ .unused).image fun index =>
            ((kernel.ftable index).ip).getD 0 := by
      intro ip member
      simp only [Finset.mem_filter, Finset.mem_univ, true_and,
        Finset.mem_image] at member ⊢
      obtain ⟨index, opens⟩ := (countEntries_pos _ _).mp
        (Nat.pos_of_ne_zero member)
      exact ⟨index, opens.1, by rw [opens.2]; rfl⟩
    exact (Finset.card_le_card images).trans Finset.card_image_le
  calc slotsInUse kernel
    _ ≤ _ := Finset.card_le_card covered
    _ ≤ _ := Finset.card_union_le _ _
    _ ≤ slotsInUse start + filesInUse kernel := Nat.add_le_add atBoot byFiles

theorem Accounted.refBalanced
    {start : Kernel}
    (accounted : Accounted (refOf start.fs) [] kernel) :
    RefBalanced start kernel := by
  refine ⟨accounted.references.unique, fun inodeNum used => ?_,
    accounted.slotsInUse_le⟩
  unfold openOf
  cases found : slotOf kernel.fs inodeNum with
  | none =>
      have leftNone : refOf start.fs inodeNum = 0 := by
        by_contra left
        obtain ⟨ip, number⟩ := accounted.references.cached inodeNum left
        exact slotOf_eq_none found ip number
      rw [leftNone, refOf, found]
      rfl
  | some ip =>
      have counted := accounted.references.counted ip
      rw [slotOf_eq_some found, List.count_nil] at counted
      rw [refOf, found]
      exact counted

theorem booted_bootKernel (junk : Block) : Booted (bootKernel junk) := by
  refine ⟨noFiles_bootKernel junk, ?_, ?_, ?_⟩
  · intro ip ip' used
    exact absurd rfl used
  · intro ip unused
    rfl
  · intro ip
    exact Nat.two_pow_pos 31

end Fs
end WhuOs
