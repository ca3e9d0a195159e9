import WhuOs.Fs.DirDefs

/-!
# Open files and system calls

The table of open files of `file.c`, the descriptor tables of processes, and
the system calls of `sysfile.c`, `fork`, `exit` and `wait`.  The locks of the
file table are released before any disk access, so they are never seen locked.
-/

namespace WhuOs
namespace Fs

open Library
open Program (get modify assert)

/-- Number of open files. -/
abbrev nFile : Nat := 32

/-- Index in `ftable`. -/
abbrev FileIndex := Fin nFile

/-- Number of descriptors of a process. -/
abbrev filePerProc : Nat := 16

/-- The kinds of open files. -/
inductive FdType
  | unused
  | dir
  | file
  | device
  deriving DecidableEq

/-- `file_t`. -/
structure File where
  type : FdType
  readable : Bool
  writable : Bool
  ref : UInt32
  major : UInt16
  offset : UInt32
  ip : Option Slot

/-- The states of a process. -/
inductive ProcState
  | unused
  | runnable
  | running
  | sleeping
  | zombie
  deriving DecidableEq

/-- The fields of `proc_t` that own open files or decide when they are
closed. -/
structure Proc where
  state : ProcState
  parent : Option Pid
  filelist : Fin filePerProc → Option FileIndex

/-- The file system with the open files and the processes. -/
structure Kernel where
  fs : State
  ftable : FileIndex → File
  procs : Pid → Proc

namespace Kernel

@[simps -fullyApplied] def setFs (fs : State) (kernel : Kernel) : Kernel :=
  { kernel with fs := fs }

@[simps -fullyApplied] def setFile (kernel : Kernel) (index : FileIndex)
    (file : File) : Kernel :=
  { kernel with ftable := Function.update kernel.ftable index file }

@[simps -fullyApplied] def setProc (kernel : Kernel) (pid : Pid)
    (proc : Proc) : Kernel :=
  { kernel with procs := Function.update kernel.procs pid proc }

end Kernel

/-- A program of the kernel. -/
abbrev KernelM := Program Kernel

/-- Run a file-system program. -/
def onFs {α : Type} (program : FsM α) : KernelM α :=
  program.zoom Kernel.fs Kernel.setFs

/-- Read an open file. -/
def getFile (index : FileIndex) : KernelM File := do
  let kernel ← get
  return kernel.ftable index

/-- Change an open file. -/
def modifyFile (index : FileIndex) (change : File → File) : KernelM Unit :=
  modify fun kernel => kernel.setFile index (change (kernel.ftable index))

def modeCreate : UInt32 := 1
def modeRead : UInt32 := 2
def modeWrite : UInt32 := 4

/-! ## Open files -/

/-- Take an unused entry of the file table. -/
def fileAlloc : KernelM FileIndex := do
  let kernel ← get
  match (List.finRange nFile).find? fun index =>
      (kernel.ftable index).type = .unused with
  | some index =>
      modifyFile index fun file =>
        ⟨.file, false, false, 1, file.major, 0, none⟩
      return index
  | none => Program.panic "file_alloc: no free file entries"

/-- The kind of an open file for a kind of inode.  Other kinds keep what
`file_alloc` stored. -/
def fdTypeOf (type : UInt16) : FdType :=
  if type = ftDir then .dir
  else if type = ftFile then .file
  else if type = ftDevice then .device
  else .file

/-- Open a file. -/
def fileOpen (path : CString) (openMode : UInt32) :
    KernelM (Option FileIndex) := do
  let found ← onFs <|
    if openMode &&& modeCreate ≠ 0 then
      pathCreateInode path ftFile 0 0
    else
      pathToInode path
  match found with
  | none => return none
  | some ip =>
      onFs (inodeLock ip)
      let inode ← onFs (getInode ip)
      if inode.data.type = ftDir ∧ openMode &&& modeWrite ≠ 0 then
        onFs (inodeUnlockFree ip)
        return none
      else
        let index ← fileAlloc
        modifyFile index fun file =>
          ⟨fdTypeOf inode.data.type, openMode &&& modeRead ≠ 0,
            openMode &&& modeWrite ≠ 0, file.ref,
            if inode.data.type = ftDevice then inode.data.major
            else file.major, 0, some ip⟩
        onFs (inodeUnlock ip)
        return some index

/-- Give a reference to an open file back. -/
def fileClose (index : FileIndex) : KernelM Unit := do
  let file ← getFile index
  assert (!(file.ref < 1)) "file_close: ref count"
  if file.ref - 1 = 0 then
    modifyFile index fun file =>
      ⟨.unused, false, false, 0, file.major, 0, none⟩
    match file.ip with
    | some ip => onFs (inodeFree ip)
    | none => return
  else
    modifyFile index fun file =>
      ⟨file.type, file.readable, file.writable, file.ref - 1, file.major,
        file.offset, file.ip⟩

/-- The inode of an open file. -/
def fileIp (file : File) : KernelM Slot :=
  match file.ip with
  | some ip => return ip
  | none => Program.panic "inode_lock: ip is NULL"

/-- Move the offset of an open file. -/
def advance (index : FileIndex) (count : UInt32) : KernelM Unit :=
  modifyFile index fun file =>
    ⟨file.type, file.readable, file.writable, file.ref, file.major,
      file.offset + count, file.ip⟩

/-- Read from an open file.  The result is the number of bytes; no device has
a read function. -/
def fileRead (index : FileIndex) (len : UInt32) : KernelM UInt32 := do
  let file ← getFile index
  if !file.readable then
    return 0
  else
    match file.type with
    | .dir =>
        let ip ← fileIp file
        onFs (inodeLock ip)
        let entries ← onFs (dirGetEntries ip len)
        onFs (inodeUnlock ip)
        return UInt32.ofNat (direntSize * entries.length)
    | .file =>
        let ip ← fileIp file
        onFs (inodeLock ip)
        let bytes ← onFs (inodeReadData ip file.offset len)
        advance index (UInt32.ofNat bytes.length)
        onFs (inodeUnlock ip)
        return UInt32.ofNat bytes.length
    | .device => return 0
    | .unused => return 0

/-- Write to an open file.  No device has a write function. -/
def fileWrite (index : FileIndex) (len : UInt32) (src : Bytes) :
    KernelM UInt32 := do
  let file ← getFile index
  if !file.writable then
    return 0
  else
    match file.type with
    | .file =>
        let ip ← fileIp file
        onFs (inodeLock ip)
        let written ← onFs (inodeWriteData ip file.offset len src)
        advance index written
        onFs (inodeUnlock ip)
        return written
    | .device => return 0
    | .dir => return 0
    | .unused => return 0

/-- Set the offset of an open file. -/
def fileLseek (index : FileIndex) (offset flags : UInt32) :
    KernelM (Option UInt32) := do
  let file ← getFile index
  if file.type ≠ .file then
    return none
  else
    let target : Option UInt32 :=
      if flags = 0 then some offset
      else if flags = 1 then some (file.offset + offset)
      else if flags = 2 then
        some (if file.offset ≥ offset then file.offset - offset else 0)
      else none
    match target with
    | some target =>
        modifyFile index fun file =>
          ⟨file.type, file.readable, file.writable, file.ref, file.major,
            target, file.ip⟩
        return some target
    | none => return none

/-- Take another reference to an open file. -/
def fileDup (index : FileIndex) : KernelM Unit := do
  let file ← getFile index
  assert (file.ref > 0) "file_dup: ref"
  modifyFile index fun file =>
    ⟨file.type, file.readable, file.writable, file.ref + 1, file.major,
      file.offset, file.ip⟩

/-- Read the status of an open file. -/
def fileStat (index : FileIndex) : KernelM (Option Inode) := do
  let file ← getFile index
  if file.type = .file ∨ file.type = .dir then
    let ip ← fileIp file
    onFs (inodeLock ip)
    let inode ← onFs (getInode ip)
    onFs (inodeUnlock ip)
    return some inode
  else
    return none

/-! ## System calls -/

/-- The open file of a descriptor. -/
def argFd (pid : Pid) (fd : UInt32) :
    KernelM (Option (Fin filePerProc × FileIndex)) := do
  let kernel ← get
  if bound : fd.toNat < filePerProc then
    match (kernel.procs pid).filelist ⟨fd.toNat, bound⟩ with
    | some index => return some (⟨fd.toNat, bound⟩, index)
    | none => return none
  else
    return none

/-- Store into a descriptor. -/
def setFd (pid : Pid) (fd : Fin filePerProc) (file : Option FileIndex) :
    KernelM Unit :=
  modify fun kernel => kernel.setProc pid
    ⟨(kernel.procs pid).state, (kernel.procs pid).parent,
      Function.update (kernel.procs pid).filelist fd file⟩

/-- Take a free descriptor for an open file. -/
def fdAlloc (pid : Pid) (index : FileIndex) :
    KernelM (Option (Fin filePerProc)) := do
  let kernel ← get
  match (List.finRange filePerProc).find? fun fd =>
      (kernel.procs pid).filelist fd = none with
  | some fd =>
      setFd pid fd (some index)
      return some fd
  | none => return none

/-- `sys_open`. -/
def sysOpen (pid : Pid) (path : CString) (openMode : UInt32) :
    KernelM (Option (Fin filePerProc)) := do
  let opened ← fileOpen path openMode
  match opened with
  | none => return none
  | some index =>
      let fd ← fdAlloc pid index
      match fd with
      | none =>
          fileClose index
          return none
      | some fd => return some fd

/-- `sys_close`. -/
def sysClose (pid : Pid) (fd : UInt32) : KernelM Bool := do
  let arg ← argFd pid fd
  match arg with
  | none => return false
  | some (fd, index) =>
      setFd pid fd none
      fileClose index
      return true

/-- `sys_dup`. -/
def sysDup (pid : Pid) (fd : UInt32) :
    KernelM (Option (Fin filePerProc)) := do
  let arg ← argFd pid fd
  match arg with
  | none => return none
  | some (_, index) =>
      let newFd ← fdAlloc pid index
      fileDup index
      return newFd

/-- Run a function of an open file on the file of a descriptor. -/
def withFd {α : Type} (pid : Pid) (fd : UInt32)
    (call : FileIndex → KernelM α) : KernelM (Option α) := do
  let arg ← argFd pid fd
  match arg with
  | none => return none
  | some (_, index) =>
      let result ← call index
      return some result

/-- `sys_read`. -/
def sysRead (pid : Pid) (fd len : UInt32) : KernelM (Option UInt32) :=
  withFd pid fd fun index => fileRead index len

/-- `sys_write`. -/
def sysWrite (pid : Pid) (fd len : UInt32) (src : Bytes) :
    KernelM (Option UInt32) :=
  withFd pid fd fun index => fileWrite index len src

/-- `sys_lseek`. -/
def sysLseek (pid : Pid) (fd offset flags : UInt32) :
    KernelM (Option (Option UInt32)) :=
  withFd pid fd fun index => fileLseek index offset flags

/-- `sys_fstat`. -/
def sysFstat (pid : Pid) (fd : UInt32) : KernelM (Option (Option Inode)) :=
  withFd pid fd fun index => fileStat index

/-- `sys_getdir`. -/
def sysGetdir (pid : Pid) (fd len : UInt32) :
    KernelM (Option (Option (List (List UInt8)))) :=
  withFd pid fd fun index => do
    let file ← getFile index
    match file.type, file.ip with
    | .dir, some ip =>
        onFs (inodeLock ip)
        let entries ← onFs (dirGetEntries ip len)
        onFs (inodeUnlock ip)
        return some entries
    | _, _ => return none

/-- `sys_mkdir`. -/
def sysMkdir (path : CString) : KernelM Bool := do
  let created ← onFs (pathCreateInode path ftDir 0 0)
  return created.isSome

/-- `sys_chdir`. -/
def sysChdir (path : CString) : KernelM Bool :=
  onFs (dirChange path)

/-- `sys_link`. -/
def sysLink (oldPath newPath : CString) : KernelM Bool :=
  onFs (pathLink oldPath newPath)

/-- `sys_unlink`. -/
def sysUnlink (path : CString) : KernelM Bool :=
  onFs (pathUnlink path)

/-! ## Processes -/

/-- `proczero`. -/
def procZero : Pid := 0

/-- Close a descriptor if it is open. -/
def closeFd (pid : Pid) (fd : Fin filePerProc) : KernelM Unit := do
  let kernel ← get
  match (kernel.procs pid).filelist fd with
  | some index =>
      fileClose index
      setFd pid fd none
  | none => return

/-- Give a process slot back, closing its files. -/
def procFree (pid : Pid) : KernelM Unit := do
  modify fun kernel => kernel.setProc pid
    ⟨(kernel.procs pid).state, none, (kernel.procs pid).filelist⟩
  (List.finRange filePerProc).forM fun fd => closeFd pid fd
  modify fun kernel => kernel.setProc pid
    ⟨.unused, (kernel.procs pid).parent, (kernel.procs pid).filelist⟩

/-- Take an unused process slot.  `memory` says whether the pages of the new
process can be allocated. -/
def procAlloc (memory : Bool) : KernelM (Option Pid) := do
  let kernel ← get
  match (List.finRange nProc).find? fun pid =>
      (kernel.procs pid).state = .unused with
  | none => return none
  | some pid =>
      modify fun kernel => kernel.setProc pid
        ⟨.runnable, (kernel.procs pid).parent, fun _ => none⟩
      if memory then
        return some pid
      else
        procFree pid
        return none

/-- Copy a descriptor to a new process. -/
def dupFd (curr child : Pid) (fd : Fin filePerProc) : KernelM Unit := do
  let kernel ← get
  match (kernel.procs curr).filelist fd with
  | some index =>
      fileDup index
      setFd child fd (some index)
  | none => return

/-- `proc_fork`. -/
def procFork (curr : Pid) (memory : Bool) : KernelM (Option Pid) := do
  let allocated ← procAlloc memory
  match allocated with
  | none => return none
  | some child =>
      (List.finRange filePerProc).forM fun fd => dupFd curr child fd
      modify fun kernel => kernel.setProc child
        ⟨.runnable, some curr, (kernel.procs child).filelist⟩
      return some child

/-- `proc_exit`: hand the children to the first process and become a
zombie. -/
def procExit (curr : Pid) : KernelM Unit := do
  assert (curr ≠ procZero) "init exiting"
  modify fun kernel =>
    ⟨kernel.fs, kernel.ftable, fun pid =>
      if (kernel.procs pid).parent = some curr then
        ⟨(kernel.procs pid).state, some procZero,
          (kernel.procs pid).filelist⟩
      else kernel.procs pid⟩
  modify fun kernel => kernel.setProc curr
    ⟨.zombie, (kernel.procs curr).parent, (kernel.procs curr).filelist⟩

/-- `proc_wait`: free the first child that has exited.  The result is `none`
when there is no child, and `some none` while the call has to sleep. -/
def procWait (curr : Pid) : KernelM (Option (Option Pid)) := do
  let kernel ← get
  match (List.finRange nProc).find? fun pid =>
      (kernel.procs pid).parent = some curr ∧
        (kernel.procs pid).state = .zombie with
  | some child =>
      procFree child
      return some (some child)
  | none =>
      if (List.finRange nProc).any fun pid =>
          (kernel.procs pid).parent = some curr then
        return some none
      else
        return none

/-! ## Calls of a process -/

/-- The system calls that use files or processes. -/
inductive SysCall
  | «open» (path : CString) (openMode : UInt32)
  | close (fd : UInt32)
  | read (fd len : UInt32)
  | write (fd len : UInt32) (src : Bytes)
  | lseek (fd offset flags : UInt32)
  | dup (fd : UInt32)
  | fstat (fd : UInt32)
  | getdir (fd len : UInt32)
  | mkdir (path : CString)
  | chdir (path : CString)
  | link (oldPath newPath : CString)
  | unlink (path : CString)
  | fork (memory : Bool)
  | exit
  | wait

/-- Run a program for its effect. -/
def ignoreResult {α : Type} (program : KernelM α) : KernelM Unit := do
  let _ ← program
  return

/-- The effect of a system call of a process. -/
def SysCall.program (pid : Pid) : SysCall → KernelM Unit
  | .open path openMode => ignoreResult (sysOpen pid path openMode)
  | .close fd => ignoreResult (sysClose pid fd)
  | .read fd len => ignoreResult (sysRead pid fd len)
  | .write fd len src => ignoreResult (sysWrite pid fd len src)
  | .lseek fd offset flags => ignoreResult (sysLseek pid fd offset flags)
  | .dup fd => ignoreResult (sysDup pid fd)
  | .fstat fd => ignoreResult (sysFstat pid fd)
  | .getdir fd len => ignoreResult (sysGetdir pid fd len)
  | .mkdir path => ignoreResult (sysMkdir path)
  | .chdir path => ignoreResult (sysChdir path)
  | .link oldPath newPath => ignoreResult (sysLink oldPath newPath)
  | .unlink path => ignoreResult (sysUnlink path)
  | .fork memory => ignoreResult (procFork pid memory)
  | .exit => procExit pid
  | .wait => ignoreResult (procWait pid)

/-- A process that has not exited. -/
def Kernel.Alive (kernel : Kernel) (pid : Pid) : Prop :=
  (kernel.procs pid).state ≠ .unused ∧ (kernel.procs pid).state ≠ .zombie

instance (kernel : Kernel) (pid : Pid) : Decidable (kernel.Alive pid) :=
  inferInstanceAs (Decidable (_ ∧ _))

/-- A live process makes a system call that does not panic. -/
def CallStep (kernel : Kernel) (action : Pid × SysCall) (after : Kernel) :
    Prop :=
  kernel.Alive action.1 ∧ (action.2.program action.1).Runs kernel () after

end Fs
end WhuOs
