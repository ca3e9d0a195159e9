import WhuOs.Fs.FileDefs
import WhuOs.Mem.Defs

/-!
# Processes

The functions of `proc.c` and `sys_brk` as steps that nobody interrupts.  The
open files of a process are part of the file system; time slices and saved
contexts do not decide anything here.
-/

namespace WhuOs
namespace Process

open Library
open Library.Bytes
open Mem (MemM pmemAlloc pmemFree vmMappages uvmDestroyPgtbl uvmCopyPgtbl
  uvmHeapGrow uvmHeapUngrow copyoutLoop trampolineVa trapframeVa pteR pteW pteX
  pteU)
open Program (get modify assert)

/-- The states of a process. -/
abbrev ProcState := Fs.ProcState

/-- What a process sleeps on. -/
inductive Channel
  | proc (pid : Pid)
  | other (address : UInt64)
  deriving DecidableEq

/-- `proc_t`. -/
structure Proc where
  pid : Int
  state : ProcState
  parent : Option Pid
  exitState : UInt32
  sleepSpace : Option Channel
  pgtbl : UInt64
  heapTop : UInt64
  ustackPages : UInt64
  tf : UInt64
  kstack : UInt64

/-- Physical memory and the process table. -/
structure State where
  mem : Mem.State
  procs : Pid → Proc
  globalPid : Int
  /-- The address of the trampoline page. -/
  trampoline : UInt64

namespace State

@[simps -fullyApplied] def setMem (mem : Mem.State) (state : State) : State :=
  { state with mem := mem }

@[simps -fullyApplied] def setProcs (state : State) (procs : Pid → Proc) :
    State :=
  { state with procs := procs }

@[simps -fullyApplied] def setProc (state : State) (slot : Pid) (proc : Proc) :
    State :=
  { state with procs := Function.update state.procs slot proc }

@[simps -fullyApplied] def setGlobalPid (state : State) (globalPid : Int) :
    State :=
  { state with globalPid := globalPid }

end State

/-- A program of the process module. -/
abbrev ProcM := Program State

/-- Run a program of the memory manager. -/
def onMem {α : Type} (program : MemM α) : ProcM α :=
  program.zoom State.mem State.setMem

/-- Read a process slot. -/
def getProc (slot : Pid) : ProcM Proc := do
  let state ← get
  return state.procs slot

/-- Change a process slot. -/
def modifyProc (slot : Pid) (change : Proc → Proc) : ProcM Unit :=
  modify fun state => state.setProc slot (change (state.procs slot))

/-- `KSTACK`. -/
def kstackOf (index : Nat) : UInt64 :=
  0x3f80000000 + UInt64.ofNat ((index + 1) * 2 * 4096)

/-- `proczero`. -/
abbrev procZero : Pid := Fs.procZero

/-- A value of a 32-bit counter. -/
def wrapInt (value : Int) : Int :=
  if value = 2 ^ 31 then -(2 ^ 31) else value

/-- `alloc_pid`. -/
def allocPid : ProcM Int := do
  let state ← get
  assert (state.globalPid ≥ 0) "alloc_pid: overflow"
  modify fun state => state.setGlobalPid (wrapInt (state.globalPid + 1))
  return state.globalPid

/-! ## Slots of the process table -/

/-- A slot after `proc_init`. -/
def emptyProc : Proc :=
  ⟨0, .unused, none, 0, none, 0, 0, 0, 0, 0⟩

/-- `proc_pgtbl_init`. -/
def procPgtblInit (trampoline trapframe : UInt64) : MemM UInt64 := do
  let pgtbl ← pmemAlloc true
  if pgtbl = 0 then
    return 0
  else
    Mem.clearPage pgtbl
    vmMappages pgtbl trampolineVa trampoline 4096 (pteR ||| pteX)
    vmMappages pgtbl trapframeVa trapframe 4096 (pteR ||| pteW)
    return pgtbl

/-- Free a page unless the pointer is null. -/
def freeUnlessNull (page : UInt64) : MemM Unit :=
  if page = 0 then return else pmemFree page true

/-- `proc_free`.  The fields not named here keep their values. -/
def procFree (slot : Pid) : ProcM Unit := do
  let proc ← getProc slot
  onMem (freeUnlessNull proc.tf)
  onMem (uvmDestroyPgtbl proc.pgtbl 3)
  modifyProc slot fun proc =>
    ⟨0, .unused, none, 0, none, 0, 0, proc.ustackPages, 0, proc.kstack⟩

/-- Give a slot its trapframe page. -/
def Proc.setTf (proc : Proc) (tf : UInt64) : Proc :=
  { proc with tf := tf }

/-- Give a slot its page table. -/
def Proc.setPgtbl (proc : Proc) (pgtbl : UInt64) : Proc :=
  { proc with pgtbl := pgtbl }

/-- Change the top of the heap. -/
def Proc.setHeapTop (proc : Proc) (heapTop : UInt64) : Proc :=
  { proc with heapTop := heapTop }

/-- Change the kernel stack. -/
def Proc.setKstack (proc : Proc) (kstack : UInt64) : Proc :=
  { proc with kstack := kstack }

/-- Change the state of a process. -/
def Proc.setState (proc : Proc) (state : ProcState) : Proc :=
  { proc with state := state }

/-- Change the parent of a process. -/
def Proc.setParent (proc : Proc) (parent : Option Pid) : Proc :=
  { proc with parent := parent }

/-- The first unused slot. -/
def unusedSlot (state : State) : Option Pid :=
  (List.finRange nProc).find? fun slot => (state.procs slot).state = .unused

/-- `proc_alloc`. -/
def procAlloc : ProcM (Option Pid) := do
  let state ← get
  match unusedSlot state with
  | none => return none
  | some slot =>
      let pid ← allocPid
      modifyProc slot fun proc =>
        ⟨pid, .runnable, proc.parent, proc.exitState, proc.sleepSpace,
          proc.pgtbl, proc.heapTop, proc.ustackPages, proc.tf, proc.kstack⟩
      let tf ← onMem (pmemAlloc true)
      modifyProc slot fun proc => proc.setTf tf
      if tf = 0 then
        procFree slot
        return none
      else
        let pgtbl ← onMem (procPgtblInit state.trampoline tf)
        modifyProc slot fun proc => proc.setPgtbl pgtbl
        if pgtbl = 0 then
          procFree slot
          return none
        else
          modifyProc slot fun proc => proc.setKstack (kstackOf slot)
          return some slot

/-- Bytes of a trapframe. -/
abbrev trapframeSize : Nat := 288

/-- Copy a trapframe and store 0 as the return value of the copy. -/
def copyTrapframe (src dst : UInt64) : MemM Unit := do
  modify fun mem => mem.setBytes (memmove mem.bytes dst.toNat
    (fun index => mem.bytes (src.toNat + index)) trapframeSize)
  Mem.store (dst + 112) 0

/-- `proc_fork`.  The result is the pid of the child, or -1. -/
def procFork (curr : Pid) : ProcM Int := do
  let allocated ← procAlloc
  match allocated with
  | none => return -1
  | some child =>
      let parent ← getProc curr
      let proc ← getProc child
      onMem (uvmCopyPgtbl parent.pgtbl proc.pgtbl parent.heapTop
        parent.ustackPages.toUInt32)
      modifyProc child fun proc => proc.setHeapTop parent.heapTop
      onMem (copyTrapframe parent.tf proc.tf)
      let proc ← getProc child
      modifyProc child fun proc => proc.setParent (some curr)
      modifyProc child fun proc => proc.setState .runnable
      return proc.pid

/-! ## Sleeping, waiting and exiting -/

/-- `proc_yield`. -/
def procYield (curr : Pid) : ProcM Unit :=
  modifyProc curr fun proc => proc.setState .runnable

/-- `proc_sleep` up to the switch to another process. -/
def procSleep (curr : Pid) (chan : Option Channel) : ProcM Unit :=
  modifyProc curr fun proc =>
    ⟨proc.pid, .sleeping, proc.parent, proc.exitState, chan, proc.pgtbl,
      proc.heapTop, proc.ustackPages, proc.tf, proc.kstack⟩

/-- A process that sleeps on a channel. -/
def Proc.SleepsOn (proc : Proc) (chan : Option Channel) : Prop :=
  proc.state = .sleeping ∧ proc.sleepSpace = chan

instance (proc : Proc) (chan : Option Channel) : Decidable
    (proc.SleepsOn chan) :=
  inferInstanceAs (Decidable (_ ∧ _))

/-- `proc_wakeup`, called by a process. -/
def procWakeup (curr : Pid) (chan : Option Channel) : ProcM Unit :=
  modify fun state => state.setProcs fun slot =>
    if slot ≠ curr ∧ (state.procs slot).SleepsOn chan then
      (state.procs slot).setState .runnable
    else state.procs slot

/-- The body of `proc_reparent` for one slot. -/
def reparentSlot (curr slot : Pid) : ProcM Unit := do
  let proc ← getProc slot
  if proc.parent = some curr then
    modifyProc slot fun proc => proc.setParent (some procZero)
    procWakeup curr (some (.proc procZero))
  else
    return

/-- `proc_exit` up to the switch to another process. -/
def procExit (curr : Pid) (exitState : UInt32) : ProcM Unit := do
  assert (curr ≠ procZero) "init exiting"
  (List.finRange nProc).forM fun slot => reparentSlot curr slot
  let proc ← getProc curr
  procWakeup curr (proc.parent.map .proc)
  modifyProc curr fun proc =>
    ⟨proc.pid, .zombie, proc.parent, exitState, proc.sleepSpace, proc.pgtbl,
      proc.heapTop, proc.ustackPages, proc.tf, proc.kstack⟩

/-- The outcome of one scan of `proc_wait`. -/
inductive WaitResult
  /-- A child was freed; the status it exited with was copied out. -/
  | reaped (pid : Int) (exitState : UInt32)
  | noChild
  | sleeps
  deriving DecidableEq

/-- The first child of a process that has exited. -/
def zombieChild (state : State) (curr : Pid) : Option Pid :=
  (List.finRange nProc).find? fun slot =>
    (state.procs slot).parent = some curr ∧
      (state.procs slot).state = .zombie

/-- Store the exit status of a child in the memory of its parent. -/
def copyStatus (pgtbl addr : UInt64) (exitState : UInt32) : MemM Unit :=
  if addr = 0 then return
  else copyoutLoop pgtbl (fun _ => byteOf exitState.toNat) 4 4 addr 0

/-- One scan of `proc_wait`, which goes to sleep if no child has exited. -/
def procWait (curr : Pid) (addr : UInt64) : ProcM WaitResult := do
  let state ← get
  match zombieChild state curr with
  | some slot =>
      let proc ← getProc slot
      onMem (copyStatus (state.procs curr).pgtbl addr proc.exitState)
      procFree slot
      return .reaped proc.pid proc.exitState
  | none =>
      if (List.finRange nProc).any fun slot =>
          (state.procs slot).parent = some curr then
        procSleep curr (some (.proc curr))
        return .sleeps
      else
        return .noChild

/-! ## Heap -/

/-- The result of a system call that failed. -/
def failed : UInt64 := 0xFFFFFFFFFFFFFFFF

/-- `sys_brk`. -/
def sysBrk (curr : Pid) (newBrk : UInt64) : ProcM UInt64 := do
  let proc ← getProc curr
  if newBrk = 0 then
    return proc.heapTop
  else if newBrk > proc.heapTop then
    let newHeapTop ← onMem (uvmHeapGrow proc.pgtbl proc.heapTop
      (newBrk - proc.heapTop).toUInt32)
    if newHeapTop ≠ newBrk then
      return failed
    else
      modifyProc curr fun proc => proc.setHeapTop newHeapTop
      return newHeapTop
  else if newBrk < proc.heapTop then
    let newHeapTop ← onMem (uvmHeapUngrow proc.pgtbl proc.heapTop
      (proc.heapTop - newBrk).toUInt32)
    modifyProc curr fun proc => proc.setHeapTop newHeapTop
    return newHeapTop
  else
    return proc.heapTop

/-! ## The first process -/

/-- What the build and the boot code provide for the first process. -/
structure BootData where
  initcode : Bytes
  initcodeLen : Nat
  kernelSatp : UInt64
  kernelTrap : UInt64
  cpuid : Nat

/-- Fill the page table and the trapframe of the first process. -/
def makeFirstMemory (boot : BootData) (pgtbl tf kstack : UInt64) :
    MemM Unit := do
  let ustackPa1 ← pmemAlloc true
  let ustackPa2 ← pmemAlloc true
  assert (ustackPa1 ≠ 0 ∧ ustackPa2 ≠ 0)
    "proc_make_first: failed to allocate user stack"
  let ustackVa := trapframeVa - 8192
  vmMappages pgtbl ustackVa ustackPa1 4096 (pteR ||| pteW ||| pteU)
  vmMappages pgtbl (ustackVa + 4096) ustackPa2 4096 (pteR ||| pteW ||| pteU)
  assert (boot.initcodeLen ≤ Mem.pgSize)
    "proc_make_first: initcode too big"
  let codePa ← pmemAlloc true
  assert (codePa ≠ 0) "proc_make_first: failed to allocate code page"
  vmMappages pgtbl 4096 codePa 4096 (pteR ||| pteW ||| pteX ||| pteU)
  modify fun mem => mem.setBytes
    (memmove mem.bytes codePa.toNat boot.initcode boot.initcodeLen)
  modify fun mem => mem.setBytes
    (memmove mem.bytes tf.toNat (fun _ => 0) trapframeSize)
  Mem.store (tf + 24) 4096
  Mem.store (tf + 48) (ustackVa + 4096)
  Mem.store tf boot.kernelSatp
  Mem.store (tf + 32) (UInt64.ofNat boot.cpuid)
  Mem.store (tf + 8) (kstack + 4096)
  Mem.store (tf + 16) boot.kernelTrap

/-- `proc_make_first`. -/
def procMakeFirst (boot : BootData) : ProcM Unit := do
  let state ← get
  let pid ← allocPid
  let tf ← onMem (pmemAlloc true)
  assert (tf ≠ 0) "proc_make_first: failed to allocate trapframe"
  let pgtbl ← onMem (procPgtblInit state.trampoline tf)
  assert (pgtbl ≠ 0) "proc_make_first: failed to initialize page table"
  onMem (makeFirstMemory boot pgtbl tf (kstackOf boot.cpuid))
  modifyProc procZero fun proc =>
    ⟨pid, .runnable, proc.parent, proc.exitState, proc.sleepSpace, pgtbl,
      12288, 2, tf, kstackOf boot.cpuid⟩

end Process
end WhuOs
