import Mathlib.Data.Fintype.Prod
import WhuOs.Fs.Mkfs
import WhuOs.Fs.Runs
import WhuOs.Library.Counting
import WhuOs.Library.TransitionSystem

/-!
# Open-file reference counts

Every reference to an open file belongs to a descriptor of some process.  The
calls that open, duplicate and close descriptors keep the count of an entry of
the file table equal to the number of descriptors that point to it, except for
`sys_dup` in a process whose descriptor table is full.
-/

namespace WhuOs
namespace Fs

open Library
open Program (Runs)

variable {kernel after : Kernel}

@[simp] theorem runs_onFs
    {α : Type} {program : FsM α} {result : α} :
    (onFs program).Runs kernel result after ↔
      ∃ fs, program.Runs kernel.fs result fs ∧ kernel.setFs fs = after := by
  unfold onFs
  apply Program.runs_zoom
  · intro state whole
    rfl
  · intro state state' whole
    rfl

@[simp] theorem runs_getFile
    {index : FileIndex} {result : File} :
    (getFile index).Runs kernel result after ↔
      kernel.ftable index = result ∧ kernel = after := by
  simp only [getFile, Program.runs_bind, Program.runs_get, Program.runs_pure]
  constructor
  · rintro ⟨_, _, ⟨rfl, rfl⟩, rfl, rfl⟩
    exact ⟨rfl, rfl⟩
  · rintro ⟨rfl, rfl⟩
    exact ⟨_, _, ⟨rfl, rfl⟩, rfl, rfl⟩

@[simp] theorem runs_modifyFile
    {index : FileIndex} {change : File → File} {result : Unit} :
    (modifyFile index change).Runs kernel result after ↔
      kernel.setFile index (change (kernel.ftable index)) = after := by
  simp [modifyFile]

/-! ## What the functions do to the tables -/

/-- The descriptors of all processes as one table. -/
def fdTable (kernel : Kernel) : Pid × Fin filePerProc → Option FileIndex :=
  fun slot => (kernel.procs slot.1).filelist slot.2

/-- Number of descriptors that point to an open file. -/
def fdCount (kernel : Kernel) (index : FileIndex) : Nat :=
  countEntries (fdTable kernel) (· = some index)

/-- The state after storing into a descriptor. -/
def Kernel.setFd (kernel : Kernel) (pid : Pid) (fd : Fin filePerProc)
    (file : Option FileIndex) : Kernel :=
  kernel.setProc pid ⟨(kernel.procs pid).state, (kernel.procs pid).parent,
    Function.update (kernel.procs pid).filelist fd file⟩

@[simp] theorem runs_setFd
    {pid : Pid} {fd : Fin filePerProc} {file : Option FileIndex}
    {result : Unit} :
    (setFd pid fd file).Runs kernel result after ↔
      kernel.setFd pid fd file = after := by
  simp [setFd, Kernel.setFd]

theorem fdTable_setFd
    (kernel : Kernel) (pid : Pid) (fd : Fin filePerProc)
    (file : Option FileIndex) :
    fdTable (kernel.setFd pid fd file) =
      Function.update (fdTable kernel) (pid, fd) file := by
  funext slot
  obtain ⟨other, otherFd⟩ := slot
  by_cases samePid : other = pid
  · subst samePid
    by_cases sameFd : otherFd = fd
    · subst sameFd
      simp [fdTable, Kernel.setFd]
    · simp [fdTable, Kernel.setFd, sameFd]
  · simp [fdTable, Kernel.setFd, samePid]

/-- Storing into a descriptor moves one reference. -/
theorem fdCount_setFd
    (kernel : Kernel) (pid : Pid) (fd : Fin filePerProc)
    (file : Option FileIndex) (index : FileIndex) :
    fdCount (kernel.setFd pid fd file) index +
        (if (kernel.procs pid).filelist fd = some index then 1 else 0) =
      fdCount kernel index + if file = some index then 1 else 0 := by
  unfold fdCount
  rw [fdTable_setFd]
  exact countEntries_update (fdTable kernel) _ (pid, fd) file

/-- A table that agrees has the same counts. -/
theorem fdCount_congr
    (same : fdTable after = fdTable kernel) (index : FileIndex) :
    fdCount after index = fdCount kernel index := by
  unfold fdCount
  rw [same]

theorem fdCount_le (kernel : Kernel) (index : FileIndex) :
    fdCount kernel index ≤ 1024 := by
  have bound := countEntries_le_card (fdTable kernel) (· = some index)
  rwa [Fintype.card_prod, Fintype.card_fin, Fintype.card_fin] at bound

/-- The part of `file_open` that finds or creates the inode. -/
def openInode (path : CString) (openMode : UInt32) : FsM (Option Slot) :=
  if openMode &&& modeCreate ≠ 0 then
    pathCreateInode path ftFile 0 0
  else
    pathToInode path

/-- The entry of a file that was opened. -/
def openedFile (file : File) (ip : Slot) (dinode : Dinode)
    (openMode : UInt32) : File :=
  ⟨fdTypeOf dinode.type, openMode &&& modeRead ≠ 0,
    openMode &&& modeWrite ≠ 0, 1,
    if dinode.type = ftDevice then dinode.major else file.major, 0, some ip⟩

/-- The ways opening a file can end: no inode, a directory opened for writing,
or an unused entry that now refers to the inode. -/
theorem fileOpen_runs
    {path : CString} {openMode : UInt32} {result : Option FileIndex}
    (run : (fileOpen path openMode).Runs kernel result after) :
    (∃ fs, (openInode path openMode).Runs kernel.fs none fs ∧
      result = none ∧ after = kernel.setFs fs) ∨
    ∃ ip fs₁ fs₂, (openInode path openMode).Runs kernel.fs (some ip) fs₁ ∧
      (inodeLock ip).Runs fs₁ () fs₂ ∧
      ((∃ fs₃, (inodeUnlockFree ip).Runs fs₂ () fs₃ ∧ result = none ∧
        after = kernel.setFs fs₃) ∨
      ∃ fs₃ index, (inodeUnlock ip).Runs fs₂ () fs₃ ∧
        result = some index ∧ (kernel.ftable index).type = .unused ∧
        after = (kernel.setFs fs₃).setFile index (openedFile
          (kernel.ftable index) ip (fs₂.icache ip).data openMode)) := by
  simp only [fileOpen, Program.runs_bind, runs_onFs] at run
  obtain ⟨found, _, ⟨fs₁, opened, rfl⟩, rest⟩ := run
  cases found with
  | none =>
      rw [Program.runs_pure] at rest
      exact Or.inl ⟨fs₁, opened, rest.1.symm, rest.2.symm⟩
  | some ip =>
      simp only [Program.runs_bind, runs_onFs, runs_getInode] at rest
      obtain ⟨_, _, ⟨fs₂, locked, rfl⟩, _, _, ⟨_, ⟨rfl, rfl⟩, rfl⟩, rest⟩ :=
        rest
      refine Or.inr ⟨ip, fs₁, fs₂, opened, locked, ?_⟩
      split at rest
      · simp only [Program.runs_bind, runs_onFs, Program.runs_pure] at rest
        obtain ⟨_, _, ⟨fs₃, freed, rfl⟩, rfl, rfl⟩ := rest
        exact Or.inl ⟨fs₃, freed, rfl, rfl⟩
      · right
        simp only [fileAlloc, Program.runs_bind, Program.runs_get] at rest
        obtain ⟨index, _, ⟨_, _, ⟨rfl, rfl⟩, allocated⟩, rest⟩ := rest
        split at allocated
        next free foundFree =>
          simp only [Program.runs_bind, runs_modifyFile,
            Program.runs_pure] at allocated
          obtain ⟨_, _, rfl, rfl, rfl⟩ := allocated
          simp only [runs_modifyFile, runs_onFs, Program.runs_pure] at rest
          obtain ⟨_, _, rfl, _, _, ⟨fs₃, unlocked, rfl⟩, rfl, rfl⟩ := rest
          have unused := List.find?_some foundFree
          simp only [decide_eq_true_eq] at unused
          refine ⟨fs₃, free, unlocked, rfl, unused, ?_⟩
          simp only [Kernel.setFs, Kernel.setFile, Function.update_self,
            Function.update_idem]
          rfl
        · exact absurd allocated Program.runs_panic

/-- The entry of a file after one of its references was given back. -/
def File.closed (file : File) : File :=
  if file.ref - 1 = 0 then ⟨.unused, false, false, 0, file.major, 0, none⟩
  else ⟨file.type, file.readable, file.writable, file.ref - 1, file.major,
    file.offset, file.ip⟩

/-- What closing a file does to the file system: the last reference to the
file gives back its reference to the inode. -/
def ClosesTo (file : File) (fs fs' : State) : Prop :=
  if file.ref - 1 = 0 then
    match file.ip with
    | some ip => (inodeFree ip).Runs fs () fs'
    | none => fs = fs'
  else fs = fs'

/-- Closing a file drops one reference. -/
theorem fileClose_runs
    {index : FileIndex} {result : Unit}
    (run : (fileClose index).Runs kernel result after) :
    (kernel.ftable index).ref ≠ 0 ∧ ∃ fs, after =
      (kernel.setFs fs).setFile index (kernel.ftable index).closed ∧
      ClosesTo (kernel.ftable index) kernel.fs fs := by
  simp only [fileClose, Program.runs_bind, runs_getFile,
    Program.runs_assert] at run
  obtain ⟨_, _, ⟨rfl, rfl⟩, _, _, ⟨referenced, rfl⟩, rest⟩ := run
  refine ⟨by simpa using referenced, ?_⟩
  unfold File.closed ClosesTo
  split at rest
  · next last =>
    simp only [Program.runs_bind, runs_modifyFile] at rest
    obtain ⟨_, _, rfl, rest⟩ := rest
    simp only [if_pos last]
    cases found : (kernel.ftable index).ip with
    | some ip =>
      simp only [found, runs_onFs] at rest
      obtain ⟨fs, free, rfl⟩ := rest
      exact ⟨fs, rfl, free⟩
    | none =>
      simp only [found, Program.runs_pure] at rest
      exact ⟨_, rest.2.symm, rfl⟩
  · next more =>
    rw [runs_modifyFile] at rest
    simp only [if_neg more]
    exact ⟨kernel.fs, rest.symm, rfl⟩

/-- Duplicating a file adds one reference. -/
theorem fileDup_runs
    {index : FileIndex} {result : Unit}
    (run : (fileDup index).Runs kernel result after) :
    0 < (kernel.ftable index).ref ∧ after = kernel.setFile index
      ⟨(kernel.ftable index).type, (kernel.ftable index).readable,
        (kernel.ftable index).writable, (kernel.ftable index).ref + 1,
        (kernel.ftable index).major, (kernel.ftable index).offset,
        (kernel.ftable index).ip⟩ := by
  simp only [fileDup, Program.runs_bind, runs_getFile, Program.runs_assert,
    runs_modifyFile] at run
  obtain ⟨_, _, ⟨rfl, rfl⟩, _, _, ⟨referenced, rfl⟩, rfl⟩ := run
  exact ⟨by simpa using referenced, rfl⟩

/-- The file of a descriptor. -/
theorem argFd_runs
    {pid : Pid} {fd : UInt32}
    {result : Option (Fin filePerProc × FileIndex)}
    (run : (argFd pid fd).Runs kernel result after) :
    kernel = after ∧ (result = none ∨ ∃ slot index,
      result = some (slot, index) ∧ slot.val = fd.toNat ∧
        (kernel.procs pid).filelist slot = some index) := by
  simp only [argFd, Program.runs_bind, Program.runs_get] at run
  obtain ⟨_, _, ⟨rfl, rfl⟩, rest⟩ := run
  split at rest
  · next bound =>
    split at rest
    · next index found =>
      rw [Program.runs_pure] at rest
      exact ⟨rest.2, Or.inr ⟨_, index, rest.1.symm, rfl, found⟩⟩
    · rw [Program.runs_pure] at rest
      exact ⟨rest.2, Or.inl rest.1.symm⟩
  · rw [Program.runs_pure] at rest
    exact ⟨rest.2, Or.inl rest.1.symm⟩

/-- A free descriptor is taken if there is one. -/
theorem fdAlloc_runs
    {pid : Pid} {index : FileIndex} {result : Option (Fin filePerProc)}
    (run : (fdAlloc pid index).Runs kernel result after) :
    (result = none ∧ kernel = after ∧
      ∀ fd, (kernel.procs pid).filelist fd ≠ none) ∨
    ∃ fd, result = some fd ∧ (kernel.procs pid).filelist fd = none ∧
      after = kernel.setFd pid fd (some index) := by
  simp only [fdAlloc, Program.runs_bind, Program.runs_get] at run
  obtain ⟨_, _, ⟨rfl, rfl⟩, rest⟩ := run
  split at rest
  · next fd found =>
    simp only [Program.runs_bind, runs_setFd, Program.runs_pure] at rest
    obtain ⟨_, _, rfl, rfl, rfl⟩ := rest
    have free := List.find?_some found
    exact Or.inr ⟨fd, rfl, by simpa using free, rfl⟩
  · next absent =>
    rw [Program.runs_pure] at rest
    refine Or.inl ⟨rest.1.symm, rest.2, fun fd empty => ?_⟩
    have := List.find?_eq_none.mp absent fd (List.mem_finRange fd)
    simp [empty] at this

/-! ## Balance -/

/-- Counts match the descriptors up to references a call holds or owes, unused
entries are the ones without references, and unused processes have no
descriptors. -/
structure Balanced (extra : FileIndex → Int) (kernel : Kernel) : Prop where
  count : ∀ index, ((kernel.ftable index).ref.toNat : Int) =
    fdCount kernel index + extra index
  unused : ∀ index, (kernel.ftable index).type = .unused ↔
    (kernel.ftable index).ref = 0
  idle : ∀ pid, (kernel.procs pid).state = .unused →
    ∀ fd, (kernel.procs pid).filelist fd = none

namespace Balanced

variable {extra extra' : FileIndex → Int}

/-- The file system takes no part in the balance. -/
theorem setFs
    (balanced : Balanced extra kernel) (fs : State) :
    Balanced extra (kernel.setFs fs) :=
  ⟨balanced.count, balanced.unused, balanced.idle⟩

/-- Changing the entry of one file. -/
theorem setFile
    (balanced : Balanced extra kernel) {index : FileIndex} {file : File}
    (unused : file.type = .unused ↔ file.ref = 0)
    (count : (file.ref.toNat : Int) =
      fdCount kernel index + extra' index)
    (others : ∀ other, other ≠ index → extra' other = extra other) :
    Balanced extra' (kernel.setFile index file) := by
  constructor
  · intro other
    have sameCount : fdCount (kernel.setFile index file) other =
      fdCount kernel other := rfl
    rw [sameCount, Kernel.setFile_ftable]
    by_cases same : other = index
    · subst same
      rw [Function.update_self]
      exact count
    · have kept := balanced.count other
      rw [← others other same] at kept
      rw [Function.update_of_ne same]
      exact kept
  · intro other
    rw [Kernel.setFile_ftable]
    by_cases same : other = index
    · subst same
      rw [Function.update_self]
      exact unused
    · rw [Function.update_of_ne same]
      exact balanced.unused other
  · exact balanced.idle

/-- Storing into a descriptor. -/
theorem setFd
    (balanced : Balanced extra kernel) {pid : Pid} {fd : Fin filePerProc}
    {file : Option FileIndex}
    (alive : (kernel.procs pid).state ≠ .unused ∨ file = none)
    (moved : ∀ index, extra' index + (if file = some index then 1 else 0) =
      extra index +
        if (kernel.procs pid).filelist fd = some index then 1 else 0) :
    Balanced extra' (kernel.setFd pid fd file) := by
  constructor
  · intro index
    have counted := balanced.count index
    have stored := fdCount_setFd kernel pid fd file index
    have shift := moved index
    have sameRef : ((kernel.setFd pid fd file).ftable index).ref =
      (kernel.ftable index).ref := rfl
    rw [sameRef]
    split_ifs at stored shift <;> omega
  · exact balanced.unused
  · intro other unused otherFd
    by_cases same : other = pid
    · subst same
      have unused' : (kernel.procs other).state = .unused := by
        simpa [Kernel.setFd] using unused
      have empty := balanced.idle other unused'
      rcases alive with alive | rfl
      · exact absurd unused' alive
      · by_cases sameFd : otherFd = fd
        · simp [Kernel.setFd, sameFd]
        · simpa [Kernel.setFd, sameFd] using empty otherFd
    · simpa [Kernel.setFd, same] using balanced.idle other (by
        simpa [Kernel.setFd, same] using unused) otherFd

/-- A file with a reference held by a call is closed. -/
theorem close
    (balanced : Balanced extra kernel) {index : FileIndex} {result : Unit}
    (run : (fileClose index).Runs kernel result after) :
    Balanced (Function.update extra index (extra index - 1)) after := by
  obtain ⟨referenced, fs, rfl, _⟩ := fileClose_runs run
  have counted := balanced.count index
  have positive : 0 < (kernel.ftable index).ref.toNat :=
    Nat.pos_of_ne_zero fun zero => referenced (UInt32.toNat_inj.mp zero)
  have lowered : ((kernel.ftable index).ref - 1).toNat =
      (kernel.ftable index).ref.toNat - 1 := by
    have atLeastOne : 1 ≤ (kernel.ftable index).ref :=
      UInt32.le_iff_toNat_le.mpr positive
    rw [UInt32.toNat_sub_of_le _ _ atLeastOne]
    rfl
  apply (balanced.setFs fs).setFile
  · unfold File.closed
    split
    · simp
    · next more =>
      have used := mt (balanced.unused index).mp referenced
      simp [used, more]
  · have sameCount : fdCount (kernel.setFs fs) index = fdCount kernel index :=
      rfl
    rw [sameCount, Function.update_self]
    unfold File.closed
    split
    · next last =>
      rw [last] at lowered
      simp only [UInt32.toNat_zero] at lowered ⊢
      omega
    · simp only [lowered]
      omega
  · intro other different
    rw [Function.update_of_ne different]

/-- A file is duplicated for a descriptor to be filled. -/
theorem dup
    (balanced : Balanced extra kernel) {index : FileIndex} {result : Unit}
    (small : extra index ≤ 1)
    (run : (fileDup index).Runs kernel result after) :
    Balanced (Function.update extra index (extra index + 1)) after := by
  obtain ⟨referenced, rfl⟩ := fileDup_runs run
  have counted := balanced.count index
  have bounded := fdCount_le kernel index
  have positive : (kernel.ftable index).ref ≠ 0 := fun zero => by
    rw [zero] at referenced
    exact absurd referenced (by decide)
  have raised : ((kernel.ftable index).ref + 1).toNat =
      (kernel.ftable index).ref.toNat + 1 := by
    rw [UInt32.toNat_add]
    exact Nat.mod_eq_of_lt (by simp; omega)
  apply balanced.setFile
  · have used := mt (balanced.unused index).mp positive
    have stillPositive : (kernel.ftable index).ref + 1 ≠ 0 := fun zero => by
      rw [zero] at raised
      simp at raised
    simp [used, stillPositive]
  · simp only [raised, Function.update_self]
    omega
  · intro other different
    rw [Function.update_of_ne different]

/-- Changes of a process that leave its descriptors alone. -/
theorem setProc
    (balanced : Balanced extra kernel) {pid : Pid} {proc : Proc}
    (same : proc.filelist = (kernel.procs pid).filelist)
    (empty : proc.state = .unused → ∀ fd, proc.filelist fd = none) :
    Balanced extra (kernel.setProc pid proc) := by
  have sameTable : fdTable (kernel.setProc pid proc) = fdTable kernel := by
    funext slot
    by_cases samePid : slot.1 = pid
    · simp [fdTable, samePid, same]
    · simp [fdTable, samePid]
  constructor
  · intro index
    rw [fdCount_congr sameTable]
    exact balanced.count index
  · exact balanced.unused
  · intro other
    by_cases samePid : other = pid
    · subst samePid
      simpa using empty
    · simpa [samePid] using balanced.idle other

/-- A descriptor is filled with a file the call holds a reference to. -/
theorem fill
    {index : FileIndex}
    (balanced : Balanced (Function.update 0 index 1) kernel)
    {pid : Pid} {fd : Fin filePerProc}
    (alive : (kernel.procs pid).state ≠ .unused)
    (free : (kernel.procs pid).filelist fd = none) :
    Balanced 0 (kernel.setFd pid fd (some index)) := by
  apply balanced.setFd (Or.inl alive)
  intro other
  by_cases same : other = index
  · simp [same, free]
  · simp [same, Ne.symm same, free]

/-- A descriptor is emptied. -/
theorem empty
    (balanced : Balanced extra kernel)
    {pid : Pid} {fd : Fin filePerProc} {index : FileIndex}
    (open' : (kernel.procs pid).filelist fd = some index) :
    Balanced (Function.update extra index (extra index + 1))
      (kernel.setFd pid fd none) := by
  apply balanced.setFd (Or.inr rfl)
  intro other
  by_cases same : other = index
  · simp [same, open']
  · simp [same, Ne.symm same, open']

/-- Closing the file a call holds a reference to. -/
theorem closeHeld
    {index : FileIndex}
    (balanced : Balanced (Function.update 0 index 1) kernel) {result : Unit}
    (run : (fileClose index).Runs kernel result after) :
    Balanced 0 after := by
  have closed := balanced.close run
  rw [Function.update_self, Function.update_idem] at closed
  have settled : Function.update (0 : FileIndex → Int) index (1 - 1) = 0 :=
    Function.update_eq_self index 0
  rwa [settled] at closed

/-- A file that was just opened has one reference and no descriptor. -/
theorem opened
    (balanced : Balanced 0 kernel) {index : FileIndex} {file : File}
    (unused : (kernel.ftable index).type = .unused)
    (used : file.type ≠ .unused) (single : file.ref = 1) :
    Balanced (Function.update 0 index 1) (kernel.setFile index file) := by
  have counted := balanced.count index
  rw [(balanced.unused index).mp unused] at counted
  apply balanced.setFile
  · simp [used, single]
  · rw [single, Function.update_self]
    simp only [UInt32.toNat_zero, Pi.zero_apply] at counted
    simp only [UInt32.toNat_one]
    omega
  · intro other different
    rw [Function.update_of_ne different]

end Balanced

/-! ## System calls -/

theorem fdTypeOf_ne_unused (type : UInt16) : fdTypeOf type ≠ .unused := by
  unfold fdTypeOf
  split_ifs <;> decide

theorem sysOpen_balanced
    (balanced : Balanced 0 kernel)
    {pid : Pid} {path : CString} {openMode : UInt32}
    {result : Option (Fin filePerProc)}
    (alive : (kernel.procs pid).state ≠ .unused)
    (run : (sysOpen pid path openMode).Runs kernel result after) :
    Balanced 0 after := by
  simp only [sysOpen, Program.runs_bind] at run
  obtain ⟨opened, middle, openRun, rest⟩ := run
  rcases fileOpen_runs openRun with ⟨fs, _, rfl, rfl⟩ |
    ⟨ip, _, fs₂, _, _, ⟨fs, _, rfl, rfl⟩ | ⟨fs, index, _, rfl, unused, rfl⟩⟩
  · rw [Program.runs_pure] at rest
    rw [← rest.2]
    exact balanced.setFs fs
  · rw [Program.runs_pure] at rest
    rw [← rest.2]
    exact balanced.setFs fs
  · have holding : Balanced (Function.update 0 index 1)
        ((kernel.setFs fs).setFile index (openedFile (kernel.ftable index) ip
          (fs₂.icache ip).data openMode)) :=
      (balanced.setFs fs).opened unused (fdTypeOf_ne_unused _) rfl
    simp only [Program.runs_bind] at rest
    obtain ⟨fd, _, allocRun, rest⟩ := rest
    rcases fdAlloc_runs allocRun with ⟨rfl, rfl, _⟩ | ⟨fd, rfl, free, rfl⟩
    · simp only [Program.runs_bind, Program.runs_pure] at rest
      obtain ⟨_, _, closeRun, _, rfl⟩ := rest
      exact holding.closeHeld closeRun
    · rw [Program.runs_pure] at rest
      rw [← rest.2]
      exact holding.fill alive free

theorem sysClose_balanced
    (balanced : Balanced 0 kernel)
    {pid : Pid} {fd : UInt32} {result : Bool}
    (run : (sysClose pid fd).Runs kernel result after) :
    Balanced 0 after := by
  simp only [sysClose, Program.runs_bind] at run
  obtain ⟨arg, _, argRun, rest⟩ := run
  obtain ⟨rfl, rfl | ⟨slot, index, rfl, _, found⟩⟩ := argFd_runs argRun
  · rw [Program.runs_pure] at rest
    rw [← rest.2]
    exact balanced
  · simp only [Program.runs_bind, runs_setFd, Program.runs_pure] at rest
    obtain ⟨_, _, rfl, _, _, closeRun, _, rfl⟩ := rest
    exact (balanced.empty found).closeHeld closeRun

/-- Duplicating a descriptor keeps the balance when there is room for it. -/
theorem sysDup_balanced
    (balanced : Balanced 0 kernel)
    {pid : Pid} {fd : UInt32} {result : Option (Fin filePerProc)}
    (alive : (kernel.procs pid).state ≠ .unused)
    (room : (∃ slot index, slot.val = fd.toNat ∧
        (kernel.procs pid).filelist slot = some index) →
      ∃ free, (kernel.procs pid).filelist free = none)
    (run : (sysDup pid fd).Runs kernel result after) :
    Balanced 0 after := by
  simp only [sysDup, Program.runs_bind] at run
  obtain ⟨arg, _, argRun, rest⟩ := run
  obtain ⟨rfl, rfl | ⟨slot, index, rfl, number, found⟩⟩ := argFd_runs argRun
  · rw [Program.runs_pure] at rest
    rw [← rest.2]
    exact balanced
  · simp only [Program.runs_bind, Program.runs_pure] at rest
    obtain ⟨newFd, _, allocRun, _, _, dupRun, _, rfl⟩ := rest
    rcases fdAlloc_runs allocRun with ⟨_, _, full⟩ | ⟨fd, _, free, rfl⟩
    · obtain ⟨empty, isFree⟩ := room ⟨slot, index, number, found⟩
      exact absurd isFree (full empty)
    · -- The descriptor is filled before the reference is taken.
      have owing : Balanced (Function.update 0 index (-1))
          (kernel.setFd pid fd (some index)) := by
        apply balanced.setFd (Or.inl alive)
        intro other
        by_cases same : other = index
        · simp [same, free]
        · simp [same, Ne.symm same, free]
      have settled := owing.dup (by simp) dupRun
      rw [Function.update_self, Function.update_idem] at settled
      have zero : Function.update (0 : FileIndex → Int) index (-1 + 1) = 0 :=
        Function.update_eq_self index 0
      rwa [zero] at settled

/-- Closing a descriptor of a process that goes away. -/
theorem closeFd_balanced
    (balanced : Balanced 0 kernel)
    {pid : Pid} {fd : Fin filePerProc} {result : Unit}
    (run : (closeFd pid fd).Runs kernel result after) :
    Balanced 0 after ∧
      after.procs = (kernel.setFd pid fd none).procs := by
  simp only [closeFd, Program.runs_bind, Program.runs_get] at run
  obtain ⟨_, _, ⟨rfl, rfl⟩, rest⟩ := run
  split at rest
  · next index found =>
    simp only [Program.runs_bind, runs_setFd] at rest
    obtain ⟨_, _, closeRun, rfl⟩ := rest
    have closed := balanced.close closeRun
    obtain ⟨_, fs, rfl, _⟩ := fileClose_runs closeRun
    refine ⟨?_, rfl⟩
    have emptied := closed.empty found
    rw [Function.update_self, Function.update_idem] at emptied
    have zero : Function.update (0 : FileIndex → Int) index
        ((0 : FileIndex → Int) index - 1 + 1) = 0 :=
      Function.update_eq_self index 0
    rwa [zero] at emptied
  · next empty =>
    rw [Program.runs_pure] at rest
    rw [← rest.2]
    refine ⟨balanced, ?_⟩
    have same : Function.update (kernel.procs pid).filelist fd none =
        (kernel.procs pid).filelist := by
      rw [← empty]
      exact Function.update_eq_self fd _
    simp only [Kernel.setFd, same]
    exact (Function.update_eq_self pid _).symm

/-- Giving back a process slot closes all of its descriptors. -/
theorem procFree_balanced
    (balanced : Balanced 0 kernel) {pid : Pid} {result : Unit}
    (run : (procFree pid).Runs kernel result after) :
    Balanced 0 after := by
  simp only [procFree, Program.runs_bind, Program.runs_modify] at run
  obtain ⟨_, _, rfl, _, middle, loop, rfl⟩ := run
  have orphaned : Balanced 0 (kernel.setProc pid
      ⟨(kernel.procs pid).state, none, (kernel.procs pid).filelist⟩) :=
    balanced.setProc rfl (balanced.idle pid)
  have closed : Balanced 0 middle ∧ ∀ fd, fd ∉ ([] : List (Fin filePerProc)) →
      (middle.procs pid).filelist fd = none := by
    refine Program.runs_forM_invariant (fun rest state => Balanced 0 state ∧
      ∀ fd, fd ∉ rest → (state.procs pid).filelist fd = none) ?_ ?_ loop
    · intro fd rest state state' invariant bodyRun
      obtain ⟨balanced', procs⟩ := closeFd_balanced invariant.1 bodyRun
      refine ⟨balanced', fun other notLeft => ?_⟩
      rw [procs]
      by_cases same : other = fd
      · simp [Kernel.setFd, same]
      · simpa [Kernel.setFd, same] using invariant.2 other (by
          simp [same, notLeft])
    · exact ⟨orphaned, fun fd outside =>
        absurd (List.mem_finRange fd) outside⟩
  exact closed.1.setProc rfl fun _ fd => closed.2 fd List.not_mem_nil

theorem procAlloc_balanced
    (balanced : Balanced 0 kernel) {memory : Bool} {result : Option Pid}
    (run : (procAlloc memory).Runs kernel result after) :
    Balanced 0 after ∧ ∀ child, result = some child →
      (kernel.procs child).state = .unused ∧ after = kernel.setProc child
        ⟨.runnable, (kernel.procs child).parent, fun _ => none⟩ := by
  simp only [procAlloc, Program.runs_bind, Program.runs_get] at run
  obtain ⟨_, _, ⟨rfl, rfl⟩, rest⟩ := run
  split at rest
  · rw [Program.runs_pure] at rest
    obtain ⟨rfl, rfl⟩ := rest
    exact ⟨balanced, by simp⟩
  · next pid found =>
    have unused := List.find?_some found
    simp only [decide_eq_true_eq] at unused
    have empty : (fun _ => none) = (kernel.procs pid).filelist :=
      funext fun fd => (balanced.idle pid unused fd).symm
    have taken : Balanced 0 (kernel.setProc pid
        ⟨.runnable, (kernel.procs pid).parent, fun _ => none⟩) :=
      balanced.setProc empty (by simp)
    simp only [Program.runs_bind, Program.runs_modify] at rest
    obtain ⟨_, _, rfl, rest⟩ := rest
    split at rest
    · rw [Program.runs_pure] at rest
      obtain ⟨rfl, rfl⟩ := rest
      refine ⟨taken, fun child isChild => ?_⟩
      obtain rfl := Option.some.inj isChild
      exact ⟨unused, rfl⟩
    · simp only [Program.runs_bind, Program.runs_pure] at rest
      obtain ⟨_, _, freeRun, rfl, rfl⟩ := rest
      exact ⟨procFree_balanced taken freeRun, by simp⟩

/-- Copying a descriptor to a new process. -/
theorem dupFd_balanced
    (balanced : Balanced 0 kernel)
    {curr child : Pid} {fd : Fin filePerProc} {result : Unit}
    (alive : (kernel.procs child).state ≠ .unused)
    (free : (kernel.procs child).filelist fd = none)
    (run : (dupFd curr child fd).Runs kernel result after) :
    Balanced 0 after ∧
      (after.procs child).state = (kernel.procs child).state ∧
      ∀ other, other ≠ fd → (after.procs child).filelist other =
        (kernel.procs child).filelist other := by
  simp only [dupFd, Program.runs_bind, Program.runs_get] at run
  obtain ⟨_, _, ⟨rfl, rfl⟩, rest⟩ := run
  split at rest
  · next index found =>
    simp only [Program.runs_bind, runs_setFd] at rest
    obtain ⟨_, _, dupRun, rfl⟩ := rest
    have holding := balanced.dup (by simp) dupRun
    obtain ⟨_, rfl⟩ := fileDup_runs dupRun
    refine ⟨holding.fill alive free, ?_, ?_⟩
    · simp [Kernel.setFd]
    · intro other different
      simp [Kernel.setFd, different]
  · rw [Program.runs_pure] at rest
    obtain ⟨_, rfl⟩ := rest
    exact ⟨balanced, rfl, fun _ _ => rfl⟩

theorem procFork_balanced
    (balanced : Balanced 0 kernel)
    {curr : Pid} {memory : Bool} {result : Option Pid}
    (run : (procFork curr memory).Runs kernel result after) :
    Balanced 0 after := by
  simp only [procFork, Program.runs_bind] at run
  obtain ⟨allocated, middle, allocRun, rest⟩ := run
  obtain ⟨balanced', child⟩ := procAlloc_balanced balanced allocRun
  cases allocated with
  | none =>
      rw [Program.runs_pure] at rest
      rw [← rest.2]
      exact balanced'
  | some child' =>
      obtain ⟨_, rfl⟩ := child child' rfl
      simp only [Program.runs_bind, Program.runs_modify,
        Program.runs_pure] at rest
      obtain ⟨_, copied, loop, _, _, rfl, _, rfl⟩ := rest
      have filled : Balanced 0 copied := by
        have invariant := Program.runs_forM_invariant
          (fun rest state => rest.Nodup ∧ Balanced 0 state ∧
            (state.procs child').state ≠ .unused ∧
            ∀ fd ∈ rest, (state.procs child').filelist fd = none)
          ?_ ?_ loop
        · exact invariant.2.1
        · rintro fd rest state state' ⟨nodup, kept, alive, free⟩ bodyRun
          obtain ⟨fresh, nodup'⟩ := List.nodup_cons.mp nodup
          obtain ⟨kept', sameState, others⟩ := dupFd_balanced kept alive
            (free fd List.mem_cons_self) bodyRun
          refine ⟨nodup', kept', by rwa [sameState], fun other left => ?_⟩
          have different : other ≠ fd := by
            rintro rfl
            exact fresh left
          rw [others other different]
          exact free other (List.mem_cons_of_mem _ left)
        · exact ⟨List.nodup_finRange _, balanced', by simp, by simp⟩
      exact filled.setProc rfl (by simp)

theorem procExit_balanced
    (balanced : Balanced 0 kernel) {curr : Pid} {result : Unit}
    (run : (procExit curr).Runs kernel result after) :
    Balanced 0 after := by
  simp only [procExit, Program.runs_bind, Program.runs_assert,
    Program.runs_modify] at run
  obtain ⟨_, _, ⟨_, rfl⟩, _, _, rfl, rfl⟩ := run
  have reparented : Balanced 0 ⟨kernel.fs, kernel.ftable, fun pid =>
      if (kernel.procs pid).parent = some curr then
        ⟨(kernel.procs pid).state, some procZero,
          (kernel.procs pid).filelist⟩
      else kernel.procs pid⟩ := by
    have sameTable : fdTable ⟨kernel.fs, kernel.ftable, fun pid =>
        if (kernel.procs pid).parent = some curr then
          ⟨(kernel.procs pid).state, some procZero,
            (kernel.procs pid).filelist⟩
        else kernel.procs pid⟩ = fdTable kernel := by
      funext slot
      simp only [fdTable]
      split <;> rfl
    constructor
    · intro index
      rw [fdCount_congr sameTable]
      exact balanced.count index
    · exact balanced.unused
    · intro pid
      have idle := balanced.idle pid
      simp only
      split <;> exact idle
  exact reparented.setProc rfl (by simp)

theorem procWait_balanced
    (balanced : Balanced 0 kernel)
    {curr : Pid} {result : Option (Option Pid)}
    (run : (procWait curr).Runs kernel result after) :
    Balanced 0 after := by
  simp only [procWait, Program.runs_bind, Program.runs_get] at run
  obtain ⟨_, _, ⟨rfl, rfl⟩, rest⟩ := run
  split at rest
  · simp only [Program.runs_bind, Program.runs_pure] at rest
    obtain ⟨_, _, freeRun, _, rfl⟩ := rest
    exact procFree_balanced balanced freeRun
  · split at rest
    · rw [Program.runs_pure] at rest
      rw [← rest.2]
      exact balanced
    · rw [Program.runs_pure] at rest
      rw [← rest.2]
      exact balanced

@[simp] theorem runs_ignoreResult
    {α : Type} {program : KernelM α} {result : Unit} :
    (ignoreResult program).Runs kernel result after ↔
      ∃ value, program.Runs kernel value after := by
  simp only [ignoreResult, Program.runs_bind, Program.runs_pure, true_and]
  constructor
  · rintro ⟨value, _, run, rfl⟩
    exact ⟨value, run⟩
  · rintro ⟨value, run⟩
    exact ⟨value, after, run, rfl⟩

/-- A call on a descriptor runs on the file of the descriptor or not at all. -/
theorem withFd_runs
    {α : Type} {pid : Pid} {fd : UInt32} {call : FileIndex → KernelM α}
    {result : Option α}
    (run : (withFd pid fd call).Runs kernel result after) :
    kernel = after ∨ ∃ slot index value,
      (kernel.procs pid).filelist slot = some index ∧
        (call index).Runs kernel value after := by
  simp only [withFd, Program.runs_bind] at run
  obtain ⟨arg, _, argRun, rest⟩ := run
  obtain ⟨rfl, rfl | ⟨slot, index, rfl, _, found⟩⟩ := argFd_runs argRun
  · rw [Program.runs_pure] at rest
    exact Or.inl rest.2
  · simp only [Program.runs_bind, Program.runs_pure] at rest
    obtain ⟨value, _, callRun, _, rfl⟩ := rest
    exact Or.inr ⟨slot, index, value, found, callRun⟩

/-- A change of an open file that keeps its kind, references and inode. -/
def SameFile (file file' : File) : Prop :=
  file'.type = file.type ∧ file'.ref = file.ref ∧ file'.ip = file.ip

/-- Two kernels with the same processes whose open files have the same kinds,
references and inodes. -/
def SameTables (kernel after : Kernel) : Prop :=
  after.procs = kernel.procs ∧
    ∀ index, SameFile (kernel.ftable index) (after.ftable index)

theorem SameTables.refl (kernel : Kernel) : SameTables kernel kernel :=
  ⟨rfl, fun _ => ⟨rfl, rfl, rfl⟩⟩

theorem SameTables.setFs (kernel : Kernel) (fs : State) :
    SameTables kernel (kernel.setFs fs) :=
  ⟨rfl, fun _ => ⟨rfl, rfl, rfl⟩⟩

theorem SameTables.setFile
    (same : SameTables kernel after) {index : FileIndex} {file : File}
    (sameFile : SameFile (after.ftable index) file) :
    SameTables kernel (after.setFile index file) := by
  refine ⟨same.1, fun other => ?_⟩
  obtain ⟨type, ref, ip⟩ := same.2 other
  by_cases equal : other = index
  · subst equal
    simp only [Kernel.setFile_ftable, Function.update_self]
    exact ⟨sameFile.1.trans type, sameFile.2.1.trans ref,
      sameFile.2.2.trans ip⟩
  · simp only [Kernel.setFile_ftable, Function.update_of_ne equal]
    exact ⟨type, ref, ip⟩

theorem Balanced.sameTables
    {extra : FileIndex → Int}
    (balanced : Balanced extra kernel) (same : SameTables kernel after) :
    Balanced extra after := by
  have sameTable : fdTable after = fdTable kernel := by
    unfold fdTable
    rw [same.1]
  constructor
  · intro index
    rw [fdCount_congr sameTable, (same.2 index).2.1]
    exact balanced.count index
  · intro index
    rw [(same.2 index).1, (same.2 index).2.1]
    exact balanced.unused index
  · rw [same.1]
    exact balanced.idle

@[simp] theorem runs_fileIp
    {file : File} {result : Slot} :
    (fileIp file).Runs kernel result after ↔
      file.ip = some result ∧ kernel = after := by
  unfold fileIp
  cases file.ip <;> simp

@[simp] theorem runs_advance
    {index : FileIndex} {count : UInt32} {result : Unit} :
    (advance index count).Runs kernel result after ↔
      kernel.setFile index ⟨(kernel.ftable index).type,
        (kernel.ftable index).readable, (kernel.ftable index).writable,
        (kernel.ftable index).ref, (kernel.ftable index).major,
        (kernel.ftable index).offset + count,
        (kernel.ftable index).ip⟩ = after := by
  simp [advance]

theorem fileRead_sameTables
    {index : FileIndex} {len result : UInt32}
    (run : (fileRead index len).Runs kernel result after) :
    SameTables kernel after := by
  simp only [fileRead, Program.runs_bind, runs_getFile] at run
  obtain ⟨_, _, ⟨rfl, rfl⟩, rest⟩ := run
  split at rest
  · rw [Program.runs_pure] at rest
    rw [← rest.2]
    exact SameTables.refl _
  · split at rest
    · simp only [Program.runs_bind, runs_fileIp, runs_onFs,
        Program.runs_pure] at rest
      obtain ⟨_, _, ⟨_, rfl⟩, _, _, ⟨_, _, rfl⟩, _, _, ⟨_, _, rfl⟩, _, _,
        ⟨_, _, rfl⟩, _, rfl⟩ := rest
      exact SameTables.setFs _ _
    · simp only [Program.runs_bind, runs_fileIp, runs_onFs, runs_advance,
        Program.runs_pure] at rest
      obtain ⟨_, _, ⟨_, rfl⟩, _, _, ⟨_, _, rfl⟩, _, _, ⟨_, _, rfl⟩, _, _,
        rfl, _, _, ⟨_, _, rfl⟩, _, rfl⟩ := rest
      exact (SameTables.setFs _ _).setFile ⟨rfl, rfl, rfl⟩
    · rw [Program.runs_pure] at rest
      rw [← rest.2]
      exact SameTables.refl _
    · rw [Program.runs_pure] at rest
      rw [← rest.2]
      exact SameTables.refl _

theorem fileWrite_sameTables
    {index : FileIndex} {len result : UInt32} {src : Bytes}
    (run : (fileWrite index len src).Runs kernel result after) :
    SameTables kernel after := by
  simp only [fileWrite, Program.runs_bind, runs_getFile] at run
  obtain ⟨_, _, ⟨rfl, rfl⟩, rest⟩ := run
  split at rest
  · rw [Program.runs_pure] at rest
    rw [← rest.2]
    exact SameTables.refl _
  · split at rest
    · simp only [Program.runs_bind, runs_fileIp, runs_onFs, runs_advance,
        Program.runs_pure] at rest
      obtain ⟨_, _, ⟨_, rfl⟩, _, _, ⟨_, _, rfl⟩, _, _, ⟨_, _, rfl⟩, _, _,
        rfl, _, _, ⟨_, _, rfl⟩, _, rfl⟩ := rest
      exact (SameTables.setFs _ _).setFile ⟨rfl, rfl, rfl⟩
    all_goals
      rw [Program.runs_pure] at rest
      rw [← rest.2]
      exact SameTables.refl _

theorem fileLseek_sameTables
    {index : FileIndex} {offset flags : UInt32} {result : Option UInt32}
    (run : (fileLseek index offset flags).Runs kernel result after) :
    SameTables kernel after := by
  simp only [fileLseek, Program.runs_bind, runs_getFile] at run
  obtain ⟨_, _, ⟨rfl, rfl⟩, rest⟩ := run
  split at rest
  · rw [Program.runs_pure] at rest
    rw [← rest.2]
    exact SameTables.refl _
  · split at rest
    · simp only [Program.runs_bind, runs_modifyFile,
        Program.runs_pure] at rest
      obtain ⟨_, _, rfl, _, rfl⟩ := rest
      exact (SameTables.refl _).setFile ⟨rfl, rfl, rfl⟩
    · rw [Program.runs_pure] at rest
      rw [← rest.2]
      exact SameTables.refl _

theorem fileStat_sameTables
    {index : FileIndex} {result : Option Inode}
    (run : (fileStat index).Runs kernel result after) :
    SameTables kernel after := by
  simp only [fileStat, Program.runs_bind, runs_getFile] at run
  obtain ⟨_, _, ⟨rfl, rfl⟩, rest⟩ := run
  split at rest
  · simp only [Program.runs_bind, runs_fileIp, runs_onFs, runs_getInode,
      Program.runs_pure] at rest
    obtain ⟨_, _, ⟨_, rfl⟩, _, _, ⟨_, _, rfl⟩, _, _, ⟨_, ⟨_, rfl⟩, rfl⟩, _,
      _, ⟨_, _, rfl⟩, _, rfl⟩ := rest
    exact SameTables.setFs _ _
  · rw [Program.runs_pure] at rest
    rw [← rest.2]
    exact SameTables.refl _

/-- The calls other than opening, closing and duplicating descriptors, and
those of the process table, leave the tables alone. -/
theorem withFd_sameTables
    {α : Type} {pid : Pid} {fd : UInt32} {call : FileIndex → KernelM α}
    {result : Option α}
    (same : ∀ index value, (call index).Runs kernel value after →
      SameTables kernel after)
    (run : (withFd pid fd call).Runs kernel result after) :
    SameTables kernel after := by
  rcases withFd_runs run with rfl | ⟨_, index, value, _, callRun⟩
  · exact SameTables.refl _
  · exact same index value callRun

/-- A process duplicates a descriptor only when it has room for another. -/
def DupHasRoom (kernel : Kernel) (action : Pid × SysCall) : Prop :=
  match action.2 with
  | .dup fd =>
      (∃ slot index, slot.val = fd.toNat ∧
        (kernel.procs action.1).filelist slot = some index) →
      ∃ free, (kernel.procs action.1).filelist free = none
  | _ => True

/-- Every system call keeps the balance, duplicating only with room. -/
theorem Balanced.step
    (balanced : Balanced 0 kernel) {action : Pid × SysCall}
    (room : DupHasRoom kernel action)
    (taken : CallStep kernel action after) :
    Balanced 0 after := by
  obtain ⟨pid, call⟩ := action
  obtain ⟨alive, run⟩ := taken
  cases call with
  | «open» path openMode =>
      obtain ⟨_, run⟩ := runs_ignoreResult.mp run
      exact sysOpen_balanced balanced alive.1 run
  | close fd =>
      obtain ⟨_, run⟩ := runs_ignoreResult.mp run
      exact sysClose_balanced balanced run
  | read fd len =>
      obtain ⟨_, run⟩ := runs_ignoreResult.mp run
      exact balanced.sameTables (withFd_sameTables (fun _ _ callRun =>
        fileRead_sameTables callRun) run)
  | write fd len src =>
      obtain ⟨_, run⟩ := runs_ignoreResult.mp run
      exact balanced.sameTables (withFd_sameTables (fun _ _ callRun =>
        fileWrite_sameTables callRun) run)
  | lseek fd offset flags =>
      obtain ⟨_, run⟩ := runs_ignoreResult.mp run
      exact balanced.sameTables (withFd_sameTables (fun _ _ callRun =>
        fileLseek_sameTables callRun) run)
  | dup fd =>
      obtain ⟨_, run⟩ := runs_ignoreResult.mp run
      exact sysDup_balanced balanced alive.1 room run
  | fstat fd =>
      obtain ⟨_, run⟩ := runs_ignoreResult.mp run
      exact balanced.sameTables (withFd_sameTables (fun _ _ callRun =>
        fileStat_sameTables callRun) run)
  | getdir fd len =>
      obtain ⟨_, run⟩ := runs_ignoreResult.mp run
      refine balanced.sameTables (withFd_sameTables (fun _ _ callRun => ?_)
        run)
      simp only [Program.runs_bind, runs_getFile] at callRun
      obtain ⟨_, _, ⟨rfl, rfl⟩, rest⟩ := callRun
      split at rest
      · simp only [Program.runs_bind, runs_onFs, Program.runs_pure] at rest
        obtain ⟨_, _, ⟨_, _, rfl⟩, _, _, ⟨_, _, rfl⟩, _, _, ⟨_, _, rfl⟩, _,
          rfl⟩ := rest
        exact SameTables.setFs _ _
      · rw [Program.runs_pure] at rest
        rw [← rest.2]
        exact SameTables.refl _
  | mkdir path =>
      simp only [SysCall.program, sysMkdir, runs_ignoreResult,
        Program.runs_bind, runs_onFs, Program.runs_pure] at run
      obtain ⟨_, _, _, ⟨_, _, rfl⟩, _, rfl⟩ := run
      exact balanced.setFs _
  | chdir path =>
      simp only [SysCall.program, sysChdir, runs_ignoreResult,
        runs_onFs] at run
      obtain ⟨_, _, _, rfl⟩ := run
      exact balanced.setFs _
  | link oldPath newPath =>
      simp only [SysCall.program, sysLink, runs_ignoreResult,
        runs_onFs] at run
      obtain ⟨_, _, _, rfl⟩ := run
      exact balanced.setFs _
  | unlink path =>
      simp only [SysCall.program, sysUnlink, runs_ignoreResult,
        runs_onFs] at run
      obtain ⟨_, _, _, rfl⟩ := run
      exact balanced.setFs _
  | fork memory =>
      obtain ⟨_, run⟩ := runs_ignoreResult.mp run
      exact procFork_balanced balanced run
  | exit => exact procExit_balanced balanced run
  | wait =>
      obtain ⟨_, run⟩ := runs_ignoreResult.mp run
      exact procWait_balanced balanced run

/-- No open files and no descriptors, on any file system. -/
def NoFiles (kernel : Kernel) : Prop :=
  (∀ index, (kernel.ftable index).type = .unused ∧
    (kernel.ftable index).ref = 0) ∧
    ∀ pid fd, (kernel.procs pid).filelist fd = none

/-- Processes making system calls. -/
def callSystem : TransitionSystem Kernel (Pid × SysCall) where
  Init := NoFiles
  Step := CallStep

/-- The count of every open file is the number of descriptors that point to
it, and an entry is unused exactly when that number is zero. -/
def Counted (kernel : Kernel) : Prop :=
  ∀ index, (kernel.ftable index).ref.toNat = fdCount kernel index ∧
    ((kernel.ftable index).type = .unused ↔ fdCount kernel index = 0)

theorem Balanced.counted (balanced : Balanced 0 kernel) : Counted kernel := by
  intro index
  have count := balanced.count index
  simp only [Pi.zero_apply, add_zero, Nat.cast_inj] at count
  refine ⟨count, ?_⟩
  rw [balanced.unused, ← count, ← UInt32.toNat_inj]
  rfl

theorem NoFiles.balanced (none : NoFiles kernel) : Balanced 0 kernel := by
  constructor
  · intro index
    have empty : fdCount kernel index = 0 := by
      unfold fdCount
      rw [countEntries_eq_zero]
      intro slot
      simp [fdTable, none.2]
    rw [empty, (none.1 index).2]
    rfl
  · intro index
    simp [none.1 index]
  · intro pid _
    exact none.2 pid

/-- In every run of system calls in which descriptors are duplicated only into
tables with room, the reference counts of open files are exact. -/
theorem openFiles_counted
    {kernel : Kernel}
    (reachable : callSystem.ReachableBy DupHasRoom kernel) :
    Counted kernel := by
  have balanced : Balanced 0 kernel := by
    apply reachable.invariant
    · intro start none
      exact none.balanced
    · intro before action after balanced room taken
      exact balanced.step room taken
  exact balanced.counted

/-! ## Concrete runs -/

/-- The kernel after a list of calls, if none of them panics. -/
def runCalls (kernel : Kernel) : List (Pid × SysCall) → Option Kernel
  | [] => some kernel
  | action :: rest =>
      if kernel.Alive action.1 then
        match (action.2.program action.1).exec kernel with
        | .ok (_, after) => runCalls after rest
        | .error _ => none
      else
        none

/-- A list of calls that ends is a run. -/
theorem reachable_of_runCalls
    {system : TransitionSystem Kernel (Pid × SysCall)}
    (steps : system.Step = CallStep)
    {guard : Kernel → Pid × SysCall → Prop} {actions : List (Pid × SysCall)}
    (allowed : ∀ action ∈ actions, ∀ state, guard state action)
    (reachable : system.ReachableBy guard kernel)
    (run : runCalls kernel actions = some after) :
    system.ReachableBy guard after := by
  induction actions generalizing kernel with
  | nil =>
      rw [← Option.some.inj run]
      exact reachable
  | cons action rest inductionHypothesis =>
      unfold runCalls at run
      split at run
      · next alive =>
        split at run
        · next value middle outcome =>
          apply inductionHypothesis
            (fun other member => allowed other (List.mem_cons_of_mem _ member))
            (reachable.step (allowed action List.mem_cons_self kernel) ?_) run
          rw [steps]
          exact ⟨alive, outcome⟩
        · cases run
      · cases run

theorem noFiles_bootKernel (junk : Block) : NoFiles (bootKernel junk) :=
  ⟨fun _ => ⟨rfl, rfl⟩, fun _ _ => rfl⟩

/-- The path of the root directory. -/
def rootPath : CString := ⟨[47], by decide⟩

/-- The counts after the first process opened the root directory. -/
theorem openFiles_counted_root :
    ∃ kernel, Counted kernel ∧ (kernel.ftable 0).ref = 1 := by
  have evaluated : ((runCalls (bootKernel zeroBlock)
      [(0, .open rootPath 2)]).any fun kernel =>
        (kernel.ftable 0).ref = 1) = true := by
    decide +kernel
  obtain ⟨kernel, run, single⟩ := (Option.any_eq_true _ _).mp evaluated
  have reachable : callSystem.ReachableBy DupHasRoom kernel := by
    apply reachable_of_runCalls rfl _ (.init (noFiles_bootKernel zeroBlock)) run
    intro action member state
    obtain rfl := List.mem_singleton.mp member
    trivial
  exact ⟨kernel, openFiles_counted reachable, by simpa using single⟩

/-- Descriptor 0 duplicated until the table of 16 descriptors is full, and once
more: 17 references for 16 descriptors. -/
theorem openFiles_dup_full_table :
    ¬∀ kernel, callSystem.Reachable kernel → Counted kernel := by
  intro claim
  have evaluated : ((runCalls (bootKernel zeroBlock)
      ((0, .open rootPath 2) :: List.replicate 16 (0, .dup 0))).any
        fun kernel => (kernel.ftable 0).ref = 17 ∧
          fdCount kernel 0 = 16) = true := by
    decide +kernel
  obtain ⟨kernel, run, counts⟩ := (Option.any_eq_true _ _).mp evaluated
  simp only [decide_eq_true_eq] at counts
  have reachable : callSystem.Reachable kernel := by
    apply reachable_of_runCalls rfl _ (.init (noFiles_bootKernel zeroBlock)) run
    intros
    trivial
  have counted := (claim kernel reachable 0).1
  rw [counts.1, counts.2] at counted
  exact absurd counted (by decide)

end Fs
end WhuOs
