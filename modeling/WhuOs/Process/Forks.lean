import WhuOs.Process.Memory
import WhuOs.Process.Tree

/-!
# Chains of forks

Processes fork, move the top of their heap and compute.  In every state that is
reached the user pages of a process belong to it alone.  A fork copies the pages
below the top of the heap and the pages of the stack that the process knows of,
but the child does not learn how many stack pages it has.
-/

namespace WhuOs
namespace Process

open Library
open Library.Bytes
open Mem
open Program (Runs)

/-! ## Runs -/

/-- Memory after the boot code: the free lists hold pages of the memory, and no
slot is used. -/
structure Booted (state : State) : Prop where
  procs : state.procs = fun _ => emptyProc
  memory : ∃ free, FreeLists state.mem free ∧
    ∀ inKernel, ∀ page ∈ free inKernel, InRam page

/-- A page a process may write to: its trapframe or a page of its address
space. -/
def OwnPage (state : State) (curr : Pid) (page : UInt64) : Prop :=
  page = (state.procs curr).tf ∨ ∃ va < trapframeVa,
    isValid (pteAt state.mem.bytes (state.procs curr).pgtbl va) = true ∧
    page = pteToPa (pteAt state.mem.bytes (state.procs curr).pgtbl va)

/-- What a process does. -/
inductive ForkCall
  | fork
  | brk (newBrk : UInt64)
  | compute

/-- One step of a process.  A process that computes may write to its own
pages. -/
inductive ForkStep : State → Pid × ForkCall → State → Prop
  | fork {before after : State} {curr : Pid} {pid : Int} :
      (before.procs curr).state ≠ .unused →
      (procFork curr).Runs before pid after →
      ForkStep before (curr, .fork) after
  | brk {before after : State} {curr : Pid} {newBrk result : UInt64} :
      (before.procs curr).state ≠ .unused →
      (sysBrk curr newBrk).Runs before result after →
      ForkStep before (curr, .brk newBrk) after
  | compute {before : State} {curr : Pid} {page : UInt64} {bytes : Bytes} :
      (before.procs curr).state ≠ .unused →
      OwnPage before curr page →
      ChangedIn page before.mem.bytes bytes →
      ForkStep before (curr, .compute)
        (before.setMem (before.mem.setBytes bytes))

/-- Runs from the first process on. -/
def forkSystem : TransitionSystem State (Pid × ForkCall) where
  Init state := ∃ boot before, Booted before ∧
    (procMakeFirst boot).Runs before () state
  Step := ForkStep

/-! ## The invariant -/

/-- The page tables of the processes. -/
def pgtbls (state : State) (slot : Pid) : UInt64 := (state.procs slot).pgtbl

/-- Every page belongs to one process, the pages below the top of a heap are
mapped, and only the first process knows of stack pages. -/
structure ForksHold (state : State) (free : Bool → List UInt64)
    (held : Holder Pid → UInt64) : Prop where
  user : UserMem state.mem (pgtbls state) free held
  trapframe : ∀ slot, held (.trapframe slot) = (state.procs slot).tf
  used : ∀ slot, (state.procs slot).state ≠ .unused →
    (state.procs slot).pgtbl ≠ 0 ∧ (state.procs slot).tf ≠ 0
  unused : ∀ slot, (state.procs slot).state = .unused →
    (state.procs slot).pgtbl = 0 ∧ (state.procs slot).tf = 0
  heap : ∀ slot, (state.procs slot).state ≠ .unused →
    ∀ va, Between 12288 (pageAlign (state.procs slot).heapTop) (pageOf va) →
      isValid (pteAt state.mem.bytes (state.procs slot).pgtbl va) = true
  low : ∀ slot, (state.procs slot).state ≠ .unused →
    (state.procs slot).heapTop.toNat ≤ 2 ^ 30
  stack : ∀ slot, (state.procs slot).ustackPages =
    if slot = procZero then 2 else 0
  zero : (state.procs procZero).state ≠ .unused

theorem pageOf_of_lt_trapframe {va : UInt64} (below : va < trapframeVa) :
    pageOf va < userPages := by
  have limit : trapframeVa.toNat = 4096 * (2 ^ 26 - 2) := rfl
  rw [UInt64.lt_iff_toNat_lt, limit] at below
  unfold pageOf userPages
  omega

/-- Page tables without roots. -/
theorem tables_none {ρ : Type} (bytes : Bytes) (free : Bool → List UInt64) :
    Tables bytes (fun _ : ρ => 0) free := by
  have nothing : ∀ path, tableAt bytes 0 path = 0 :=
    fun path => Forest.value_null path
  refine ⟨fun _ => aligned_zero, ⟨fun _ path _ present => ?_,
    fun _ _ path _ _ _ present _ => ?_⟩, fun _ path _ _ present _ => ?_⟩
  · exact absurd (nothing path) present
  · exact absurd (nothing path) present
  · exact absurd (nothing path) present

theorem userMem_none
    {mem : Mem.State} {free : Bool → List UInt64} (lists : FreeLists mem free)
    (inRam : ∀ inKernel, ∀ page ∈ free inKernel, InRam page) :
    UserMem mem (fun _ : Pid => 0) free (fun _ => 0) := by
  refine ⟨⟨lists, tables_none _ _, inRam, ?_, ?_, ?_, ?_⟩, ?_, rfl⟩
  · exact fun _ some => absurd rfl some
  · exact fun _ some => absurd rfl some
  · exact fun _ some => absurd rfl some
  · exact fun _ _ some => absurd rfl some
  · intro r va _
    have none : pteAt mem.bytes 0 va = 0 := if_pos (Forest.value_null _)
    rw [none]
    exact ⟨rfl, nofun⟩

namespace ForksHold

variable {state final : State} {free : Bool → List UInt64}
  {held : Holder Pid → UInt64}

/-- A state with one process. -/
theorem single
    {proc : Proc}
    (procs : state.procs = Function.update (fun _ => emptyProc) procZero proc)
    (runnable : proc.state = .runnable) (pgtblSome : proc.pgtbl ≠ 0)
    (tfSome : proc.tf ≠ 0) (heapTop : proc.heapTop = 12288)
    (ustackPages : proc.ustackPages = 2)
    (user : UserMem state.mem
      (Function.update (fun _ => 0) procZero proc.pgtbl) free held)
    (trapframes : ∀ slot, held (.trapframe slot) = Function.update
      (fun _ : Holder Pid => (0 : UInt64)) (.trapframe procZero) proc.tf
        (.trapframe slot)) :
    ForksHold state free held := by
  have zero : state.procs procZero = proc := by
    rw [procs, Function.update_self]
  have others : ∀ slot, slot ≠ procZero → state.procs slot = emptyProc := by
    intro slot differs
    rw [procs, Function.update_of_ne differs]
  have onlyZero : ∀ slot, (state.procs slot).state ≠ .unused →
      slot = procZero := by
    intro slot isUsed
    by_contra differs
    rw [others slot differs] at isUsed
    exact isUsed rfl
  have roots : pgtbls state =
      Function.update (fun _ => 0) procZero proc.pgtbl := by
    funext slot
    unfold pgtbls
    by_cases same : slot = procZero
    · rw [same, zero, Function.update_self]
    · rw [others slot same, Function.update_of_ne same]
      rfl
  rw [← roots] at user
  refine ⟨user, fun slot => ?_, fun slot isUsed => ?_, fun slot isUnused => ?_,
    fun slot isUsed va inside => ?_, fun slot isUsed => ?_, fun slot => ?_, ?_⟩
  · rw [trapframes]
    by_cases same : slot = procZero
    · rw [same, zero, Function.update_self]
    · have differs : Holder.trapframe slot ≠ .trapframe procZero :=
        fun equal => same (Holder.trapframe.inj equal)
      rw [others slot same, Function.update_of_ne differs]
      rfl
  · rw [onlyZero slot isUsed, zero]
    exact ⟨pgtblSome, tfSome⟩
  · by_cases same : slot = procZero
    · rw [same, zero, runnable] at isUnused
      cases isUnused
    · rw [others slot same]
      exact ⟨rfl, rfl⟩
  · rw [onlyZero slot isUsed, zero, heapTop] at inside
    have top : (pageAlign 12288).toNat = 12288 := rfl
    have first : (12288 : UInt64).toNat = 12288 := rfl
    unfold Between at inside
    omega
  · rw [onlyZero slot isUsed, zero, heapTop]
    decide
  · by_cases same : slot = procZero
    · rw [same, zero, ustackPages, if_pos rfl]
    · rw [others slot same, if_neg same]
      rfl
  · rw [zero, runnable]
    exact nofun

/-- The first process after `proc_make_first`. -/
theorem first
    {boot : BootData} (booted : Booted state)
    (run : (procMakeFirst boot).Runs state () final) :
    ∃ free held, ForksHold final free held ∧
      held (.user procZero (pageOf 4096)) ≠ 0 ∧
      ∀ slot, (final.procs slot).state ≠ .unused →
        slot = procZero ∧ (final.procs slot).heapTop = 12288 := by
  obtain ⟨free, lists, inRam⟩ := booted.memory
  simp only [procMakeFirst, Program.runs_bind, Program.runs_get, runs_onMem,
    Program.runs_assert, runs_modifyProc, decide_eq_true_eq] at run
  obtain ⟨_, _, ⟨rfl, rfl⟩, pid, _, allocPid, tf, _, ⟨mem₁, allocTf, rfl⟩, _, _,
    ⟨tfSome, rfl⟩, pgtbl, _, ⟨mem₂, init, rfl⟩, _, _, ⟨pgtblSome, rfl⟩, _, _,
    ⟨mem₃, fills, rfl⟩, rfl⟩ := run
  obtain ⟨_, rfl, rfl⟩ := allocPid_runs allocPid
  obtain ⟨_, free₁, user₁⟩ := (userMem_none lists inRam).alloc_trapframe
    procZero tfSome allocTf
  have isTf : Function.update (fun _ : Holder Pid => (0 : UInt64))
      (.trapframe procZero) tf (.trapframe procZero) = tf :=
    Function.update_self _ _ _
  rcases procPgtblInit_user (r := procZero) user₁ rfl init with
    ⟨null, _⟩ | ⟨_, free₂, user₂, _⟩
  · exact absurd null pgtblSome
  have isRoot : Function.update (fun _ : Pid => (0 : UInt64)) procZero pgtbl
      procZero = pgtbl := Function.update_self _ _ _
  rw [← isTf, ← isRoot] at fills
  obtain ⟨free₃, held₃, user₃, trapframes, code⟩ := makeFirstMemory_user user₂
    (by rw [isRoot]; exact pgtblSome) (by rw [isTf]; exact tfSome) fills
  refine ⟨free₃, held₃, single (congrArg (Function.update · procZero _)
    booted.procs) rfl pgtblSome tfSome rfl rfl user₃ trapframes, code,
    fun slot isUsed => ?_⟩
  by_cases same : slot = procZero
  · rw [same, setProc_procs_self]
    exact ⟨rfl, rfl⟩
  · rw [setProc_procs_of_ne same] at isUsed
    exact absurd (congrArg (fun procs => (procs slot).state) booted.procs)
      isUsed

/-! ## Steps of one process -/

variable {mem' : Mem.State} {free' : Bool → List UInt64}
  {held' : Holder Pid → UInt64} {curr : Pid}

/-- Some user pages of one process are worked on and the top of its heap is
moved. -/
theorem touch
    (holds : ForksHold state free held) {pages : Nat → Prop}
    (user : UserMem mem' (pgtbls state) free' held')
    (touches : Touches (pgtbls state) curr pages state.mem held mem' held')
    {heapTop : UInt64}
    (heap : ∀ va, Between 12288 (pageAlign heapTop) (pageOf va) →
      isValid (pteAt mem'.bytes (pgtbls state curr) va) = true)
    (low : heapTop.toNat ≤ 2 ^ 30) :
    ForksHold ((state.setMem mem').setProc curr
      ((state.procs curr).setHeapTop heapTop)) free' held' := by
  have self := @setProc_procs_self (state.setMem mem') curr
    ((state.procs curr).setHeapTop heapTop)
  have others : ∀ slot, slot ≠ curr → ((state.setMem mem').setProc curr
      ((state.procs curr).setHeapTop heapTop)).procs slot =
        state.procs slot :=
    fun slot differs => setProc_procs_of_ne differs _
  have roots : pgtbls ((state.setMem mem').setProc curr
      ((state.procs curr).setHeapTop heapTop)) = pgtbls state := by
    funext slot
    unfold pgtbls
    by_cases same : slot = curr
    · rw [same, self]
      rfl
    · rw [others slot same]
  refine ⟨?_, fun slot => ?_, fun slot => ?_, fun slot => ?_,
    fun slot isUsed va inside => ?_, fun slot => ?_, fun slot => ?_, ?_⟩
  · rw [roots]
    exact user
  · have kept := (touches.holders (.trapframe slot) nofun
      (fun _ _ => nofun)).1
    rw [kept, holds.trapframe]
    by_cases same : slot = curr
    · rw [same, self]
      rfl
    · rw [others slot same]
  · by_cases same : slot = curr
    · rw [same, self]
      exact holds.used curr
    · rw [others slot same]
      exact holds.used slot
  · by_cases same : slot = curr
    · rw [same, self]
      exact holds.unused curr
    · rw [others slot same]
      exact holds.unused slot
  · by_cases same : slot = curr
    · subst same
      rw [self] at inside ⊢
      exact heap va inside
    · rw [others slot same] at isUsed inside ⊢
      have kept := touches.ptes slot va fun both => same both.1
      rw [State.setProc_mem, State.setMem_mem]
      exact (congrArg isValid kept).trans (holds.heap slot isUsed va inside)
  · by_cases same : slot = curr
    · rw [same, self]
      exact fun _ => low
    · rw [others slot same]
      exact holds.low slot
  · by_cases same : slot = curr
    · rw [same, self]
      exact holds.stack curr
    · rw [others slot same]
      exact holds.stack slot
  · by_cases same : procZero = curr
    · rw [same, self, ← same]
      exact holds.zero
    · rw [others procZero same]
      exact holds.zero

/-- Some user pages of one process are worked on. -/
theorem touch_memory
    (holds : ForksHold state free held) {pages : Nat → Prop}
    (isUsed : (state.procs curr).state ≠ .unused)
    (user : UserMem mem' (pgtbls state) free' held')
    (touches : Touches (pgtbls state) curr pages state.mem held mem' held')
    (above : ∀ va, pages (pageOf va) → ¬Between 12288
      (pageAlign (state.procs curr).heapTop) (pageOf va)) :
    ForksHold (state.setMem mem') free' held' := by
  have heap : ∀ va, Between 12288 (pageAlign (state.procs curr).heapTop)
      (pageOf va) →
      isValid (pteAt mem'.bytes (pgtbls state curr) va) = true := by
    intro va inside
    rw [touches.ptes curr va fun both => above va both.2 inside]
    exact holds.heap curr isUsed va inside
  have touched := holds.touch user touches heap (holds.low curr isUsed)
  have same : (state.setMem mem').setProc curr ((state.procs curr).setHeapTop
      (state.procs curr).heapTop) = state.setMem mem' := by
    unfold State.setProc
    rw [show (state.procs curr).setHeapTop (state.procs curr).heapTop =
      (state.setMem mem').procs curr from rfl, Function.update_eq_self]
  rw [same] at touched
  exact touched

/-- Somebody holds the pages of a process. -/
theorem ownPage_held
    (holds : ForksHold state free held)
    (isUsed : (state.procs curr).state ≠ .unused) {page : UInt64}
    (own : OwnPage state curr page) :
    ∃ holder, page = held holder ∧ held holder ≠ 0 := by
  rcases own with rfl | ⟨va, below, valid, rfl⟩
  · refine ⟨.trapframe curr, (holds.trapframe curr).symm, ?_⟩
    rw [holds.trapframe]
    exact (holds.used curr isUsed).2
  · have isUser := pageOf_of_lt_trapframe below
    exact ⟨.user curr (pageOf va), holds.user.pteToPa_eq isUser valid,
      (holds.user.backed curr va isUser).2 valid⟩

/-- A process computes. -/
theorem compute
    (holds : ForksHold state free held)
    (isUsed : (state.procs curr).state ≠ .unused) {page : UInt64}
    (own : OwnPage state curr page) {bytes : Bytes}
    (changed : ChangedIn page state.mem.bytes bytes) :
    ForksHold (state.setMem (state.mem.setBytes bytes)) free held := by
  obtain ⟨holder, rfl, some⟩ := holds.ownPage_held isUsed own
  have kept := holds.user.pteAt_write some changed
  refine ⟨holds.user.write some changed, holds.trapframe, holds.used,
    holds.unused, fun slot isUsed' va inside => ?_, holds.low, holds.stack,
    holds.zero⟩
  exact (congrArg isValid (kept slot va)).trans
    (holds.heap slot isUsed' va inside)

theorem first_toNat : (12288 : UInt64).toNat = 12288 := rfl

/-- A heap cannot be larger than the memory. -/
theorem heapTop_le
    (user : UserMem mem' (pgtbls state) free' held') {heapTop : UInt64}
    (bound : heapTop.toNat ≤ 2 ^ 33)
    (heap : ∀ va, Between 12288 (pageAlign heapTop) (pageOf va) →
      isValid (pteAt mem'.bytes (pgtbls state curr) va) = true) :
    heapTop.toNat ≤ 2 ^ 30 := by
  have top := pageAlign_toNat (show heapTop.toNat + 4095 < 2 ^ 64 by omega)
  have isUser : (pageAlign heapTop).toNat / 4096 ≤ userPages := by
    unfold userPages
    omega
  have count := user.count_le 3 _ isUser fun va atLeast less =>
    heap va ⟨by rw [first_toNat]; omega, by omega⟩
  omega

/-- `sys_brk`. -/
theorem brk
    (holds : ForksHold state free held)
    (isUsed : (state.procs curr).state ≠ .unused) {newBrk result : UInt64}
    (run : (sysBrk curr newBrk).Runs state result final) :
    ∃ free' held', ForksHold final free' held' := by
  have low := holds.low curr isUsed
  have present := (holds.used curr isUsed).1
  have oldTop := pageAlign_toNat
    (show (state.procs curr).heapTop.toNat + 4095 < 2 ^ 64 by omega)
  cases sysBrk_outcome run with
  | same _ => exact ⟨free, held, holds⟩
  | failed _ _ grow _ =>
      obtain ⟨free', held', user, touches, _⟩ :=
        holds.user.heapGrow present low grow
      refine ⟨free', held', holds.touch_memory isUsed user touches ?_⟩
      rintro va ⟨atLeast, _⟩ ⟨_, less⟩
      omega
  | @grown mem' _ grows grow =>
      obtain ⟨free', held', user, touches, outcome⟩ :=
        holds.user.heapGrow present low grow
      rcases outcome with same | ⟨isSum, sum, valid⟩
      · rw [same] at grows
        exact absurd grows (UInt64.lt_irrefl _)
      have heap : ∀ va, Between 12288 (pageAlign newBrk) (pageOf va) →
          isValid (pteAt mem'.bytes (pgtbls state curr) va) = true := by
        rintro va ⟨atLeast, less⟩
        by_cases isOld : 4096 * pageOf va <
            (pageAlign (state.procs curr).heapTop).toNat
        · rw [touches.ptes curr va fun both => absurd both.2.1 (by omega)]
          exact holds.heap curr isUsed va ⟨atLeast, isOld⟩
        · exact valid va ⟨by omega, less⟩
      have lenBound := (newBrk - (state.procs curr).heapTop).toUInt32.toNat_lt
      have low' := heapTop_le user (by omega) heap
      exact ⟨free', held', holds.touch user touches heap low'⟩
  | @shrunk _ mem' _ _ ungrow =>
      obtain ⟨free', held', user, touches, below⟩ :=
        holds.user.heapUngrow present low ungrow
      rw [UInt64.le_iff_toNat_le] at below
      have newAligned := pageAlign_toNat
        (show result.toNat + 4095 < 2 ^ 64 by omega)
      have heap : ∀ va, Between 12288 (pageAlign result) (pageOf va) →
          isValid (pteAt mem'.bytes (pgtbls state curr) va) = true := by
        rintro va ⟨atLeast, less⟩
        rw [touches.ptes curr va fun both => absurd both.2.1 (by omega)]
        exact holds.heap curr isUsed va ⟨atLeast, by omega⟩
      exact ⟨free', held', holds.touch user touches heap (by omega)⟩

/-! ## Forks -/

/-- A slot is given back that was allocated for a child. -/
theorem fork_undone
    (holds : ForksHold state free held) {slot : Pid} {mem : Mem.State}
    {globalPid : Int} (isUnused : (state.procs slot).state = .unused)
    (user : UserMem mem (pgtbls state) free' held)
    (ptes : ∀ slot va, pteAt mem.bytes (pgtbls state slot) va =
      pteAt state.mem.bytes (pgtbls state slot) va) :
    ForksHold (((state.setGlobalPid globalPid).setMem mem).setProc slot
      (state.procs slot).freed) free' held := by
  have self := @setProc_procs_self
    ((state.setGlobalPid globalPid).setMem mem) slot (state.procs slot).freed
  have others : ∀ other, other ≠ slot →
      (((state.setGlobalPid globalPid).setMem mem).setProc slot
        (state.procs slot).freed).procs other = state.procs other :=
    fun other differs => setProc_procs_of_ne differs _
  obtain ⟨noPgtbl, noTf⟩ := holds.unused slot isUnused
  have roots : pgtbls (((state.setGlobalPid globalPid).setMem mem).setProc slot
      (state.procs slot).freed) = pgtbls state := by
    funext other
    unfold pgtbls
    by_cases same : other = slot
    · rw [same, self, noPgtbl]
      rfl
    · rw [others other same]
  refine ⟨?_, fun other => ?_, fun other => ?_, fun other => ?_,
    fun other isUsed va inside => ?_, fun other => ?_, fun other => ?_, ?_⟩
  · rw [roots]
    exact user
  · rw [holds.trapframe]
    by_cases same : other = slot
    · rw [same, self, noTf]
      rfl
    · rw [others other same]
  · by_cases same : other = slot
    · rw [same, self]
      exact fun isUsed => absurd rfl isUsed
    · rw [others other same]
      exact holds.used other
  · by_cases same : other = slot
    · rw [same, self]
      exact fun _ => ⟨rfl, rfl⟩
    · rw [others other same]
      exact holds.unused other
  · by_cases same : other = slot
    · rw [same, self] at isUsed
      exact absurd rfl isUsed
    · rw [others other same] at isUsed inside ⊢
      exact (congrArg isValid (ptes other va)).trans
        (holds.heap other isUsed va inside)
  · by_cases same : other = slot
    · rw [same, self]
      exact fun isUsed => absurd rfl isUsed
    · rw [others other same]
      exact holds.low other
  · by_cases same : other = slot
    · rw [same, self]
      exact holds.stack slot
    · rw [others other same]
      exact holds.stack other
  · have differs : procZero ≠ slot := by
      rintro rfl
      exact holds.zero isUnused
    rw [others procZero differs]
    exact holds.zero

/-- The processes and their address spaces are as they were. -/
structure Kept (state final : State) : Prop where
  procs : ∀ slot, (state.procs slot).state ≠ .unused →
    final.procs slot = state.procs slot
  ptes : ∀ slot va, pteAt final.mem.bytes (pgtbls state slot) va =
    pteAt state.mem.bytes (pgtbls state slot) va
  unused : ∀ slot, (state.procs slot).state = .unused →
    (final.procs slot).state = .unused

theorem Kept.of_unused
    {slot : Pid} {mem : Mem.State} {globalPid : Int} {proc : Proc}
    (isUnused : (state.procs slot).state = .unused)
    (stays : proc.state = .unused)
    (ptes : ∀ slot va, pteAt mem.bytes (pgtbls state slot) va =
      pteAt state.mem.bytes (pgtbls state slot) va) :
    Kept state (((state.setGlobalPid globalPid).setMem mem).setProc slot
      proc) := by
  refine ⟨fun other isUsed => setProc_procs_of_ne (fun same => ?_) _, ptes,
    fun other isUnused' => ?_⟩
  · rw [same] at isUsed
    exact isUsed isUnused
  · by_cases same : other = slot
    · rw [same, setProc_procs_self]
      exact stays
    · rw [setProc_procs_of_ne same]
      exact isUnused'

/-- `proc_fork` without a slot or without memory for the child. -/
theorem fork_failed
    (holds : ForksHold state free held)
    (run : procAlloc.Runs state none final) :
    (∃ free' held', ForksHold final free' held') ∧ Kept state final := by
  rcases procAlloc_none holds.unused run with
    rfl | ⟨slot, mem, isUnused, rfl, noTf | ⟨tf, middle, middle', tfSome,
      allocTf, init, frees⟩⟩
  · exact ⟨⟨free, held, holds⟩, fun _ _ => rfl, fun _ _ => rfl,
      fun _ isUnused => isUnused⟩
  · rcases holds.user.toHolds.alloc .scratch noTf with ⟨_, rfl⟩ | ⟨notNull, _⟩
    · exact ⟨⟨free, held, holds.fork_undone isUnused holds.user
        fun _ _ => rfl⟩, Kept.of_unused isUnused rfl fun _ _ => rfl⟩
    · exact absurd rfl notNull
  · obtain ⟨sameBytes, free₁, user₁⟩ := holds.user.alloc_trapframe slot tfSome
      allocTf
    rcases procPgtblInit_user user₁ (holds.unused slot isUnused).1 init with
      ⟨_, rfl⟩ | ⟨notNull, _⟩
    · have atTf : Function.update held (.trapframe slot) tf
          (.trapframe slot) = tf := Function.update_self _ _ _
      have some : Function.update held (.trapframe slot) tf
          (.trapframe slot) ≠ 0 := by
        rw [atTf]
        exact tfSome
      have noTf : held (.trapframe slot) = 0 := by
        rw [holds.trapframe]
        exact (holds.unused slot isUnused).2
      have sameHeld : Function.update held (.trapframe slot) 0 = held := by
        rw [← noTf]
        exact Function.update_eq_self _ _
      have given := user₁.toHolds.giveBack some true
      have ptes := user₁.pteAt_giveBack some true
      rw [atTf] at given ptes
      rw [Function.update_idem, sameHeld] at given
      obtain rfl := pmemFree_runs.mp frees
      have same : ∀ slot va, pteAt (middle'.giveBack tf true).bytes
          (pgtbls state slot) va =
            pteAt state.mem.bytes (pgtbls state slot) va := by
        intro slot va
        rw [ptes, sameBytes]
      refine ⟨⟨_, held, holds.fork_undone isUnused ⟨given, ?_,
        holds.user.scratch⟩ same⟩, Kept.of_unused isUnused rfl same⟩
      intro r va isUser
      rw [same]
      exact holds.user.backed r va isUser
    · exact absurd rfl notNull

/-- What a successful `proc_fork` does. -/
structure Forked (state final : State) (curr child : Pid)
    (held : Holder Pid → UInt64) : Prop where
  others : ∀ slot, slot ≠ child → final.procs slot = state.procs slot
  heapTop : (final.procs child).heapTop = (state.procs curr).heapTop
  ustackPages : (final.procs child).ustackPages =
    (state.procs child).ustackPages
  memory : ForkedMem (pgtbls state) curr child
    (CopiedPage (state.procs curr).heapTop
      (state.procs curr).ustackPages.toUInt32) held (final.procs child).tf
    (final.procs child).pgtbl state.mem final.mem

/-- The pages of the heap are among those that are copied. -/
theorem copiedPage_heap
    {heapTop : UInt64} (low : heapTop.toNat ≤ 2 ^ 30) {page : Nat}
    (below : 4096 * page < (pageAlign heapTop).toNat)
    (ustackPages : UInt32) :
    page < userPages ∧ CopiedPage heapTop ustackPages page := by
  have top := pageAlign_toNat (show heapTop.toNat + 4095 < 2 ^ 64 by omega)
  refine ⟨?_, Or.inl ?_⟩
  · unfold userPages
    omega
  · omega

/-- After a successful fork every page still belongs to one process. -/
theorem forked
    (holds : ForksHold state free held)
    (isUsed : (state.procs curr).state ≠ .unused) {child : Pid}
    (isUnused : (state.procs child).state = .unused)
    (result : Forked state final curr child held)
    (runnable : (final.procs child).state = .runnable)
    (pgtblSome : (final.procs child).pgtbl ≠ 0)
    (tfSome : (final.procs child).tf ≠ 0)
    (user : UserMem final.mem (Function.update (pgtbls state) child
      (final.procs child).pgtbl) free' held')
    (trapframes : ∀ slot, held' (.trapframe slot) =
      if slot = child then (final.procs child).tf else held (.trapframe slot)) :
    ForksHold final free' held' := by
  have others := result.others
  have low := holds.low curr isUsed
  have roots : pgtbls final = Function.update (pgtbls state) child
      (final.procs child).pgtbl := by
    funext slot
    by_cases same : slot = child
    · rw [same, Function.update_self]
      rfl
    · rw [Function.update_of_ne same]
      exact congrArg Proc.pgtbl (others slot same)
  have notZero : child ≠ procZero := by
    rintro rfl
    exact holds.zero isUnused
  rw [← roots] at user
  refine ⟨user, fun slot => ?_, fun slot => ?_, fun slot => ?_,
    fun slot isUsed' va inside => ?_, fun slot => ?_, fun slot => ?_, ?_⟩
  · rw [trapframes]
    by_cases same : slot = child
    · rw [if_pos same, same]
    · rw [if_neg same, holds.trapframe, others slot same]
  · by_cases same : slot = child
    · rw [same]
      exact fun _ => ⟨pgtblSome, tfSome⟩
    · rw [others slot same]
      exact holds.used slot
  · by_cases same : slot = child
    · rw [same, runnable]
      exact nofun
    · rw [others slot same]
      exact holds.unused slot
  · by_cases same : slot = child
    · subst same
      rw [result.heapTop] at inside
      obtain ⟨isUser, isCopied⟩ := copiedPage_heap low inside.2
        (state.procs curr).ustackPages.toUInt32
      exact (result.memory.copies va isUser isCopied
        (holds.heap curr isUsed va inside)).valid
    · rw [others slot same] at isUsed' inside ⊢
      exact (congrArg isValid (result.memory.ptes slot va same)).trans
        (holds.heap slot isUsed' va inside)
  · by_cases same : slot = child
    · rw [same, result.heapTop]
      exact fun _ => low
    · rw [others slot same]
      exact holds.low slot
  · by_cases same : slot = child
    · rw [same, result.ustackPages]
      exact holds.stack child
    · rw [others slot same]
      exact holds.stack slot
  · rw [others procZero notZero.symm]
    exact holds.zero

/-- The outcomes of `proc_fork`. -/
theorem fork_outcome
    (holds : ForksHold state free held)
    (isUsed : (state.procs curr).state ≠ .unused) {pid : Int}
    (run : (procFork curr).Runs state pid final) :
    (∃ free' held', ForksHold final free' held') ∧
      (pid = -1 ∧ Kept state final ∨
      ∃ child, unusedSlot state = some child ∧ (final.procs child).pid = pid ∧
        Forked state final curr child held) := by
  have decomposed := run
  rw [procFork, Program.runs_bind] at decomposed
  obtain ⟨allocated, middle, alloc, rest⟩ := decomposed
  cases allocated with
  | none =>
      obtain ⟨rfl, rfl⟩ := Program.runs_pure.mp rest
      obtain ⟨holds', kept⟩ := holds.fork_failed alloc
      exact ⟨holds', Or.inl ⟨rfl, kept⟩⟩
  | some child =>
      obtain ⟨unused, _, tf, pgtbl, mem₁, mem₂, mem₃, mem₄, rfl, tfSome,
        pgtblSome, allocTf, init, copy, copyTf, rfl⟩ :=
        procFork_of_alloc isUsed alloc run
      have isUnused : (state.procs child).state = .unused := by
        simpa using List.find?_some unused
      have differ : curr ≠ child := by
        rintro rfl
        exact isUsed isUnused
      obtain ⟨noPgtbl, noTf⟩ := holds.unused child isUnused
      obtain ⟨oldPgtbl, oldTf⟩ := holds.used curr isUsed
      rw [← holds.trapframe] at noTf oldTf copyTf
      obtain ⟨memory, free', held', user, trapframes⟩ := fork_memory holds.user
        differ oldPgtbl noPgtbl oldTf noTf (holds.low curr isUsed) tfSome
        pgtblSome allocTf init copy copyTf
      have self := @setProc_procs_self ((state.setGlobalPid
        (wrapInt (state.globalPid + 1))).setMem mem₄) child
        ((state.procs child).forked curr (state.procs curr) state.globalPid tf
          pgtbl (kstackOf child))
      have result : Forked state (((state.setGlobalPid
          (wrapInt (state.globalPid + 1))).setMem mem₄).setProc child
          ((state.procs child).forked curr (state.procs curr)
            state.globalPid tf pgtbl (kstackOf child))) curr child held := by
        refine ⟨fun slot differs => setProc_procs_of_ne differs _, ?_, ?_, ?_⟩
        · rw [self]
          rfl
        · rw [self]
          rfl
        · rw [self]
          exact memory
      refine ⟨⟨free', held', holds.forked isUsed isUnused result ?_ ?_ ?_ ?_
        ?_⟩, Or.inr ⟨child, unused, ?_, result⟩⟩
      · rw [self]
        rfl
      · rw [self]
        exact pgtblSome
      · rw [self]
        exact tfSome
      · rw [self]
        exact user
      · rw [self]
        exact trapframes
      · rw [self]
        rfl

theorem fork
    (holds : ForksHold state free held)
    (isUsed : (state.procs curr).state ≠ .unused) {pid : Int}
    (run : (procFork curr).Runs state pid final) :
    (∃ free' held', ForksHold final free' held') ∧
      (pid ≠ -1 → ∃ child, unusedSlot state = some child ∧
        (final.procs child).pid = pid ∧
        Forked state final curr child held) := by
  obtain ⟨holds', outcome⟩ := holds.fork_outcome isUsed run
  exact ⟨holds', fun success =>
    outcome.resolve_left fun failed => success failed.1⟩

end ForksHold

theorem ForksHold.of_reachable
    {state : State} (reachable : forkSystem.Reachable state) :
    ∃ free held, ForksHold state free held := by
  have initially : ∀ state, forkSystem.Init state →
      ∃ free held, ForksHold state free held := by
    rintro state ⟨boot, before, booted, makes⟩
    obtain ⟨free, held, holds, _⟩ := ForksHold.first booted makes
    exact ⟨free, held, holds⟩
  refine reachable.invariant initially ?_
  rintro before action after ⟨free, held, holds⟩ _ step
  cases step with
  | fork isUsed run => exact (holds.fork isUsed run).1
  | brk isUsed run => exact holds.brk isUsed run
  | compute isUsed own changed =>
      exact ⟨free, held, holds.compute isUsed own changed⟩

/-! ## Duplicates -/

/-- The child of a fork has a copy of the address space of its parent, and the
parent is as it was. -/
structure Duplicates (before after : State) (parent child : Pid) : Prop where
  maps : ∀ va < trapframeVa,
    isValid (pteAt after.mem.bytes (after.procs child).pgtbl va) =
      isValid (pteAt before.mem.bytes (before.procs parent).pgtbl va)
  copies : ∀ va < trapframeVa,
    isValid (pteAt before.mem.bytes (before.procs parent).pgtbl va) = true →
    CopyOf before.mem.bytes after.mem.bytes
      (pteAt before.mem.bytes (before.procs parent).pgtbl va)
      (pteAt after.mem.bytes (after.procs child).pgtbl va)
  heapTop : (after.procs child).heapTop = (before.procs parent).heapTop
  ustackPages : (after.procs child).ustackPages =
    (before.procs parent).ustackPages
  /-- The trapframes differ in the register `a0`. -/
  trapframe : ∀ offset < trapframeSize,
    after.mem.bytes ((after.procs child).tf.toNat + offset) =
      if 112 ≤ offset ∧ offset < 120 then 0
      else before.mem.bytes ((before.procs parent).tf.toNat + offset)
  parentProc : after.procs parent = before.procs parent
  parentTable : ∀ va, pteAt after.mem.bytes (before.procs parent).pgtbl va =
    pteAt before.mem.bytes (before.procs parent).pgtbl va
  parentPages : ∀ page, OwnPage before parent page →
    Unchanged page before.mem.bytes after.mem.bytes

/-- The pages that are mapped for a process that knows of no stack pages are
below the top of its heap. -/
def BelowHeapTop (state : State) (curr : Pid) : Prop :=
  ∀ va < trapframeVa,
    isValid (pteAt state.mem.bytes (state.procs curr).pgtbl va) = true →
    4096 * pageOf va < (state.procs curr).heapTop.toNat

theorem copiedPage_zero {heapTop : UInt64} {page : Nat} :
    CopiedPage heapTop 0 page ↔ 4096 * page < heapTop.toNat := by
  unfold CopiedPage
  constructor
  · rintro (below | ⟨index, bound, _⟩)
    · exact below
    · exact absurd bound (Nat.not_lt_zero index)
  · exact Or.inl

/-- A fork duplicates a process exactly when the process is not the first one
and has no pages above the top of its heap. -/
theorem duplicates_iff
    {state final : State} {free : Bool → List UInt64}
    {held : Holder Pid → UInt64} {curr child : Pid}
    (holds : ForksHold state free held)
    (isUsed : (state.procs curr).state ≠ .unused)
    (isUnused : (state.procs child).state = .unused)
    (result : ForksHold.Forked state final curr child held) :
    Duplicates state final curr child ↔
      curr ≠ procZero ∧ BelowHeapTop state curr := by
  have differ : curr ≠ child := by
    rintro rfl
    exact isUsed isUnused
  have notZero : child ≠ procZero := by
    rintro rfl
    exact holds.zero isUnused
  have childStack : (final.procs child).ustackPages = 0 := by
    rw [result.ustackPages, holds.stack, if_neg notZero]
  have noStack : curr ≠ procZero →
      (state.procs curr).ustackPages.toUInt32 = 0 := by
    intro proper
    rw [holds.stack, if_neg proper]
    rfl
  constructor
  · intro duplicates
    have proper : curr ≠ procZero := by
      intro same
      have stack := duplicates.ustackPages
      rw [childStack, holds.stack, if_pos same] at stack
      cases stack
    refine ⟨proper, fun va below valid => ?_⟩
    by_contra above
    have absent := result.memory.absent va (pageOf_of_lt_trapframe below) (by
      rintro ⟨isCopied, _⟩
      rw [noStack proper, copiedPage_zero] at isCopied
      exact above isCopied)
    have maps := duplicates.maps va below
    rw [absent, valid] at maps
    cases maps
  · rintro ⟨proper, belowTop⟩
    have copies : ∀ va < trapframeVa,
        isValid (pteAt state.mem.bytes (state.procs curr).pgtbl va) = true →
        CopyOf state.mem.bytes final.mem.bytes
          (pteAt state.mem.bytes (state.procs curr).pgtbl va)
          (pteAt final.mem.bytes (final.procs child).pgtbl va) := by
      intro va below valid
      refine result.memory.copies va (pageOf_of_lt_trapframe below) ?_ valid
      rw [noStack proper, copiedPage_zero]
      exact belowTop va below valid
    refine ⟨fun va below => ?_, copies, result.heapTop, ?_, fun offset bound =>
      ?_, result.others curr differ, fun va => result.memory.ptes curr va
        differ, fun page own => ?_⟩
    · cases valid : isValid (pteAt state.mem.bytes (state.procs curr).pgtbl
          va) with
      | true => exact (copies va below valid).valid
      | false =>
          refine result.memory.absent va (pageOf_of_lt_trapframe below) ?_
          rintro ⟨_, isValid⟩
          exact absurd (valid.symm.trans isValid) Bool.false_ne_true
    · rw [childStack, holds.stack, if_neg proper]
    · have frame := result.memory.trapframe offset bound
      rw [holds.trapframe] at frame
      exact frame
    · rcases own with rfl | ⟨va, below, valid, rfl⟩
      · have kept := result.memory.pages (.trapframe curr)
          (by rw [holds.trapframe]; exact (holds.used curr isUsed).2) nofun
        rw [holds.trapframe] at kept
        exact kept
      · have isUser := pageOf_of_lt_trapframe below
        have kept := result.memory.pages (.user curr (pageOf va))
          ((holds.user.backed curr va isUser).2 valid)
          (fun page same => differ (by cases same; rfl))
        rw [← holds.user.pteToPa_eq isUser valid] at kept
        exact kept

/-- In every state that is reached from the first process by forks, moves of the
top of the heap and computations, a fork that succeeds duplicates its process
exactly when the process is not the first one and has no pages above the top of
its heap. -/
theorem fork_duplicates_iff
    {state final : State} (reachable : forkSystem.Reachable state) {curr : Pid}
    (isUsed : (state.procs curr).state ≠ .unused) {pid : Int}
    (run : (procFork curr).Runs state pid final) (success : pid ≠ -1) :
    ∃ child, unusedSlot state = some child ∧ (final.procs child).pid = pid ∧
      (Duplicates state final curr child ↔
        curr ≠ procZero ∧ BelowHeapTop state curr) := by
  obtain ⟨free, held, holds⟩ := ForksHold.of_reachable reachable
  obtain ⟨child, unused, isPid, result⟩ := (holds.fork isUsed run).2 success
  have isUnused : (state.procs child).state = .unused := by
    simpa using List.find?_some unused
  exact ⟨child, unused, isPid, duplicates_iff holds isUsed isUnused result⟩

/-! ## A fork of the first process -/

/-- The free pages of the machine with few pages. -/
def smallFree : Bool → List UInt64
  | true => pagesFrom 0x80100000 19
  | false => pagesFrom 0x80900000 20

theorem freeLists_smallState : FreeLists smallState.mem smallFree :=
  ⟨by decide +kernel, by decide +kernel, by decide +kernel,
    Mem.unique_of_all (by decide +kernel),
    fun inKernel => Mem.forall_of_all (by cases inKernel <;> decide +kernel)⟩

theorem booted_smallState : Booted smallState :=
  ⟨rfl, smallFree, freeLists_smallState, fun inKernel =>
    Mem.forall_of_all (by cases inKernel <;> decide +kernel)⟩

/-- The first process forks. -/
def smallFork : ProcM Unit := do
  procMakeFirst smallBoot
  let before ← Program.get
  Program.assert ((before.procs 0).state ≠ .unused) "not alive"
  let pid ← procFork 0
  Program.assert (pid ≠ -1) "fork failed"

theorem smallFork_returns : (smallFork.exec smallState).isOk = true := by
  decide +kernel

theorem smallFork_reachable :
    ∃ state pid final, forkSystem.Reachable state ∧
      (state.procs procZero).state ≠ .unused ∧
      (procFork procZero).Runs state pid final ∧ pid ≠ -1 := by
  cases final : smallFork.exec smallState with
  | error message =>
      have returns := smallFork_returns
      rw [final] at returns
      cases returns
  | ok outcome =>
      have run : smallFork.Runs smallState outcome.1 outcome.2 := final
      simp only [smallFork, Program.runs_bind, Program.runs_get,
        Program.runs_assert, decide_eq_true_eq] at run
      obtain ⟨_, before, makes, _, _, ⟨rfl, rfl⟩, _, _, ⟨isUsed, rfl⟩, pid,
        forked, forks, success, _⟩ := run
      exact ⟨before, pid, forked,
        .init ⟨smallBoot, smallState, booted_smallState, makes⟩, isUsed, forks,
        success⟩

theorem fork_duplicates_iff_small :
    ∃ state final child, (state.procs procZero).state ≠ .unused ∧
      ¬Duplicates state final procZero child := by
  obtain ⟨state, pid, final, reachable, isUsed, run, success⟩ :=
    smallFork_reachable
  obtain ⟨child, _, _, iff⟩ := fork_duplicates_iff reachable isUsed run success
  exact ⟨state, final, child, isUsed, fun duplicates =>
    (iff.mp duplicates).1 rfl⟩

/-- The first process has two stack pages.  Its child has copies of both but is
told that it has none. -/
theorem fork_loses_stack :
    ¬∀ state curr pid final child, forkSystem.Reachable state →
      (state.procs curr).state ≠ .unused →
      (procFork curr).Runs state pid final → pid ≠ -1 →
      unusedSlot state = some child → Duplicates state final curr child := by
  intro duplicates
  obtain ⟨state, pid, final, reachable, isUsed, run, success⟩ :=
    smallFork_reachable
  obtain ⟨free, held, holds⟩ := ForksHold.of_reachable reachable
  obtain ⟨child, unused, _, result⟩ := (holds.fork isUsed run).2 success
  have isUnused : (state.procs child).state = .unused := by
    simpa using List.find?_some unused
  have iff := duplicates_iff holds isUsed isUnused result
  exact (iff.mp (duplicates state procZero pid final child reachable isUsed run
    success unused)).1 rfl

end Process
end WhuOs
