import WhuOs.Process.Boot

/-!
# The life of processes

From the first process on, processes fork, exit, wait for their children, move
the tops of their heaps, and store to memory.  In every state the pages of a
process are its own, the kernel has its address space, and the way from each
process to the kernel is open.
-/

namespace WhuOs
namespace Process

open Library
open Library.Bytes
open Mem
open Program (Runs)

/-! ## Runs -/

/-- What a process does. -/
inductive LifeCall
  | tree (call : ProcCall)
  | brk (newBrk : UInt64)
  /-- The process stores to a page of its own. -/
  | compute
  /-- Registers are stored in the trapframe of the process. -/
  | trap
  /-- The kernel works on the stack of a CPU. -/
  | work

/-- A page that an address space lets users write to. -/
def UserWritable (bytes : Bytes) (pgtbl page : UInt64) : Prop :=
  ∃ va flags, Aligned va ∧ translate bytes pgtbl va = some (page, flags) ∧
    flags &&& pteU ≠ 0 ∧ flags &&& pteW ≠ 0

/-- One step of a live process. -/
inductive LifeStep : TreeRun → Pid × LifeCall → TreeRun → Prop
  | tree {before after : TreeRun} {curr : Pid} {call : ProcCall} :
      TreeStep before (curr, call) after →
      LifeStep before (curr, .tree call) after
  | brk {before : TreeRun} {curr : Pid} {newBrk result : UInt64}
      {after : State} :
      before.state.Alive curr →
      (sysBrk curr newBrk).Runs before.state result after →
      LifeStep before (curr, .brk newBrk) ⟨after, before.exits, before.reaps⟩
  | compute {before : TreeRun} {curr : Pid} {page : UInt64} {bytes : Bytes} :
      before.state.Alive curr →
      UserWritable before.state.mem.bytes (pgtbls before.state curr) page →
      ChangedIn page before.state.mem.bytes bytes →
      LifeStep before (curr, .compute)
        ⟨before.state.setMem (before.state.mem.setBytes bytes), before.exits,
          before.reaps⟩
  | trap {before : TreeRun} {curr : Pid} {bytes : Bytes} :
      before.state.Alive curr →
      ChangedIn (before.state.procs curr).tf before.state.mem.bytes bytes →
      LifeStep before (curr, .trap)
        ⟨before.state.setMem (before.state.mem.setBytes bytes), before.exits,
          before.reaps⟩
  | work {before : TreeRun} {curr : Pid} {page : UInt64} {bytes : Bytes} :
      IsStack before.state.mem page →
      ChangedIn page before.state.mem.bytes bytes →
      LifeStep before (curr, .work)
        ⟨before.state.setMem (before.state.mem.setBytes bytes), before.exits,
          before.reaps⟩

/-- Runs from the end of `proc_make_first` on. -/
def lifeSystem (kernel : Mem.State) (trampoline : UInt64) :
    TransitionSystem TreeRun (Pid × LifeCall) where
  Init run := run.exits = [] ∧ run.reaps = [] ∧ ∃ boot,
    (procMakeFirst boot).Runs ⟨kernel, fun _ => emptyProc, 1, trampoline⟩ ()
      run.state
  Step := LifeStep

/-- Calls of `proc_wait` pass an address below the trapframe.  `uvm_copyout`
does not look at the flags of the pages it writes to. -/
def WaitsBelow (_ : TreeRun) : Pid × LifeCall → Prop
  | (_, .tree (.wait addr)) => addr.toNat + 4 ≤ trapframeVa.toNat
  | _ => True

/-! ## The invariant -/

variable {kernel : Mem.State} {trampoline : UInt64}
  {free free' : Bool → List UInt64} {held : Holder Owner → UInt64}

/-- The processes form a tree, and every page has one owner. -/
structure LifeHolds (part : KernelPart) (trampoline : UInt64) (run : TreeRun) :
    Prop where
  tree : TreeHolds run
  atTrampoline : run.state.trampoline = trampoline
  spaces : ∃ free held, Spaces part run.state free held

/-- The kernel translates addresses as it did when it started. -/
theorem KernelStarted.translate_eq
    (started : KernelStarted kernel trampoline free) {state : State}
    (spaces : Spaces (kernelPart kernel trampoline) state free' held)
    (va : UInt64) :
    translate state.mem.bytes state.mem.kernelPgtbl va =
      translate kernel.bytes kernel.kernelPgtbl va := by
  have isPgtbl : state.mem.kernelPgtbl = kernel.kernelPgtbl :=
    spaces.kernelPgtbl
  rw [isPgtbl]
  apply translate_of_unchanged started.tables started.present
  intro path bound notNull
  exact spaces.intact _ (Or.inl ⟨notNull, path, bound, rfl⟩)

/-- The entries above the user pages are not for users. -/
theorem gateEntry_notUser
    {tf : UInt64} {page : Nat}
    (valid : isValid (gateEntry trampoline tf page) = true) :
    pteFlags (gateEntry trampoline tf page) &&& pteU = 0 := by
  unfold gateEntry at valid ⊢
  split at valid
  · next isTrampoline =>
    rw [if_pos isTrampoline, pteFlags_leafPte (by decide)]
    rfl
  · next notTrampoline =>
    rw [if_neg notTrampoline]
    split at valid
    · next isTrapframe =>
      rw [if_pos isTrapframe, pteFlags_leafPte (by decide)]
      rfl
    · cases valid

/-- The page of an entry above the user pages. -/
theorem Spaces.gateEntry_held
    {part : KernelPart} {state : State} (spaces : Spaces part state free held)
    (owned : part.owned state.trampoline) {slot : Pid}
    (isUsed : (state.procs slot).state ≠ .unused) {page : Nat}
    (valid : isValid (gateEntry state.trampoline (state.procs slot).tf page) =
      true) :
    ∃ owner, held (.trapframe owner) ≠ 0 ∧
      pteToPa (gateEntry state.trampoline (state.procs slot).tf page) =
        held (.trapframe owner) := by
  unfold gateEntry at valid ⊢
  split at valid
  · next isTrampoline =>
    have some := spaces.kernel_some owned
    have aligned := (spaces.user.taken some).aligned
    rw [(spaces.kernelHeld _ owned).2] at aligned
    rw [if_pos isTrampoline, pteToPa_leafPte aligned (by decide)]
    exact ⟨_, some, (spaces.kernelHeld _ owned).2.symm⟩
  · next notTrampoline =>
    rw [if_neg notTrampoline]
    split at valid
    · next isTrapframe =>
      have some := spaces.trapframe_some isUsed
      have aligned := (spaces.user.taken some).aligned
      rw [spaces.trapframe] at aligned
      rw [if_pos isTrapframe, pteToPa_leafPte aligned (by decide)]
      exact ⟨_, some, (spaces.trapframe slot).symm⟩
    · cases valid

/-- An address of a process is in one of its user pages, or its page belongs to
the kernel and is not open to users. -/
theorem Spaces.translate_held
    {part : KernelPart} {state : State} (spaces : Spaces part state free held)
    (owned : part.owned state.trampoline) {slot : Pid}
    (isUsed : (state.procs slot).state ≠ .unused) {va pa flags : UInt64}
    (found : translate state.mem.bytes (pgtbls state slot) va =
      some (pa, flags)) :
    ∃ holder, held holder ≠ 0 ∧ pa = held holder + va % 4096 ∧
      (holder = .user (.slot slot) (pageOf va) ∧ pageOf va < userPages ∧
          va.toNat < 2 ^ 38 ∨
        (∃ owner, holder = .trapframe owner) ∧ flags &&& pteU = 0) := by
  have present : ownerRoot state (.slot slot) ≠ 0 :=
    (spaces.slots.used slot isUsed).1
  have walk := Mem.translate_eq spaces.user.tables present va
  change translate state.mem.bytes (pgtbls state slot) va = _ at walk
  rw [found] at walk
  split at walk
  · next canonical =>
    unfold leafOf at walk
    split at walk
    · next valid =>
      cases walk
      by_cases low : pageOf va < userPages
      · rcases spaces.pteToPa_user low valid with ⟨isHeld, some⟩
        refine ⟨_, some, congrArg (· + va % 4096) isHeld,
          Or.inl ⟨rfl, low, ?_⟩⟩
        have bound := va.toNat_lt
        unfold Canonical at canonical
        unfold pageOf userPages at low
        omega
      · have gate := spaces.gates slot isUsed va (Nat.not_lt.mp low)
        change pteAt state.mem.bytes (ownerRoot state (.slot slot)) va = _
          at gate
        rw [gate] at valid ⊢
        rcases spaces.gateEntry_held owned isUsed valid with
          ⟨owner, some, isPage⟩
        exact ⟨_, some, congrArg (· + va % 4096) isPage,
          Or.inr ⟨⟨owner, rfl⟩, gateEntry_notUser valid⟩⟩
    · cases walk
  · cases walk

/-- An address that is open to users is in a user page of its process. -/
theorem Spaces.translate_user
    {part : KernelPart} {state : State} (spaces : Spaces part state free held)
    (owned : part.owned state.trampoline) {slot : Pid}
    (isUsed : (state.procs slot).state ≠ .unused) {va pa flags : UInt64}
    (found : translate state.mem.bytes (pgtbls state slot) va =
      some (pa, flags)) (isUser : flags &&& pteU ≠ 0) :
    pageOf va < userPages ∧ va.toNat < 2 ^ 38 ∧
      pa = held (.user (.slot slot) (pageOf va)) + va % 4096 ∧
      held (.user (.slot slot) (pageOf va)) ≠ 0 := by
  rcases spaces.translate_held owned isUsed found with
    ⟨holder, some, isPage, ⟨rfl, low, small⟩ | ⟨_, notUser⟩⟩
  · exact ⟨low, small, isPage, some⟩
  · exact absurd notUser isUser

/-- The stacks of the CPUs are where `kvm_init` put them. -/
theorem KernelStarted.isStack
    (started : KernelStarted kernel trampoline free) {state : State}
    (spaces : Spaces (kernelPart kernel trampoline) state free' held)
    {page : UInt64} (isStack : IsStack state.mem page) :
    IsStack kernel page := by
  rcases isStack with ⟨cpu, bound, flags, found⟩
  rw [started.translate_eq spaces] at found
  exact ⟨cpu, bound, flags, found⟩

namespace LifeHolds

variable {before after : TreeRun} {curr : Pid}

/-- `proc_wait`, with an address below the trapframe. -/
theorem wait
    {part : KernelPart} {state final : State}
    (spaces : Spaces part state free held) (alive : state.Alive curr)
    (zeroAlive : state.Alive procZero) {addr : UInt64}
    (low : addr.toNat + 4 ≤ trapframeVa.toNat) {result : WaitResult}
    (run : (procWait curr addr).Runs state result final) :
    final.trampoline = state.trampoline ∧
      ∃ free held, Spaces part final free held := by
  rcases procWait_runs run with
    ⟨slot, middle, mem, isZombie, copies, frees, _, isFinal⟩ |
    ⟨_, _, _, sleeps⟩ | ⟨_, _, rfl⟩
  · have found := List.find?_some isZombie
    simp only [decide_eq_true_eq] at found
    have isUsed : (state.procs slot).state ≠ .unused := by
      rw [found.2]
      nofun
    have notZero : slot ≠ procZero := by
      rintro rfl
      exact zeroAlive.2 found.2
    have present := (spaces.slots.used curr alive.1).1
    have copied : Spaces part (state.setMem middle) free held :=
      (Spaces.copyStatus present low _ (StatusCopied.refl spaces) copies).spaces
    rcases copied.free_slot isUsed notZero frees with
      ⟨free', held', freed, _⟩
    rw [isFinal]
    refine ⟨rfl, free', held', ?_⟩
    rw [← isFinal]
    exact freed
  · simp only [procSleep, runs_modifyProc] at sleeps
    rw [← sleeps]
    refine ⟨rfl, free, held, spaces.congr rfl rfl (SamePages.setProc ?_)⟩
    exact ⟨rfl, rfl, iff_of_false nofun alive.1, fun _ => rfl, rfl⟩
  · exact ⟨rfl, free, held, spaces⟩

/-- `proc_exit`. -/
theorem exit
    {part : KernelPart} {state final : State}
    (spaces : Spaces part state free held) (alive : state.Alive curr)
    {exitState : UInt32} (run : (procExit curr exitState).Runs state () final) :
    final.trampoline = state.trampoline ∧
      ∃ free held, Spaces part final free held := by
  rcases procExit_runs run with
    ⟨_, mem, _, trampoline, procs, woken, isFinal⟩
  refine ⟨trampoline, free, held, spaces.congr mem trampoline ?_⟩
  intro slot
  rw [isFinal]
  have kept := (SamePages.reparented (state.procs slot) curr).trans
    (SamePages.of_woken (woken slot))
  by_cases isCurr : slot = curr
  · rw [isCurr] at kept ⊢
    rw [Function.update_self]
    exact ⟨kept.pgtbl, kept.tf, iff_of_false nofun alive.1, kept.heapTop,
      kept.ustackPages⟩
  · rw [Function.update_of_ne isCurr]
    exact kept

/-- A process gets another state. -/
theorem setState
    {part : KernelPart} {state : State} (spaces : Spaces part state free held)
    (isUsed : (state.procs curr).state ≠ .unused) {next : ProcState}
    (stays : next ≠ .unused) :
    Spaces part (state.setProc curr ((state.procs curr).setState next)) free
      held := by
  refine spaces.congr rfl rfl (SamePages.setProc ?_)
  exact ⟨rfl, rfl, iff_of_false stays isUsed, fun _ => rfl, rfl⟩

/-- A call that changes the tree. -/
theorem tree_step
    {part : KernelPart} {call : ProcCall}
    (spaces : Spaces part before.state free held)
    (zeroAlive : before.state.Alive procZero)
    (below : WaitsBelow before (curr, .tree call))
    (step : TreeStep before (curr, call) after) :
    after.state.trampoline = before.state.trampoline ∧
      ∃ free held, Spaces part after.state free held := by
  cases step with
  | fork alive run =>
      refine ⟨?_, spaces.fork alive.1 run⟩
      rcases procFork_runs alive.1 run with
        ⟨_, rfl⟩ | ⟨_, _, _, ⟨_, _, rfl⟩ |
          ⟨_, _, _, _, _, _, _, _, _, _, _, _, _, rfl⟩⟩
      · rfl
      · rfl
      · rfl
  | exit alive run => exact exit spaces alive run
  | wait alive run => exact wait spaces alive zeroAlive below run
  | yield alive run =>
      rcases runs_modifyProc.mp run with rfl
      exact ⟨rfl, free, held, setState spaces alive.1 nofun⟩
  | sleep alive run =>
      rcases runs_modifyProc.mp run with rfl
      refine ⟨rfl, free, held, spaces.congr rfl rfl (SamePages.setProc ?_)⟩
      exact ⟨rfl, rfl, iff_of_false nofun alive.1, fun _ => rfl, rfl⟩
  | wakeup alive run =>
      rcases procWakeup_runs run with ⟨mem, _, trampoline, _, woken⟩
      exact ⟨trampoline, free, held, spaces.congr mem trampoline
        fun slot => SamePages.of_woken (woken slot)⟩
  | schedule isRunnable =>
      refine ⟨rfl, free, held, setState spaces ?_ nofun⟩
      rw [isRunnable]
      nofun

/-- `sys_brk` keeps the tree of processes. -/
theorem brk_tree
    {state final : State} {exits reaps : List (Int × UInt32)}
    (tree : TreeHolds ⟨state, exits, reaps⟩) {newBrk result : UInt64}
    (run : (sysBrk curr newBrk).Runs state result final) :
    TreeHolds ⟨final, exits, reaps⟩ ∧ final.trampoline = state.trampoline := by
  have moved : ∀ mem heapTop slot, TreeHolds.SamePlace (state.procs slot)
      (((state.setMem mem).setProc curr
        ((state.procs curr).setHeapTop heapTop)).procs slot) := by
    intro mem heapTop slot
    by_cases isCurr : slot = curr
    · rw [isCurr, setProc_procs_self]
      exact ⟨rfl, rfl, rfl, rfl, rfl, Iff.rfl, Iff.rfl⟩
    · rw [setProc_procs_of_ne isCurr]
      exact TreeHolds.SamePlace.refl _
  cases sysBrk_outcome run with
  | same _ => exact ⟨tree, rfl⟩
  | failed _ _ _ _ =>
      exact ⟨tree.congr rfl fun slot => TreeHolds.SamePlace.refl _, rfl⟩
  | grown _ _ _ => exact ⟨tree.congr rfl (moved _ _), rfl⟩
  | shrunk _ _ _ => exact ⟨tree.congr rfl (moved _ _), rfl⟩

/-- A store to a page that somebody has. -/
theorem store
    {part : KernelPart} (holds : LifeHolds part trampoline before)
    {bytes : Bytes}
    (written : ∀ free held, Spaces part before.state free held →
      ∃ holder, held holder ≠ 0 ∧
        (∀ page, part.fixed page → holder ≠ .trapframe (.kernel page)) ∧
        ChangedIn (held holder) before.state.mem.bytes bytes) :
    LifeHolds part trampoline
      ⟨before.state.setMem (before.state.mem.setBytes bytes), before.exits,
        before.reaps⟩ := by
  rcases holds.spaces with ⟨free, held, spaces⟩
  rcases written free held spaces with ⟨holder, some, notFixed, changed⟩
  exact ⟨holds.tree.congr rfl fun slot => TreeHolds.SamePlace.refl _,
    holds.atTrampoline, free, held, spaces.write some notFixed changed⟩

/-- A page that users write to belongs to the process. -/
theorem userWritable_held
    {part : KernelPart} {state : State} (spaces : Spaces part state free held)
    (owned : part.owned state.trampoline) (alive : state.Alive curr)
    {page : UInt64}
    (writable : UserWritable state.mem.bytes (pgtbls state curr) page) :
    ∃ number < userPages, held (.user (.slot curr) number) = page ∧
      page ≠ 0 := by
  rcases writable with ⟨va, flags, aligned, found, isUser, _⟩
  rcases spaces.translate_user owned alive.1 found isUser with
    ⟨isLow, _, isPage, some⟩
  have offset : va % 4096 = 0 := UInt64.toNat_inj.mp aligned
  rw [offset, UInt64.add_zero] at isPage
  exact ⟨pageOf va, isLow, isPage.symm, isPage ▸ some⟩

/-- The trampoline belongs to the kernel. -/
theorem owned
    (holds : LifeHolds (kernelPart kernel trampoline) trampoline
      before) :
    (kernelPart kernel trampoline).owned before.state.trampoline :=
  Or.inr (Or.inl holds.atTrampoline)

/-- Every step keeps the tree and the owners of the pages. -/
theorem step
    (started : KernelStarted kernel trampoline free)
    (holds : LifeHolds (kernelPart kernel trampoline) trampoline before)
    {action : Pid × LifeCall} (below : WaitsBelow before action)
    (step : LifeStep before action after) :
    LifeHolds (kernelPart kernel trampoline) trampoline after := by
  cases step with
  | tree taken =>
      rcases holds.spaces with ⟨free, held, spaces⟩
      rcases tree_step spaces holds.tree.zero below taken with
        ⟨atTrampoline, spaces'⟩
      exact ⟨holds.tree.step taken, atTrampoline.trans holds.atTrampoline,
        spaces'⟩
  | brk alive run =>
      rcases holds.spaces with ⟨free, held, spaces⟩
      rcases brk_tree holds.tree run with ⟨tree, atTrampoline⟩
      exact ⟨tree, atTrampoline.trans holds.atTrampoline,
        (spaces.brk alive.1 run).1⟩
  | compute alive writable changed =>
      apply holds.store
      intro free held spaces
      rcases userWritable_held spaces holds.owned alive writable with
        ⟨number, _, rfl, notNull⟩
      exact ⟨_, notNull, nofun, changed⟩
  | trap alive changed =>
      apply holds.store
      intro free held spaces
      refine ⟨_, spaces.trapframe_some alive.1, nofun, ?_⟩
      rw [spaces.trapframe]
      exact changed
  | work isStack changed =>
      apply holds.store
      intro free held spaces
      have wasStack := started.isStack spaces isStack
      have owned : (kernelPart kernel trampoline).owned _ :=
        Or.inr (Or.inr wasStack)
      refine ⟨_, spaces.kernel_some owned, ?_, ?_⟩
      · intro page isFixed same
        cases same
        exact started.notFixed _ wasStack isFixed
      · rw [(spaces.kernelHeld _ owned).2]
        exact changed

/-- What holds in every state. -/
theorem of_reachable
    (started : KernelStarted kernel trampoline free) {run : TreeRun}
    (reachable : (lifeSystem kernel trampoline).ReachableBy WaitsBelow run) :
    LifeHolds (kernelPart kernel trampoline) trampoline run := by
  apply reachable.invariant
  · rintro run ⟨exits, reaps, boot, makes⟩
    rcases started.first makes with ⟨atTrampoline, spaces⟩
    exact ⟨TreeHolds.of_reachable (.init ⟨exits, reaps, boot, _, rfl, rfl,
      makes⟩), atTrampoline, spaces⟩
  · intro before action after holds below taken
    exact holds.step started below taken

end LifeHolds

/-! ## Isolation -/

/-- A process that may read or write an address. -/
def UserMapped (state : State) (slot : Pid) (va pa : UInt64) : Prop :=
  (state.procs slot).state ≠ .unused ∧ ∃ flags,
    translate state.mem.bytes (pgtbls state slot) va = some (pa, flags) ∧
      flags &&& pteU ≠ 0

/-- The memory that is open to a process is its own. -/
structure Isolated (part : KernelPart) (state : State) : Prop where
  unique : ∀ slot va pa, UserMapped state slot va pa →
    ∀ slot' va' flags', (state.procs slot').state ≠ .unused →
      translate state.mem.bytes (pgtbls state slot') va' = some (pa, flags') →
      slot' = slot ∧ va' = va
  notFree : ∀ slot va pa, UserMapped state slot va pa →
    ∀ inKernel page, OnFreeList state.mem inKernel page →
      ¬InPage pa.toNat page
  notTrapframe : ∀ slot va pa, UserMapped state slot va pa →
    ∀ slot', (state.procs slot').state ≠ .unused →
      ¬InPage pa.toNat (state.procs slot').tf
  notTable : ∀ slot va pa, UserMapped state slot va pa →
    ∀ slot' path, (state.procs slot').state ≠ .unused → path.length ≤ 2 →
      tableAt state.mem.bytes (pgtbls state slot') path ≠ 0 →
      ¬InPage pa.toNat (tableAt state.mem.bytes (pgtbls state slot') path)
  notKernel : ∀ slot va pa, UserMapped state slot va pa →
    ∀ page, part.owned page → ¬InPage pa.toNat page

section Isolation

variable {part : KernelPart} {state : State}
  (spaces : Spaces part state free held)
  (owned : part.owned state.trampoline)

include spaces

theorem Spaces.inPage_held
    {holder : Holder Owner} (some : held holder ≠ 0) {va pa : UInt64}
    (isPage : pa = held holder + va % 4096) : InPage pa.toNat (held holder) := by
  have room := (spaces.user.taken some).aligned.room
  have offset : (va % 4096).toNat = va.toNat % 4096 := UInt64.toNat_mod _ _
  have below := Nat.mod_lt va.toNat (show 0 < 4096 by decide)
  unfold InPage
  rw [isPage, UInt64.toNat_add, offset]
  omega

include owned

/-- An address that is open to a process is in a page that it holds. -/
theorem Spaces.userMapped_held
    {slot : Pid} {va pa : UInt64} (mapped : UserMapped state slot va pa) :
    held (.user (.slot slot) (pageOf va)) ≠ 0 ∧
      InPage pa.toNat (held (.user (.slot slot) (pageOf va))) := by
  rcases mapped with ⟨isUsed, flags, found, isUser⟩
  rcases spaces.translate_user owned isUsed found isUser with
    ⟨_, _, isPage, some⟩
  exact ⟨some, spaces.inPage_held some isPage⟩

/-- No other page contains the address. -/
theorem Spaces.userMapped_apart
    {slot : Pid} {va pa : UInt64} (mapped : UserMapped state slot va pa)
    {page : UInt64} (aligned : Aligned page) (inside : InPage pa.toNat page) :
    held (.user (.slot slot) (pageOf va)) = page := by
  rcases spaces.userMapped_held owned mapped with ⟨some, inside'⟩
  exact (spaces.user.taken some).aligned.eq_of_inPage aligned inside' inside

theorem Spaces.userMapped_unique
    {slot slot' : Pid} {va va' pa flags' : UInt64}
    (mapped : UserMapped state slot va pa)
    (isUsed' : (state.procs slot').state ≠ .unused)
    (found' : translate state.mem.bytes (pgtbls state slot') va' =
      some (pa, flags')) : slot' = slot ∧ va' = va := by
  rcases mapped with ⟨isUsed, flags, found, isUser⟩
  rcases spaces.translate_user owned isUsed found isUser with
    ⟨low, small, isPage, some⟩
  rcases spaces.translate_held owned isUsed' found' with
    ⟨holder, some', isPage', place⟩
  have aligned := (spaces.user.taken some).aligned
  have same := aligned.eq_of_inPage (spaces.user.taken some').aligned
    (spaces.inPage_held some isPage) (spaces.inPage_held some' isPage')
  have isHolder := spaces.user.unique _ holder some same
  rcases place with ⟨isUser', low', small'⟩ | ⟨⟨owner, isFrame⟩, _⟩
  · rw [isUser'] at isHolder same isPage'
    rcases Holder.user.inj isHolder with ⟨sameSlot, samePage⟩
    refine ⟨(Owner.slot.inj sameSlot).symm, ?_⟩
    have sums := congrArg UInt64.toNat (isPage.symm.trans isPage')
    have room := aligned.room
    have offset : (va % 4096).toNat = va.toNat % 4096 := UInt64.toNat_mod _ _
    have offset' : (va' % 4096).toNat = va'.toNat % 4096 :=
      UInt64.toNat_mod _ _
    rw [← same, UInt64.toNat_add, UInt64.toNat_add, offset, offset'] at sums
    apply UInt64.toNat_inj.mp
    unfold pageOf at samePage
    omega
  · rw [isFrame] at isHolder
    cases isHolder

/-- Nobody else has the memory that is open to a process. -/
theorem Spaces.isolated : Isolated part state := by
  constructor
  · intro slot va pa mapped slot' va' flags' isUsed' found'
    exact spaces.userMapped_unique owned mapped isUsed' found'
  · intro slot va pa mapped inKernel page isFree inside
    rw [spaces.user.lists.onFreeList_iff] at isFree
    have same := spaces.userMapped_apart owned mapped
      (spaces.user.lists.aligned inKernel page isFree) inside
    rw [← same] at isFree
    exact spaces.user.notFree _ (spaces.userMapped_held owned mapped).1 inKernel
      isFree
  · intro slot va pa mapped slot' isUsed' inside
    have some := spaces.trapframe_some isUsed'
    have aligned := (spaces.user.taken some).aligned
    rw [spaces.trapframe] at aligned
    have same := spaces.userMapped_apart owned mapped aligned inside
    rw [← spaces.trapframe] at same
    cases spaces.user.unique _ _ (spaces.userMapped_held owned mapped).1 same
  · intro slot va pa mapped slot' path isUsed' bound notNull inside
    have aligned := spaces.user.tables.aligned_tableAt (.slot slot') path
    have same := spaces.userMapped_apart owned mapped aligned inside
    exact spaces.user.notTable _ (spaces.userMapped_held owned mapped).1
      (.slot slot') path bound same.symm
  · intro slot va pa mapped page isOwned inside
    have some := spaces.kernel_some isOwned
    have aligned := (spaces.user.taken some).aligned
    rw [(spaces.kernelHeld page isOwned).2] at aligned
    have same := spaces.userMapped_apart owned mapped aligned inside
    rw [← (spaces.kernelHeld page isOwned).2] at same
    cases spaces.user.unique _ _ (spaces.userMapped_held owned mapped).1 same

end Isolation

/-- A machine after its boot, with a first process that has no children. -/
theorem exists_lifeRun :
    ∃ (kernel : Mem.State) (run : TreeRun), StartedWith 0x80005000 kernel ∧
      (lifeSystem kernel 0x80005000).Init run ∧
      (run.state.procs procZero).state = .runnable ∧
      ∀ slot, (run.state.procs slot).parent = none := by
  rcases exists_boot smallLayout someUser_smallLayout
    (show Aligned 0x80005000 by decide) (by decide) (by decide) smallBoot
    (by decide) emptyState with ⟨mem, kernel, final, _, _, started, makes⟩
  rcases procMakeFirst_runs makes with ⟨pgtbl, tf, procs, _⟩
  refine ⟨kernel, ⟨final, [], []⟩, started, ⟨rfl, rfl, smallBoot, makes⟩,
    ?_, ?_⟩
  · change (final.procs procZero).state = .runnable
    rw [procs, Function.update_self]
  · intro slot
    change (final.procs slot).parent = none
    rw [procs]
    by_cases isZero : slot = procZero
    · rw [isZero, Function.update_self]
      rfl
    · rw [Function.update_of_ne isZero]
      rfl

theorem State.alive_of_runnable
    {state : State} {slot : Pid} (runnable : (state.procs slot).state = .runnable) :
    state.Alive slot := by
  unfold State.Alive
  rw [runnable]
  exact ⟨nofun, nofun⟩

/-! ## The way to the kernel -/

/-- The kernel can be entered from each process and finds its own memory. -/
structure GatesOpen (kernel : Mem.State) (trampoline : UInt64) (state : State) :
    Prop where
  /-- The kernel has the address space that `kvm_init` made. -/
  sameKernel : ∀ va, translate state.mem.bytes state.mem.kernelPgtbl va =
    translate kernel.bytes kernel.kernelPgtbl va
  /-- The code of the trampoline is what it was. -/
  sameCode : Unchanged trampoline kernel.bytes state.mem.bytes
  atTrampoline : ∀ slot, (state.procs slot).state ≠ .unused →
    ∀ offset < 4096,
      translate state.mem.bytes (pgtbls state slot) (trampolineVa + offset) =
        some (trampoline + offset, pteR ||| pteX ||| pteV)
  atTrapframe : ∀ slot, (state.procs slot).state ≠ .unused →
    ∀ offset < 4096,
      translate state.mem.bytes (pgtbls state slot) (trapframeVa + offset) =
        some ((state.procs slot).tf + offset, pteR ||| pteW ||| pteV)
  /-- Above the trampoline nothing is mapped. -/
  above : ∀ slot, (state.procs slot).state ≠ .unused → ∀ va, vaMax ≤ va →
    translate state.mem.bytes (pgtbls state slot) va = none

section Gates

variable {part : KernelPart} {state : State} {slot : Pid}
  (spaces : Spaces part state free held)
  (isUsed : (state.procs slot).state ≠ .unused)

include spaces isUsed

/-- Addresses above the user pages are translated by the gates. -/
theorem Spaces.translate_gate
    {va : UInt64} (isHigh : userPages ≤ pageOf va) :
    translate state.mem.bytes (pgtbls state slot) va =
      if Canonical va then
        leafOf (gateEntry state.trampoline (state.procs slot).tf (pageOf va)) va
      else none := by
  have present : ownerRoot state (.slot slot) ≠ 0 :=
    (spaces.slots.used slot isUsed).1
  have walk := Mem.translate_eq spaces.user.tables present va
  have gate := spaces.gates slot isUsed va isHigh
  rw [← gate]
  exact walk

/-- A page of the gates. -/
theorem Spaces.translate_gatePage
    {start stop pa perm : UInt64} (range : PageRange start stop 1)
    (isHigh : userPages ≤ pageOf start) (aligned : Aligned pa)
    (small : perm.toNat < 1024)
    (gate : gateEntry state.trampoline (state.procs slot).tf (pageOf start) =
      leafPte pa perm) {offset : UInt64} (inside : offset < 4096) :
    translate state.mem.bytes (pgtbls state slot) (start + offset) =
      some (pa + offset, perm ||| pteV) := by
  rw [UInt64.lt_iff_toNat_lt] at inside
  have bound : offset.toNat < 4096 * 1 := inside
  have zero : offset.toNat / 4096 = 0 := Nat.div_eq_of_lt inside
  have isPage := range.pageOf_address bound
  rw [zero, Nat.add_zero, ← range.pageOf_start] at isPage
  have leaf := leafOf_leafPte range bound aligned small
  rw [zero, offset_zero] at leaf
  rw [spaces.translate_gate isUsed (by rw [isPage]; exact isHigh),
    if_pos (range.canonical bound), isPage, gate]
  exact leaf

/-- Above the trampoline nothing is mapped. -/
theorem Spaces.translate_above {va : UInt64} (above : vaMax ≤ va) :
    translate state.mem.bytes (pgtbls state slot) va = none := by
  rw [UInt64.le_iff_toNat_le] at above
  have bound : 2 ^ 38 ≤ va.toNat := above
  have small := va.toNat_lt
  by_cases canonical : Canonical va
  · have isHigh : 2 ^ 26 ≤ pageOf va := by
      unfold Canonical at canonical
      unfold pageOf
      omega
    have top : userPages ≤ 2 ^ 26 := by decide
    have notTrampoline : pageOf va ≠ pageOf trampolineVa :=
      Nat.ne_of_gt (Nat.lt_of_lt_of_le (by decide) isHigh)
    have notTrapframe : pageOf va ≠ pageOf trapframeVa :=
      Nat.ne_of_gt (Nat.lt_of_lt_of_le (by decide) isHigh)
    rw [spaces.translate_gate isUsed (Nat.le_trans top isHigh),
      if_pos canonical]
    unfold gateEntry
    rw [if_neg notTrampoline, if_neg notTrapframe]
    rfl
  · unfold Mem.translate
    rw [if_neg canonical]

end Gates

/-- What the owners of the pages say about the way to the kernel. -/
theorem LifeHolds.gatesOpen
    (started : KernelStarted kernel trampoline free) {run : TreeRun}
    (holds : LifeHolds (kernelPart kernel trampoline) trampoline run) :
    GatesOpen kernel trampoline run.state := by
  rcases holds.spaces with ⟨free', held, spaces⟩
  have isTrampoline := holds.atTrampoline
  constructor
  · exact started.translate_eq spaces
  · exact spaces.intact trampoline (Or.inr rfl)
  · intro slot isUsed offset inside
    have aligned := (spaces.user.taken (spaces.kernel_some holds.owned)).aligned
    rw [(spaces.kernelHeld _ holds.owned).2, isTrampoline] at aligned
    apply spaces.translate_gatePage isUsed
      (⟨by decide, by decide, by decide⟩ :
        PageRange trampolineVa (trampolineVa + 4096) 1)
      (by decide) aligned (by decide) _ inside
    rw [isTrampoline]
    rfl
  · intro slot isUsed offset inside
    have aligned := (spaces.user.taken (spaces.trapframe_some isUsed)).aligned
    rw [spaces.trapframe] at aligned
    exact spaces.translate_gatePage isUsed
      (⟨by decide, by decide, by decide⟩ :
        PageRange trapframeVa (trapframeVa + 4096) 1)
      (by decide) aligned (by decide) rfl inside
  · intro slot isUsed va above
    exact spaces.translate_above isUsed above

end Process
end WhuOs
