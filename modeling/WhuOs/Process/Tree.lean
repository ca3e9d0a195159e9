import WhuOs.Library.TransitionSystem
import WhuOs.Process.Runs

/-!
# The process tree

Runs in which processes fork, exit, wait, yield, sleep and wake each other up,
one uninterrupted call after the other.  Beside the kernel a run keeps the exit
statuses passed to `proc_exit` and those `proc_wait` returned, each with the pid
of its process.
-/

namespace WhuOs
namespace Process

open Library
open Library.Bytes
open Program (Runs)

/-- The calls of a process. -/
inductive ProcCall
  | fork
  | exit (exitState : UInt32)
  | wait (addr : UInt64)
  | yield
  | sleep (chan : Option Channel)
  | wakeup (chan : Option Channel)
  /-- The scheduler picks the process. -/
  | schedule

/-- The kernel with the processes that exited and those that were returned by
`proc_wait`. -/
structure TreeRun where
  state : State
  exits : List (Int × UInt32)
  reaps : List (Int × UInt32)

/-- A process that has not exited. -/
def State.Alive (state : State) (slot : Pid) : Prop :=
  (state.procs slot).state ≠ .unused ∧ (state.procs slot).state ≠ .zombie

/-- What a scan of `proc_wait` returns to its caller. -/
def WaitResult.log : WaitResult → List (Int × UInt32)
  | .reaped pid exitState => [(pid, exitState)]
  | .noChild => []
  | .sleeps => []

/-- A live process makes a call that does not panic. -/
inductive TreeStep : TreeRun → Pid × ProcCall → TreeRun → Prop
  | fork {before : TreeRun} {curr : Pid} {pid : Int} {after : State} :
      before.state.Alive curr →
      (procFork curr).Runs before.state pid after →
      TreeStep before (curr, .fork) ⟨after, before.exits, before.reaps⟩
  | exit {before : TreeRun} {curr : Pid} {exitState : UInt32}
      {after : State} :
      before.state.Alive curr →
      (procExit curr exitState).Runs before.state () after →
      TreeStep before (curr, .exit exitState)
        ⟨after, ((before.state.procs curr).pid, exitState) :: before.exits,
          before.reaps⟩
  | wait {before : TreeRun} {curr : Pid} {addr : UInt64}
      {result : WaitResult} {after : State} :
      before.state.Alive curr →
      (procWait curr addr).Runs before.state result after →
      TreeStep before (curr, .wait addr)
        ⟨after, before.exits, result.log ++ before.reaps⟩
  | yield {before : TreeRun} {curr : Pid} {after : State} :
      before.state.Alive curr →
      (procYield curr).Runs before.state () after →
      TreeStep before (curr, .yield) ⟨after, before.exits, before.reaps⟩
  | sleep {before : TreeRun} {curr : Pid} {chan : Option Channel}
      {after : State} :
      before.state.Alive curr →
      (procSleep curr chan).Runs before.state () after →
      TreeStep before (curr, .sleep chan) ⟨after, before.exits, before.reaps⟩
  | wakeup {before : TreeRun} {curr : Pid} {chan : Option Channel}
      {after : State} :
      before.state.Alive curr →
      (procWakeup curr chan).Runs before.state () after →
      TreeStep before (curr, .wakeup chan) ⟨after, before.exits, before.reaps⟩
  | schedule {before : TreeRun} {curr : Pid} :
      (before.state.procs curr).state = .runnable →
      TreeStep before (curr, .schedule)
        ⟨before.state.setProc curr ((before.state.procs curr).setState
          .running), before.exits, before.reaps⟩

/-- Runs from the end of `proc_make_first` on, over any memory. -/
def treeSystem : TransitionSystem TreeRun (Pid × ProcCall) where
  Init run := run.exits = [] ∧ run.reaps = [] ∧
    ∃ boot before, before.procs = (fun _ => emptyProc) ∧
      before.globalPid = 1 ∧
      (procMakeFirst boot).Runs before () run.state
  Step := TreeStep

/-- The processes form a tree of live processes with distinct pids, and the
logs of exits and of returned children fit it. -/
structure TreeHolds (run : TreeRun) : Prop where
  zero : run.state.Alive procZero
  counter : 0 ≤ run.state.globalPid → 0 < run.state.globalPid
  pidPositive : ∀ slot, (run.state.procs slot).state ≠ .unused →
    0 < (run.state.procs slot).pid
  pidBound : 0 ≤ run.state.globalPid → ∀ slot,
    (run.state.procs slot).state ≠ .unused →
    (run.state.procs slot).pid < run.state.globalPid
  pidUnique : ∀ slot slot', (run.state.procs slot).state ≠ .unused →
    (run.state.procs slot').state ≠ .unused →
    (run.state.procs slot).pid = (run.state.procs slot').pid → slot = slot'
  parent : ∀ slot, slot ≠ procZero →
    (run.state.procs slot).state ≠ .unused →
    ∃ parent, (run.state.procs slot).parent = some parent ∧
      run.state.Alive parent
  rootParent : ∀ parent, (run.state.procs procZero).parent ≠ some parent
  unused : ∀ slot, (run.state.procs slot).state = .unused →
    (run.state.procs slot).parent = none ∧ (run.state.procs slot).tf = 0 ∧
      (run.state.procs slot).pgtbl = 0
  exitBound : 0 ≤ run.state.globalPid → ∀ entry ∈ run.exits,
    entry.1 < run.state.globalPid
  exitUnique : (run.exits.map Prod.fst).Nodup
  zombie : ∀ slot, (run.state.procs slot).state = .zombie →
    ((run.state.procs slot).pid, (run.state.procs slot).exitState) ∈
      run.exits ∧
    (run.state.procs slot).pid ∉ run.reaps.map Prod.fst
  alive : ∀ slot, run.state.Alive slot →
    (run.state.procs slot).pid ∉ run.exits.map Prod.fst
  reapUnique : (run.reaps.map Prod.fst).Nodup
  reapExit : ∀ entry ∈ run.reaps, entry ∈ run.exits

namespace TreeHolds

variable {run : TreeRun}

/-- Nobody's parent has exited or is unused. -/
theorem parent_alive
    (holds : TreeHolds run) {slot parent : Pid}
    (isParent : (run.state.procs slot).parent = some parent) :
    run.state.Alive parent := by
  have notZero : slot ≠ procZero := by
    rintro rfl
    exact holds.rootParent parent isParent
  have used : (run.state.procs slot).state ≠ .unused := by
    intro unused
    rw [(holds.unused slot unused).1] at isParent
    cases isParent
  obtain ⟨parent', same, alive⟩ := holds.parent slot notZero used
  rw [isParent] at same
  cases same
  exact alive

/-- Two descriptions of a process that agree on its place in the tree. -/
structure SamePlace (before after : Proc) : Prop where
  pid : after.pid = before.pid
  parent : after.parent = before.parent
  exitState : after.exitState = before.exitState
  tf : after.tf = before.tf
  pgtbl : after.pgtbl = before.pgtbl
  unused : after.state = .unused ↔ before.state = .unused
  zombie : after.state = .zombie ↔ before.state = .zombie

theorem SamePlace.refl (proc : Proc) : SamePlace proc proc :=
  ⟨rfl, rfl, rfl, rfl, rfl, Iff.rfl, Iff.rfl⟩

theorem SamePlace.of_woken
    {before after : Proc} (woken : Woken before after) :
    SamePlace before after := by
  rcases woken with rfl | ⟨sleeping, rfl⟩
  · exact SamePlace.refl _
  · refine ⟨rfl, rfl, rfl, rfl, rfl, ?_, ?_⟩
    · rw [sleeping]
      simp [Proc.setState]
    · rw [sleeping]
      simp [Proc.setState]

/-- Processes may change their states as long as nobody exits or is freed. -/
theorem congr
    (holds : TreeHolds run) {after : State}
    (globalPid : after.globalPid = run.state.globalPid)
    (same : ∀ slot, SamePlace (run.state.procs slot) (after.procs slot)) :
    TreeHolds ⟨after, run.exits, run.reaps⟩ := by
  have alive : ∀ slot, State.Alive after slot ↔ run.state.Alive slot := by
    intro slot
    exact and_congr (not_congr (same slot).unused)
      (not_congr (same slot).zombie)
  refine ⟨?_, ?_, ?_, ?_, ?_, ?_, ?_, ?_, ?_, holds.exitUnique, ?_, ?_,
    holds.reapUnique, holds.reapExit⟩
  · exact (alive procZero).mpr holds.zero
  · simp only [globalPid]
    exact holds.counter
  · intro slot used
    simp only [(same slot).pid]
    exact holds.pidPositive slot fun unused =>
      used ((same slot).unused.mpr unused)
  · simp only [globalPid]
    intro fits slot used
    simp only [(same slot).pid]
    exact holds.pidBound fits slot fun unused =>
      used ((same slot).unused.mpr unused)
  · intro slot slot' used used' equal
    simp only [(same slot).pid, (same slot').pid] at equal
    exact holds.pidUnique slot slot'
      (fun unused => used ((same slot).unused.mpr unused))
      (fun unused => used' ((same slot').unused.mpr unused)) equal
  · intro slot notZero used
    obtain ⟨parent, isParent, parentAlive⟩ := holds.parent slot notZero
      fun unused => used ((same slot).unused.mpr unused)
    exact ⟨parent, (same slot).parent.trans isParent,
      (alive parent).mpr parentAlive⟩
  · intro parent
    simp only [(same procZero).parent]
    exact holds.rootParent parent
  · intro slot unused
    simp only [(same slot).parent, (same slot).tf, (same slot).pgtbl]
    exact holds.unused slot ((same slot).unused.mp unused)
  · simp only [globalPid]
    exact holds.exitBound
  · intro slot zombie
    simp only [(same slot).pid, (same slot).exitState]
    exact holds.zombie slot ((same slot).zombie.mp zombie)
  · intro slot isAlive
    simp only [(same slot).pid]
    exact holds.alive slot ((alive slot).mp isAlive)

/-- A pid more than the last one, or a counter that has overflowed. -/
theorem wrapInt_succ {counter : Int} (fits : 0 ≤ wrapInt (counter + 1)) :
    wrapInt (counter + 1) = counter + 1 := by
  unfold wrapInt at fits ⊢
  split at fits
  · omega
  · next small => rw [if_neg small]

/-- Changing one slot. -/
theorem alive_setProc_of_ne
    {state : State} {slot other : Pid} (differs : other ≠ slot)
    (proc : Proc) :
    (state.setProc slot proc).Alive other ↔ state.Alive other := by
  unfold State.Alive
  rw [setProc_procs_of_ne differs]

/-- An unused slot is given to a child with the next pid. -/
theorem fork
    (holds : TreeHolds run) {curr child : Pid} {mem : Mem.State} {proc : Proc}
    (alive : run.state.Alive curr)
    (unused : (run.state.procs child).state = .unused)
    (fits : 0 ≤ run.state.globalPid)
    (pid : proc.pid = run.state.globalPid) (state : proc.state = .runnable)
    (parent : proc.parent = some curr) :
    TreeHolds ⟨((run.state.setGlobalPid
      (wrapInt (run.state.globalPid + 1))).setMem mem).setProc child proc,
      run.exits, run.reaps⟩ := by
  have positive := holds.counter fits
  have differs : child ≠ procZero := by
    rintro rfl
    exact holds.zero.1 unused
  have currDiffers : curr ≠ child := by
    rintro rfl
    exact alive.1 unused
  have usedChild : proc.state ≠ .unused := by
    rw [state]
    decide
  have aliveKept : ∀ slot, slot ≠ child → (State.Alive (((run.state.setGlobalPid
      (wrapInt (run.state.globalPid + 1))).setMem mem).setProc child proc)
        slot ↔ run.state.Alive slot) :=
    fun slot other => alive_setProc_of_ne other proc
  have kept : ∀ slot, slot ≠ child → (((run.state.setGlobalPid
      (wrapInt (run.state.globalPid + 1))).setMem mem).setProc child
        proc).procs slot = run.state.procs slot :=
    fun slot other => setProc_procs_of_ne other proc
  refine ⟨?_, ?_, ?_, ?_, ?_, ?_, ?_, ?_, ?_, holds.exitUnique, ?_, ?_,
    holds.reapUnique, holds.reapExit⟩
  · exact (aliveKept procZero differs.symm).mpr holds.zero
  · intro newFits
    show 0 < wrapInt (run.state.globalPid + 1)
    rw [wrapInt_succ newFits]
    omega
  · intro slot used
    by_cases same : slot = child
    · subst same
      rw [setProc_procs_self, pid]
      exact positive
    · simp only [kept slot same] at used ⊢
      exact holds.pidPositive slot used
  · intro newFits slot used
    have next := wrapInt_succ newFits
    by_cases same : slot = child
    · subst same
      rw [setProc_procs_self, pid]
      show _ < wrapInt (run.state.globalPid + 1)
      omega
    · simp only [kept slot same] at used ⊢
      have bound := holds.pidBound fits slot used
      show _ < wrapInt (run.state.globalPid + 1)
      omega
  · intro slot slot' used used' equal
    by_cases same : slot = child
    · by_cases same' : slot' = child
      · rw [same, same']
      · subst same
        simp only [setProc_procs_self, kept slot' same', pid] at used' equal
        have bound := holds.pidBound fits slot' used'
        omega
    · by_cases same' : slot' = child
      · subst same'
        simp only [setProc_procs_self, kept slot same, pid] at used equal
        have bound := holds.pidBound fits slot used
        omega
      · simp only [kept slot same, kept slot' same'] at used used' equal
        exact holds.pidUnique slot slot' used used' equal
  · intro slot notZero used
    by_cases same : slot = child
    · subst same
      rw [setProc_procs_self]
      exact ⟨curr, parent, (aliveKept curr currDiffers).mpr alive⟩
    · simp only [kept slot same] at used ⊢
      obtain ⟨parent', isParent, parentAlive⟩ := holds.parent slot notZero used
      have other : parent' ≠ child := by
        rintro rfl
        exact parentAlive.1 unused
      exact ⟨parent', isParent, (aliveKept parent' other).mpr parentAlive⟩
  · intro parent'
    rw [kept procZero differs.symm]
    exact holds.rootParent parent'
  · intro slot isUnused
    by_cases same : slot = child
    · subst same
      rw [setProc_procs_self] at isUnused
      exact absurd isUnused usedChild
    · simp only [kept slot same] at isUnused ⊢
      exact holds.unused slot isUnused
  · intro newFits entry member
    have bound := holds.exitBound fits entry member
    show _ < wrapInt (run.state.globalPid + 1)
    rw [wrapInt_succ newFits]
    omega
  · intro slot zombie
    by_cases same : slot = child
    · subst same
      rw [setProc_procs_self, state] at zombie
      cases zombie
    · simp only [kept slot same] at zombie ⊢
      exact holds.zombie slot zombie
  · intro slot isAlive
    by_cases same : slot = child
    · subst same
      rw [setProc_procs_self, pid]
      intro member
      obtain ⟨entry, isExit, equal⟩ := List.mem_map.mp member
      have bound := holds.exitBound fits entry isExit
      omega
    · rw [kept slot same]
      exact holds.alive slot ((aliveKept slot same).mp isAlive)

/-- A pid is skipped. -/
theorem skipPid
    (holds : TreeHolds run) (fits : 0 ≤ run.state.globalPid) :
    TreeHolds ⟨run.state.setGlobalPid (wrapInt (run.state.globalPid + 1)),
      run.exits, run.reaps⟩ := by
  refine ⟨holds.zero, fun newFits => ?_, holds.pidPositive,
    fun newFits slot used => ?_, holds.pidUnique, holds.parent,
    holds.rootParent, holds.unused, fun newFits entry member => ?_,
    holds.exitUnique, holds.zombie, holds.alive, holds.reapUnique,
    holds.reapExit⟩
  · have next := wrapInt_succ newFits
    show 0 < wrapInt (run.state.globalPid + 1)
    omega
  · have bound := holds.pidBound fits slot used
    have next := wrapInt_succ newFits
    show (run.state.procs slot).pid < wrapInt (run.state.globalPid + 1)
    omega
  · have bound := holds.exitBound fits entry member
    have next := wrapInt_succ newFits
    show _ < wrapInt (run.state.globalPid + 1)
    omega

/-- A slot without a live process is cleared. -/
theorem freeSlot
    (holds : TreeHolds run) {slot : Pid} (notAlive : ¬run.state.Alive slot)
    (mem : Mem.State) (proc : Proc) :
    TreeHolds ⟨(run.state.setMem mem).setProc slot proc.freed, run.exits,
      run.reaps⟩ := by
  have notZero : procZero ≠ slot := by
    rintro rfl
    exact notAlive holds.zero
  have kept : ∀ other, other ≠ slot → ((run.state.setMem mem).setProc slot
      proc.freed).procs other = run.state.procs other :=
    fun other differs => setProc_procs_of_ne differs _
  have aliveKept : ∀ other, other ≠ slot →
      (((run.state.setMem mem).setProc slot proc.freed).Alive other ↔
        run.state.Alive other) :=
    fun other differs => alive_setProc_of_ne differs _
  have usedOther : ∀ other, (((run.state.setMem mem).setProc slot
      proc.freed).procs other).state ≠ .unused → other ≠ slot := by
    rintro other used rfl
    rw [setProc_procs_self] at used
    exact used rfl
  refine ⟨(aliveKept procZero notZero).mpr holds.zero, holds.counter, ?_, ?_,
    ?_, ?_, ?_, ?_, holds.exitBound, holds.exitUnique, ?_, ?_,
    holds.reapUnique, holds.reapExit⟩
  · intro other used
    have differs := usedOther other used
    simp only [kept other differs] at used ⊢
    exact holds.pidPositive other used
  · intro fits other used
    have differs := usedOther other used
    simp only [kept other differs] at used ⊢
    exact holds.pidBound fits other used
  · intro other other' used used' equal
    have differs := usedOther other used
    have differs' := usedOther other' used'
    simp only [kept other differs, kept other' differs'] at used used' equal
    exact holds.pidUnique other other' used used' equal
  · intro other otherNotZero used
    have differs := usedOther other used
    simp only [kept other differs] at used ⊢
    obtain ⟨parent, isParent, alive⟩ := holds.parent other otherNotZero used
    have parentDiffers : parent ≠ slot := by
      rintro rfl
      exact notAlive alive
    exact ⟨parent, isParent, (aliveKept parent parentDiffers).mpr alive⟩
  · intro parent
    rw [kept procZero notZero]
    exact holds.rootParent parent
  · intro other unused
    by_cases same : other = slot
    · subst same
      rw [setProc_procs_self]
      exact ⟨rfl, rfl, rfl⟩
    · simp only [kept other same] at unused ⊢
      exact holds.unused other unused
  · intro other zombie
    have differs := usedOther other (by rw [zombie]; decide)
    simp only [kept other differs] at zombie ⊢
    exact holds.zombie other zombie
  · intro other alive
    have differs := usedOther other alive.1
    rw [kept other differs]
    exact holds.alive other ((aliveKept other differs).mp alive)

/-- A process that exited is returned to its parent. -/
theorem logReap
    (holds : TreeHolds run) {entry : Int × UInt32}
    (exited : entry ∈ run.exits) (fresh : entry.1 ∉ run.reaps.map Prod.fst)
    (gone : ∀ slot, (run.state.procs slot).state = .zombie →
      (run.state.procs slot).pid ≠ entry.1) :
    TreeHolds ⟨run.state, run.exits, entry :: run.reaps⟩ := by
  refine ⟨holds.zero, holds.counter, holds.pidPositive, holds.pidBound,
    holds.pidUnique, holds.parent, holds.rootParent, holds.unused,
    holds.exitBound, holds.exitUnique, fun slot zombie => ?_, holds.alive,
    List.nodup_cons.mpr ⟨fresh, holds.reapUnique⟩, fun other member => ?_⟩
  · obtain ⟨exit, notReaped⟩ := holds.zombie slot zombie
    refine ⟨exit, fun member => ?_⟩
    rcases List.mem_cons.mp member with same | member
    · exact gone slot zombie same
    · exact notReaped member
  · rcases List.mem_cons.mp member with rfl | member
    · exact exited
    · exact holds.reapExit other member

/-- The children of a process are handed to the first one. -/
theorem reparent
    (holds : TreeHolds run) (curr : Pid) :
    TreeHolds ⟨run.state.setProcs fun slot =>
      (run.state.procs slot).reparented curr, run.exits, run.reaps⟩ := by
  have sameState : ∀ slot, ((run.state.procs slot).reparented curr).state =
      (run.state.procs slot).state := by
    intro slot
    unfold Proc.reparented
    split <;> rfl
  have samePid : ∀ slot, ((run.state.procs slot).reparented curr).pid =
      (run.state.procs slot).pid := by
    intro slot
    unfold Proc.reparented
    split <;> rfl
  have sameExit : ∀ slot, ((run.state.procs slot).reparented curr).exitState =
      (run.state.procs slot).exitState := by
    intro slot
    unfold Proc.reparented
    split <;> rfl
  have alive : ∀ slot, (run.state.setProcs fun slot =>
      (run.state.procs slot).reparented curr).Alive slot ↔
        run.state.Alive slot := by
    intro slot
    unfold State.Alive
    rw [State.setProcs_procs, sameState]
  refine ⟨(alive procZero).mpr holds.zero, holds.counter, ?_, ?_, ?_, ?_, ?_,
    ?_, holds.exitBound, holds.exitUnique, ?_, ?_, holds.reapUnique,
    holds.reapExit⟩
  · intro slot used
    simp only [State.setProcs_procs, sameState, samePid] at used ⊢
    exact holds.pidPositive slot used
  · intro fits slot used
    simp only [State.setProcs_procs, sameState, samePid] at used ⊢
    exact holds.pidBound fits slot used
  · intro slot slot' used used' equal
    simp only [State.setProcs_procs, sameState, samePid] at used used' equal
    exact holds.pidUnique slot slot' used used' equal
  · intro slot notZero used
    simp only [State.setProcs_procs, sameState] at used ⊢
    obtain ⟨parent, isParent, parentAlive⟩ := holds.parent slot notZero used
    unfold Proc.reparented
    split
    · exact ⟨procZero, rfl, (alive procZero).mpr holds.zero⟩
    · exact ⟨parent, isParent, (alive parent).mpr parentAlive⟩
  · intro parent
    simp only [State.setProcs_procs]
    unfold Proc.reparented
    rw [if_neg (holds.rootParent curr)]
    exact holds.rootParent parent
  · intro slot unused
    simp only [State.setProcs_procs, sameState] at unused ⊢
    have cleared := holds.unused slot unused
    unfold Proc.reparented
    rw [if_neg (by rw [cleared.1]; exact nofun)]
    exact cleared
  · intro slot zombie
    simp only [State.setProcs_procs, sameState, samePid, sameExit] at zombie ⊢
    exact holds.zombie slot zombie
  · intro slot isAlive
    simp only [State.setProcs_procs, samePid]
    exact holds.alive slot ((alive slot).mp isAlive)

/-- A process without children exits. -/
theorem exit
    (holds : TreeHolds run) {curr : Pid} (exitState : UInt32)
    (alive : run.state.Alive curr) (notZero : curr ≠ procZero)
    (childless : ∀ slot, (run.state.procs slot).parent ≠ some curr) :
    TreeHolds ⟨run.state.setProc curr
      ((run.state.procs curr).exited exitState),
      ((run.state.procs curr).pid, exitState) :: run.exits, run.reaps⟩ := by
  have kept : ∀ other, other ≠ curr → (run.state.setProc curr
      ((run.state.procs curr).exited exitState)).procs other =
        run.state.procs other :=
    fun other differs => setProc_procs_of_ne differs _
  have samePid : ∀ slot, ((run.state.setProc curr
      ((run.state.procs curr).exited exitState)).procs slot).pid =
        (run.state.procs slot).pid := by
    intro slot
    by_cases same : slot = curr
    · subst same
      rw [setProc_procs_self]
      rfl
    · rw [kept slot same]
  have sameParent : ∀ slot, ((run.state.setProc curr
      ((run.state.procs curr).exited exitState)).procs slot).parent =
        (run.state.procs slot).parent := by
    intro slot
    by_cases same : slot = curr
    · subst same
      rw [setProc_procs_self]
      rfl
    · rw [kept slot same]
  have sameUnused : ∀ slot, ((run.state.setProc curr
      ((run.state.procs curr).exited exitState)).procs slot).state ≠ .unused →
        (run.state.procs slot).state ≠ .unused := by
    intro slot used
    by_cases same : slot = curr
    · subst same
      exact alive.1
    · rwa [kept slot same] at used
  have aliveKept : ∀ other, other ≠ curr → ((run.state.setProc curr
      ((run.state.procs curr).exited exitState)).Alive other ↔
        run.state.Alive other) :=
    fun other differs => alive_setProc_of_ne differs _
  have fresh := holds.alive curr alive
  refine ⟨(aliveKept procZero notZero.symm).mpr holds.zero, holds.counter,
    ?_, ?_, ?_, ?_, ?_, ?_, ?_, List.nodup_cons.mpr ⟨fresh,
      holds.exitUnique⟩, ?_, ?_, holds.reapUnique,
    fun entry member => List.mem_cons_of_mem _ (holds.reapExit entry member)⟩
  · intro slot used
    simp only [samePid]
    exact holds.pidPositive slot (sameUnused slot used)
  · intro fits slot used
    simp only [samePid]
    exact holds.pidBound fits slot (sameUnused slot used)
  · intro slot slot' used used' equal
    simp only [samePid] at equal
    exact holds.pidUnique slot slot' (sameUnused slot used)
      (sameUnused slot' used') equal
  · intro slot slotNotZero used
    obtain ⟨parent, isParent, parentAlive⟩ := holds.parent slot slotNotZero
      (sameUnused slot used)
    have differs : parent ≠ curr := by
      rintro rfl
      exact childless slot isParent
    exact ⟨parent, (sameParent slot).trans isParent,
      (aliveKept parent differs).mpr parentAlive⟩
  · intro parent
    simp only [sameParent]
    exact holds.rootParent parent
  · intro slot unused
    have differs : slot ≠ curr := by
      rintro rfl
      rw [setProc_procs_self] at unused
      cases unused
    simp only [kept slot differs] at unused ⊢
    exact holds.unused slot unused
  · intro fits entry member
    rcases List.mem_cons.mp member with rfl | member
    · exact holds.pidBound fits curr alive.1
    · exact holds.exitBound fits entry member
  · intro slot zombie
    by_cases same : slot = curr
    · subst same
      rw [setProc_procs_self]
      refine ⟨List.mem_cons_self, fun reaped => fresh ?_⟩
      obtain ⟨entry, member, equal⟩ := List.mem_map.mp reaped
      exact List.mem_map.mpr ⟨entry, holds.reapExit entry member, equal⟩
    · simp only [kept slot same] at zombie ⊢
      obtain ⟨exit, notReaped⟩ := holds.zombie slot zombie
      exact ⟨List.mem_cons_of_mem _ exit, notReaped⟩
  · intro slot isAlive
    have differs : slot ≠ curr := by
      rintro rfl
      have dead := isAlive.2
      rw [setProc_procs_self] at dead
      exact dead rfl
    have wasAlive := (aliveKept slot differs).mp isAlive
    simp only [samePid]
    intro member
    rcases List.mem_cons.mp member with same | member
    · exact differs (holds.pidUnique slot curr wasAlive.1 alive.1 same)
    · exact holds.alive slot wasAlive member

/-- The process a change of one slot is about stays where it is. -/
theorem samePlace_setProc
    {state : State} {curr : Pid} {proc : Proc}
    (same : SamePlace (state.procs curr) proc) (slot : Pid) :
    SamePlace (state.procs slot) ((state.setProc curr proc).procs slot) := by
  by_cases isCurr : slot = curr
  · subst isCurr
    rw [setProc_procs_self]
    exact same
  · rw [setProc_procs_of_ne isCurr]
    exact SamePlace.refl _

/-- A live process that only changes its state to that of another live one. -/
theorem samePlace_of_alive
    {state : State} {curr : Pid} (alive : state.Alive curr) {proc : Proc}
    (pid : proc.pid = (state.procs curr).pid)
    (parent : proc.parent = (state.procs curr).parent)
    (exitState : proc.exitState = (state.procs curr).exitState)
    (tf : proc.tf = (state.procs curr).tf)
    (pgtbl : proc.pgtbl = (state.procs curr).pgtbl)
    (used : proc.state ≠ .unused) (notZombie : proc.state ≠ .zombie) :
    SamePlace (state.procs curr) proc :=
  ⟨pid, parent, exitState, tf, pgtbl, iff_of_false used alive.1,
    iff_of_false notZombie alive.2⟩

theorem sleep
    (holds : TreeHolds run) {curr : Pid} {chan : Option Channel}
    {after : State} (alive : run.state.Alive curr)
    (sleeps : (procSleep curr chan).Runs run.state () after) :
    TreeHolds ⟨after, run.exits, run.reaps⟩ := by
  simp only [procSleep, runs_modifyProc] at sleeps
  subst sleeps
  refine holds.congr rfl (samePlace_setProc (samePlace_of_alive alive rfl rfl
    rfl rfl rfl ?_ ?_))
  · intro wrong
    cases wrong
  · intro wrong
    cases wrong

/-- Every call keeps the tree. -/
theorem step
    {before after : TreeRun} {action : Pid × ProcCall}
    (holds : TreeHolds before) (step : TreeStep before action after) :
    TreeHolds after := by
  cases step with
  | @fork curr _ after alive forks =>
      rcases procFork_runs alive.1 forks with
        ⟨_, rfl⟩ | ⟨child, found, fits, ⟨_, mem, rfl⟩ |
          ⟨tf, pgtbl, _, _, _, mem, _, _, _, _, _, _, _, rfl⟩⟩
      · exact holds
      · have unused : (before.state.procs child).state = .unused := by
          simpa using List.find?_some found
        exact (holds.skipPid fits).freeSlot (fun isAlive => isAlive.1 unused)
          mem _
      · have unused : (before.state.procs child).state = .unused := by
          simpa using List.find?_some found
        exact holds.fork alive unused fits rfl rfl rfl
  | @exit curr exitState after alive exits =>
      obtain ⟨notZero, _, globalPid, _, procs, woken, final⟩ :=
        procExit_runs exits
      have reparented := holds.reparent curr
      have asleep : TreeHolds ⟨before.state.setProcs procs, before.exits,
          before.reaps⟩ := by
        refine reparented.congr rfl fun slot => ?_
        exact SamePlace.of_woken (woken slot)
      have place : ∀ slot, SamePlace ((before.state.procs slot).reparented
          curr) (procs slot) := fun slot => SamePlace.of_woken (woken slot)
      have kept : ∀ slot, ((before.state.procs slot).reparented curr).state =
          (before.state.procs slot).state ∧
          ((before.state.procs slot).reparented curr).pid =
          (before.state.procs slot).pid := by
        intro slot
        unfold Proc.reparented
        split <;> exact ⟨rfl, rfl⟩
      have stillAlive : (before.state.setProcs procs).Alive curr := by
        refine ⟨fun unused => alive.1 ?_, fun zombie => alive.2 ?_⟩
        · rw [← (kept curr).1]
          exact (place curr).unused.mp unused
        · rw [← (kept curr).1]
          exact (place curr).zombie.mp zombie
      have childless : ∀ slot, ((before.state.setProcs procs).procs
          slot).parent ≠ some curr := by
        intro slot
        simp only [State.setProcs_procs]
        rw [(place slot).parent]
        unfold Proc.reparented
        split
        · intro same
          exact notZero (Option.some.inj same).symm
        · assumption
      have exited := asleep.exit exitState stillAlive notZero childless
      have samePid : (procs curr).pid = (before.state.procs curr).pid :=
        (place curr).pid.trans (kept curr).2
      simp only [State.setProcs_procs, samePid] at exited
      refine exited.congr globalPid fun slot => ?_
      rw [final]
      exact SamePlace.refl _
  | @wait curr addr result after alive waits =>
      rcases procWait_runs waits with
        ⟨slot, _, mem, found, _, _, rfl, rfl⟩ | ⟨_, _, rfl, sleeps⟩ |
          ⟨_, rfl, rfl⟩
      · have child : (before.state.procs slot).parent = some curr ∧
            (before.state.procs slot).state = .zombie := by
          simpa using List.find?_some found
        have dead : ¬before.state.Alive slot := fun isAlive =>
          isAlive.2 child.2
        have freed := holds.freeSlot dead mem (before.state.procs slot)
        obtain ⟨exit, notReaped⟩ := holds.zombie slot child.2
        refine freed.logReap exit notReaped fun other zombie same => ?_
        by_cases sameSlot : other = slot
        · subst sameSlot
          rw [setProc_procs_self] at zombie
          cases zombie
        · rw [setProc_procs_of_ne sameSlot] at zombie same
          refine sameSlot (holds.pidUnique other slot ?_ ?_ same)
          · intro unused
            have unused : (before.state.procs other).state = .unused := unused
            have zombie : (before.state.procs other).state = .zombie := zombie
            rw [unused] at zombie
            cases zombie
          · rw [child.2]
            decide
      · exact holds.sleep alive sleeps
      · exact holds
  | @yield curr after alive yields =>
      simp only [procYield, runs_modifyProc] at yields
      subst yields
      refine holds.congr rfl (samePlace_setProc (samePlace_of_alive alive rfl
        rfl rfl rfl rfl ?_ ?_))
      · intro wrong
        cases wrong
      · intro wrong
        cases wrong
  | sleep alive sleeps => exact holds.sleep alive sleeps
  | wakeup alive wakes =>
      obtain ⟨_, globalPid, _, _, woken⟩ := procWakeup_runs wakes
      exact holds.congr globalPid fun slot => SamePlace.of_woken (woken slot)
  | @schedule curr runnable =>
      have alive : before.state.Alive curr := by
        unfold State.Alive
        rw [runnable]
        decide
      refine holds.congr rfl (samePlace_setProc (samePlace_of_alive alive rfl
        rfl rfl rfl rfl ?_ ?_))
      · intro wrong
        cases wrong
      · intro wrong
        cases wrong

/-- The first process alone. -/
theorem first
    {state : State} {proc : Proc}
    (procs : state.procs = Function.update (fun _ => emptyProc) procZero proc)
    (globalPid : state.globalPid = 2) (pid : proc.pid = 1)
    (runnable : proc.state = .runnable) (parent : proc.parent = none) :
    TreeHolds ⟨state, [], []⟩ := by
  have zero : state.procs procZero = proc := by
    rw [procs, Function.update_self]
  have others : ∀ slot, slot ≠ procZero → state.procs slot = emptyProc := by
    intro slot differs
    rw [procs, Function.update_of_ne differs]
  have onlyZero : ∀ slot, (state.procs slot).state ≠ .unused →
      slot = procZero := by
    intro slot used
    by_contra differs
    rw [others slot differs] at used
    exact used rfl
  refine ⟨?_, ?_, ?_, ?_, ?_, ?_, ?_, ?_, ?_, List.nodup_nil, ?_, ?_,
    List.nodup_nil, ?_⟩
  · unfold State.Alive
    rw [zero, runnable]
    decide
  · intro _
    rw [globalPid]
    decide
  · intro slot used
    obtain rfl := onlyZero slot used
    rw [zero, pid]
    decide
  · intro _ slot used
    obtain rfl := onlyZero slot used
    rw [zero, pid, globalPid]
    decide
  · intro slot slot' used used' _
    rw [onlyZero slot used, onlyZero slot' used']
  · intro slot differs used
    exact absurd (onlyZero slot used) differs
  · intro other
    rw [zero, parent]
    exact nofun
  · intro slot unused
    have differs : slot ≠ procZero := by
      rintro rfl
      rw [zero, runnable] at unused
      cases unused
    rw [others slot differs]
    exact ⟨rfl, rfl, rfl⟩
  · intro _ entry member
    cases member
  · intro slot zombie
    obtain rfl := onlyZero slot (by rw [zombie]; decide)
    rw [zero, runnable] at zombie
    cases zombie
  · intro slot _ member
    cases member
  · intro entry member
    cases member

theorem of_reachable
    {run : TreeRun} (reachable : treeSystem.Reachable run) :
    TreeHolds run := by
  refine reachable.invariant ?_ ?_
  · rintro ⟨state, _, _⟩ ⟨rfl, rfl, boot, before, empty, counter, makes⟩
    obtain ⟨pgtbl, tf, procs, globalPid⟩ := procMakeFirst_runs makes
    rw [empty] at procs
    rw [counter] at procs globalPid
    exact first procs globalPid rfl rfl rfl
  · intro before action after holds _ step
    exact holds.step step

end TreeHolds

/-! ## A machine with few pages -/

/-- A memory in which pages start with the address of the next one.  Two lists
end, at the pages `0x80112` and `0x80913`. -/
def chainedBytes : Bytes := fun address =>
  if address % 4096 < 8 ∧ address / 4096 ≠ 0x80112 ∧
      address / 4096 ≠ 0x80913 then
    byteOf (address / 4096 * 4096 + 4096) (address % 4096)
  else 0

/-- A machine with 19 free pages in the kernel region and 20 in the user
region. -/
def smallState : State :=
  ⟨⟨chainedBytes, ⟨0x80020000, 0x80820000, 19, 0x80100000⟩,
      ⟨0x80820000, 0x88000000, 20, 0x80900000⟩, 0⟩,
    fun _ => emptyProc, 1, 0x80005000⟩

/-- An empty first program. -/
def smallBoot : BootData :=
  ⟨fun _ => 0, 0, 0, 0, 0⟩

theorem procMakeFirst_small :
    ((procMakeFirst smallBoot).exec smallState).isOk = true := by
  decide +kernel

end Process
end WhuOs
