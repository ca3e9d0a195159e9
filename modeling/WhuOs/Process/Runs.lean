import WhuOs.Process.Defs

/-!
# Runs of the process functions

What each function of the process module does to the process table when it does
not panic, with the run of the memory manager it contains.
-/

namespace WhuOs
namespace Process

open Library
open Mem (MemM pmemAlloc uvmCopyPgtbl uvmDestroyPgtbl)
open Program (Runs)

variable {state final : State}

@[simp] theorem runs_onMem
    {α : Type} {program : MemM α} {result : α} :
    (onMem program).Runs state result final ↔
      ∃ mem, program.Runs state.mem result mem ∧
        State.setMem mem state = final := by
  unfold onMem
  rw [Program.runs_zoom]
  · intro mem state
    rfl
  · intro mem mem' state
    rfl

@[simp] theorem runs_getProc {slot : Pid} {result : Proc} :
    (getProc slot).Runs state result final ↔
      state.procs slot = result ∧ state = final := by
  simp only [getProc, Program.runs_bind, Program.runs_get, Program.runs_pure]
  constructor
  · rintro ⟨_, _, ⟨rfl, rfl⟩, rfl, rfl⟩
    exact ⟨rfl, rfl⟩
  · rintro ⟨rfl, rfl⟩
    exact ⟨_, _, ⟨rfl, rfl⟩, rfl, rfl⟩

@[simp] theorem runs_modifyProc
    {slot : Pid} {change : Proc → Proc} {result : Unit} :
    (modifyProc slot change).Runs state result final ↔
      state.setProc slot (change (state.procs slot)) = final := by
  simp [modifyProc]

@[simp] theorem setProc_setProc (slot : Pid) (proc proc' : Proc) :
    (state.setProc slot proc).setProc slot proc' = state.setProc slot proc' := by
  simp only [State.setProc, Function.update_idem]

@[simp] theorem setProc_setMem (slot : Pid) (proc : Proc) (mem : Mem.State) :
    (state.setProc slot proc).setMem mem =
      (state.setMem mem).setProc slot proc := rfl

@[simp] theorem setMem_setMem (mem mem' : Mem.State) :
    (state.setMem mem).setMem mem' = state.setMem mem' := rfl

@[simp] theorem setProc_procs_self (slot : Pid) (proc : Proc) :
    (state.setProc slot proc).procs slot = proc :=
  Function.update_self _ _ _

theorem setProc_procs_of_ne
    {slot other : Pid} (differs : other ≠ slot) (proc : Proc) :
    (state.setProc slot proc).procs other = state.procs other :=
  Function.update_of_ne differs _ _

theorem allocPid_runs
    {pid : Int} (run : allocPid.Runs state pid final) :
    0 ≤ state.globalPid ∧ pid = state.globalPid ∧
      final = state.setGlobalPid (wrapInt (state.globalPid + 1)) := by
  simp only [allocPid, Program.runs_bind, Program.runs_get,
    Program.runs_assert, Program.runs_modify, Program.runs_pure,
    decide_eq_true_eq] at run
  obtain ⟨_, _, ⟨rfl, rfl⟩, _, _, ⟨fits, rfl⟩, _, _, rfl, rfl, rfl⟩ := run
  exact ⟨fits, rfl, rfl⟩

/-- A slot after `proc_free`. -/
def Proc.freed (proc : Proc) : Proc :=
  ⟨0, .unused, none, 0, none, 0, 0, proc.ustackPages, 0, proc.kstack⟩

/-- The pages of a process are freed and its slot is cleared. -/
theorem procFree_runs
    {slot : Pid} {result : Unit}
    (run : (procFree slot).Runs state result final) :
    ∃ middle mem,
      (freeUnlessNull (state.procs slot).tf).Runs state.mem () middle ∧
      (uvmDestroyPgtbl (state.procs slot).pgtbl 3).Runs middle () mem ∧
      final = (state.setMem mem).setProc slot (state.procs slot).freed := by
  simp only [procFree, Program.runs_bind, runs_getProc, runs_onMem,
    runs_modifyProc] at run
  obtain ⟨_, _, ⟨rfl, rfl⟩, _, _, ⟨middle, freeTf, rfl⟩, _, _,
    ⟨mem, destroy, rfl⟩, rfl⟩ := run
  exact ⟨middle, mem, freeTf, destroy, rfl⟩

/-- A slot that `proc_alloc` returns. -/
def Proc.allocated (proc : Proc) (pid : Int) (tf pgtbl kstack : UInt64) :
    Proc :=
  ⟨pid, .runnable, proc.parent, proc.exitState, proc.sleepSpace, pgtbl,
    proc.heapTop, proc.ustackPages, tf, kstack⟩

/-- The outcomes of `proc_alloc`: no slot is unused, there is not enough memory,
or the first unused slot gets a pid, a trapframe and a page table. -/
theorem procAlloc_runs
    {result : Option Pid} (run : procAlloc.Runs state result final) :
    (result = none ∧ final = state) ∨
    ∃ slot, unusedSlot state = some slot ∧ 0 ≤ state.globalPid ∧
      ((result = none ∧ ∃ mem,
        final = ((state.setGlobalPid (wrapInt (state.globalPid + 1))).setMem
          mem).setProc slot (state.procs slot).freed) ∨
      ∃ tf pgtbl middle mem,
        result = some slot ∧ tf ≠ 0 ∧ pgtbl ≠ 0 ∧
        (pmemAlloc true).Runs state.mem tf middle ∧
        (procPgtblInit state.trampoline tf).Runs middle pgtbl mem ∧
        final = ((state.setGlobalPid (wrapInt (state.globalPid + 1))).setMem
          mem).setProc slot ((state.procs slot).allocated state.globalPid tf
            pgtbl (kstackOf slot))) := by
  simp only [procAlloc, Program.runs_bind, Program.runs_get] at run
  obtain ⟨_, _, ⟨rfl, rfl⟩, run⟩ := run
  cases found : unusedSlot state with
  | none =>
      simp only [found, Program.runs_pure] at run
      exact Or.inl ⟨run.1.symm, run.2.symm⟩
  | some slot =>
      simp only [found, Program.runs_bind, runs_modifyProc, runs_onMem] at run
      obtain ⟨pid, _, allocPid, _, _, rfl, tf, _, ⟨middle, allocTf, rfl⟩, _, _,
        rfl, run⟩ := run
      obtain ⟨fits, rfl, rfl⟩ := allocPid_runs allocPid
      refine Or.inr ⟨slot, rfl, fits, ?_⟩
      split at run
      · simp only [Program.runs_bind, Program.runs_pure] at run
        obtain ⟨_, _, free, rfl, rfl⟩ := run
        obtain ⟨_, mem, _, _, rfl⟩ := procFree_runs free
        refine Or.inl ⟨rfl, mem, ?_⟩
        simp [Proc.freed, Proc.setTf]
      · next tfSome =>
        simp only [Program.runs_bind, runs_modifyProc, runs_onMem] at run
        obtain ⟨pgtbl, _, ⟨mem, init, rfl⟩, _, _, rfl, run⟩ := run
        split at run
        · simp only [Program.runs_bind, Program.runs_pure] at run
          obtain ⟨_, _, free, rfl, rfl⟩ := run
          obtain ⟨_, mem', _, _, rfl⟩ := procFree_runs free
          refine Or.inl ⟨rfl, mem', ?_⟩
          simp [Proc.freed, Proc.setTf, Proc.setPgtbl]
        · next pgtblSome =>
          simp only [Program.runs_bind, runs_modifyProc,
            Program.runs_pure] at run
          obtain ⟨_, _, rfl, rfl, rfl⟩ := run
          refine Or.inr ⟨tf, pgtbl, middle, mem, rfl, tfSome, pgtblSome,
            allocTf, init, ?_⟩
          simp [Proc.allocated, Proc.setTf, Proc.setPgtbl, Proc.setKstack]

/-- A child that `proc_fork` returns. -/
def Proc.forked (proc : Proc) (curr : Pid) (parent : Proc) (pid : Int)
    (tf pgtbl kstack : UInt64) : Proc :=
  ⟨pid, .runnable, some curr, proc.exitState, proc.sleepSpace, pgtbl,
    parent.heapTop, proc.ustackPages, tf, kstack⟩

/-- `proc_fork` with a slot for the child. -/
theorem procFork_of_alloc
    {curr child : Pid} {result : Int} {middle : State}
    (alive : (state.procs curr).state ≠ .unused)
    (alloc : procAlloc.Runs state (some child) middle)
    (run : (procFork curr).Runs state result final) :
    unusedSlot state = some child ∧ 0 ≤ state.globalPid ∧
    ∃ tf pgtbl mem₁ mem₂ mem₃ mem₄,
      result = state.globalPid ∧ tf ≠ 0 ∧ pgtbl ≠ 0 ∧
      (pmemAlloc true).Runs state.mem tf mem₁ ∧
      (procPgtblInit state.trampoline tf).Runs mem₁ pgtbl mem₂ ∧
      (uvmCopyPgtbl (state.procs curr).pgtbl pgtbl
        (state.procs curr).heapTop
        (state.procs curr).ustackPages.toUInt32).Runs mem₂ () mem₃ ∧
      (copyTrapframe (state.procs curr).tf tf).Runs mem₃ () mem₄ ∧
      final = ((state.setGlobalPid (wrapInt (state.globalPid + 1))).setMem
        mem₄).setProc child ((state.procs child).forked curr
          (state.procs curr) state.globalPid tf pgtbl (kstackOf child)) := by
  rw [procFork, alloc.bind_iff] at run
  rcases procAlloc_runs alloc with
    ⟨none, _⟩ | ⟨slot, unused, fits, ⟨none, _⟩ |
      ⟨tf, pgtbl, mem₁, mem₂, isSome, tfSome, pgtblSome, allocTf, init, rfl⟩⟩
  · cases none
  · cases none
  · obtain rfl := Option.some.inj isSome
    have isUnused : (state.procs child).state = .unused := by
      simpa using List.find?_some unused
    have differs : curr ≠ child := by
      rintro rfl
      exact alive isUnused
    simp only [Program.runs_bind, runs_getProc, runs_onMem, runs_modifyProc,
      Program.runs_pure] at run
    obtain ⟨_, _, ⟨rfl, rfl⟩, _, _, ⟨rfl, rfl⟩, _, _, ⟨mem₃, copy, rfl⟩, _, _,
      rfl, _, _, ⟨mem₄, copyTf, rfl⟩, _, _, ⟨rfl, rfl⟩, _, _, rfl, _, _, rfl,
      rfl, rfl⟩ := run
    simp only [setProc_procs_of_ne differs, setProc_procs_self] at copy copyTf
    refine ⟨unused, fits, tf, pgtbl, mem₁, mem₂, mem₃, mem₄, ?_, tfSome,
      pgtblSome, allocTf, init, copy, copyTf, ?_⟩
    · simp [Proc.allocated, Proc.setHeapTop]
    · simp only [setProc_procs_of_ne differs, setProc_procs_self,
        setProc_setMem, setProc_setProc, setMem_setMem, Proc.allocated,
        Proc.setHeapTop, Proc.setParent, Proc.setState]
      rfl

/-- The outcomes of `proc_fork`. -/
theorem procFork_runs
    {curr : Pid} {result : Int}
    (alive : (state.procs curr).state ≠ .unused)
    (run : (procFork curr).Runs state result final) :
    (result = -1 ∧ final = state) ∨
    ∃ child, unusedSlot state = some child ∧ 0 ≤ state.globalPid ∧
      ((result = -1 ∧ ∃ mem,
        final = ((state.setGlobalPid (wrapInt (state.globalPid + 1))).setMem
          mem).setProc child (state.procs child).freed) ∨
      ∃ tf pgtbl mem₁ mem₂ mem₃ mem₄,
        result = state.globalPid ∧ tf ≠ 0 ∧ pgtbl ≠ 0 ∧
        (pmemAlloc true).Runs state.mem tf mem₁ ∧
        (procPgtblInit state.trampoline tf).Runs mem₁ pgtbl mem₂ ∧
        (uvmCopyPgtbl (state.procs curr).pgtbl pgtbl
          (state.procs curr).heapTop
          (state.procs curr).ustackPages.toUInt32).Runs mem₂ () mem₃ ∧
        (copyTrapframe (state.procs curr).tf tf).Runs mem₃ () mem₄ ∧
        final = ((state.setGlobalPid (wrapInt (state.globalPid + 1))).setMem
          mem₄).setProc child ((state.procs child).forked curr
            (state.procs curr) state.globalPid tf pgtbl
            (kstackOf child))) := by
  have whole := run
  rw [procFork, Program.runs_bind] at run
  obtain ⟨allocated, middle, alloc, run⟩ := run
  cases allocated with
  | none =>
      obtain ⟨rfl, rfl⟩ := Program.runs_pure.mp run
      rcases procAlloc_runs alloc with
        ⟨_, same⟩ | ⟨child, unused, fits, ⟨_, mem, same⟩ |
          ⟨_, _, _, _, isSome, _⟩⟩
      · exact Or.inl ⟨rfl, same⟩
      · exact Or.inr ⟨child, unused, fits, Or.inl ⟨rfl, mem, same⟩⟩
      · cases isSome
  | some child =>
      obtain ⟨unused, fits, forked⟩ := procFork_of_alloc alive alloc whole
      exact Or.inr ⟨child, unused, fits, Or.inr forked⟩

/-! ## Exiting and waiting -/

/-- A process that was left alone or woken up. -/
def Woken (before after : Proc) : Prop :=
  after = before ∨
    before.state = .sleeping ∧ after = before.setState .runnable

theorem Woken.trans
    {first second third : Proc} (lower : Woken first second)
    (upper : Woken second third) : Woken first third := by
  rcases lower with rfl | ⟨sleeping, rfl⟩
  · exact upper
  · rcases upper with rfl | ⟨asleep, _⟩
    · exact Or.inr ⟨sleeping, rfl⟩
    · cases asleep

/-- Being woken up changes the state at most. -/
theorem Woken.eq_setState
    {before after : Proc} (woken : Woken before after) :
    after = before.setState after.state := by
  rcases woken with rfl | ⟨_, rfl⟩
  · rfl
  · rfl

theorem Woken.setParent
    {before after : Proc} (woken : Woken before after)
    (parent : Option Pid) :
    Woken (before.setParent parent) (after.setParent parent) := by
  rcases woken with rfl | ⟨sleeping, rfl⟩
  · exact Or.inl rfl
  · exact Or.inr ⟨sleeping, rfl⟩

theorem procWakeup_runs
    {curr : Pid} {chan : Option Channel} {result : Unit}
    (run : (procWakeup curr chan).Runs state result final) :
    final.mem = state.mem ∧ final.globalPid = state.globalPid ∧
    final.trampoline = state.trampoline ∧
    final.procs curr = state.procs curr ∧
    ∀ slot, Woken (state.procs slot) (final.procs slot) := by
  simp only [procWakeup, Program.runs_modify] at run
  subst run
  refine ⟨rfl, rfl, rfl, by simp, fun slot => ?_⟩
  simp only [State.setProcs_procs]
  split
  · next sleeps => exact Or.inr ⟨sleeps.2.1, rfl⟩
  · exact Or.inl rfl

/-- A process whose parent may have exited. -/
def Proc.reparented (proc : Proc) (curr : Pid) : Proc :=
  if proc.parent = some curr then proc.setParent (some procZero) else proc

/-- How far `proc_reparent` has come: the slots in `rest` are still to be
visited. -/
structure Reparenting (curr : Pid) (start state : State) (rest : List Pid) :
    Prop where
  mem : state.mem = start.mem
  globalPid : state.globalPid = start.globalPid
  trampoline : state.trampoline = start.trampoline
  procs : ∀ slot, Woken
    (if slot ∈ rest then start.procs slot
      else (start.procs slot).reparented curr) (state.procs slot)
  nodup : rest.Nodup

theorem Reparenting.step
    {curr slot : Pid} {start : State} {rest : List Pid} {result : Unit}
    (reparenting : Reparenting curr start state (slot :: rest))
    (run : (reparentSlot curr slot).Runs state result final) :
    Reparenting curr start final rest := by
  have fresh : slot ∉ rest := (List.nodup_cons.mp reparenting.nodup).1
  have here := reparenting.procs slot
  rw [if_pos List.mem_cons_self] at here
  have sameParent : (state.procs slot).parent = (start.procs slot).parent := by
    rw [here.eq_setState]
    rfl
  simp only [reparentSlot, Program.runs_bind, runs_getProc] at run
  obtain ⟨_, _, ⟨rfl, rfl⟩, run⟩ := run
  have others : ∀ other, other ≠ slot →
      Woken (if other ∈ rest then start.procs other
        else (start.procs other).reparented curr) (state.procs other) := by
    intro other differs
    have before := reparenting.procs other
    simpa [List.mem_cons, differs] using before
  split at run
  · next isChild =>
    simp only [Program.runs_bind, runs_modifyProc] at run
    obtain ⟨_, _, rfl, wakeup⟩ := run
    obtain ⟨mem, globalPid, trampoline, _, woken⟩ := procWakeup_runs wakeup
    refine ⟨mem.trans reparenting.mem, globalPid.trans reparenting.globalPid,
      trampoline.trans reparenting.trampoline, fun other => ?_,
      (List.nodup_cons.mp reparenting.nodup).2⟩
    refine Woken.trans ?_ (woken other)
    by_cases same : other = slot
    · subst same
      rw [setProc_procs_self, if_neg fresh]
      unfold Proc.reparented
      rw [if_pos (sameParent ▸ isChild)]
      exact here.setParent _
    · rw [setProc_procs_of_ne same]
      exact others other same
  · next notChild =>
    rw [Program.runs_pure] at run
    obtain ⟨_, rfl⟩ := run
    refine ⟨reparenting.mem, reparenting.globalPid, reparenting.trampoline,
      fun other => ?_, (List.nodup_cons.mp reparenting.nodup).2⟩
    by_cases same : other = slot
    · subst same
      rw [if_neg fresh]
      unfold Proc.reparented
      rw [if_neg (sameParent ▸ notChild)]
      exact here
    · exact others other same

/-- A process that has exited. -/
def Proc.exited (proc : Proc) (exitState : UInt32) : Proc :=
  ⟨proc.pid, .zombie, proc.parent, exitState, proc.sleepSpace, proc.pgtbl,
    proc.heapTop, proc.ustackPages, proc.tf, proc.kstack⟩

/-- `proc_exit` hands the children to the first process, may wake processes up,
and turns the caller into a zombie. -/
theorem procExit_runs
    {curr : Pid} {exitState : UInt32} {result : Unit}
    (run : (procExit curr exitState).Runs state result final) :
    curr ≠ procZero ∧ final.mem = state.mem ∧
    final.globalPid = state.globalPid ∧
    final.trampoline = state.trampoline ∧
    ∃ procs : Pid → Proc,
      (∀ slot, Woken ((state.procs slot).reparented curr) (procs slot)) ∧
      final.procs = Function.update procs curr
        ((procs curr).exited exitState) := by
  simp only [procExit, Program.runs_bind, Program.runs_assert, runs_getProc,
    runs_modifyProc, decide_eq_true_eq] at run
  obtain ⟨_, _, ⟨notZero, rfl⟩, _, middle, loop, _, _, ⟨rfl, rfl⟩, _, _,
    wakeup, rfl⟩ := run
  have start : Reparenting curr state state (List.finRange nProc) :=
    ⟨rfl, rfl, rfl, fun slot => by
      rw [if_pos (List.mem_finRange slot)]
      exact Or.inl rfl, List.nodup_finRange nProc⟩
  have done := Program.runs_forM_invariant
    (fun rest state' => Reparenting curr state state' rest)
    (fun slot rest _ _ reparenting body => reparenting.step body) start loop
  obtain ⟨mem, globalPid, trampoline, _, woken⟩ := procWakeup_runs wakeup
  refine ⟨notZero, mem.trans done.mem, globalPid.trans done.globalPid,
    trampoline.trans done.trampoline, _, fun slot => ?_, rfl⟩
  have reparented := done.procs slot
  rw [if_neg List.not_mem_nil] at reparented
  exact reparented.trans (woken slot)

/-- The outcomes of a scan of `proc_wait`. -/
theorem procWait_runs
    {curr : Pid} {addr : UInt64} {result : WaitResult}
    (run : (procWait curr addr).Runs state result final) :
    (∃ slot middle mem, zombieChild state curr = some slot ∧
      (copyStatus (state.procs curr).pgtbl addr
        (state.procs slot).exitState).Runs state.mem () middle ∧
      (procFree slot).Runs (state.setMem middle) () final ∧
      result = .reaped (state.procs slot).pid (state.procs slot).exitState ∧
      final = (state.setMem mem).setProc slot (state.procs slot).freed) ∨
    (zombieChild state curr = none ∧
      (∃ slot, (state.procs slot).parent = some curr) ∧ result = .sleeps ∧
      (procSleep curr (some (.proc curr))).Runs state () final) ∨
    ((∀ slot, (state.procs slot).parent ≠ some curr) ∧ result = .noChild ∧
      final = state) := by
  simp only [procWait, Program.runs_bind, Program.runs_get] at run
  obtain ⟨_, _, ⟨rfl, rfl⟩, run⟩ := run
  cases found : zombieChild state curr with
  | some slot =>
      simp only [found, Program.runs_bind, runs_getProc, runs_onMem,
        Program.runs_pure] at run
      obtain ⟨_, _, ⟨rfl, rfl⟩, _, _, ⟨middle, copy, rfl⟩, _, _, free, rfl,
        rfl⟩ := run
      obtain ⟨_, mem, _, _, same⟩ := procFree_runs free
      exact Or.inl ⟨slot, middle, mem, rfl, copy, free, rfl, same⟩
  | none =>
      simp only [found] at run
      split at run
      · next some =>
        simp only [Program.runs_bind, Program.runs_pure] at run
        obtain ⟨_, _, sleep, rfl, rfl⟩ := run
        refine Or.inr (Or.inl ⟨rfl, ?_, rfl, sleep⟩)
        simpa using some
      · next none =>
        rw [Program.runs_pure] at run
        refine Or.inr (Or.inr ⟨?_, run.1.symm, run.2.symm⟩)
        simpa using none

/-! ## The first process -/

/-- The first process gets the first slot and the first pid. -/
theorem procMakeFirst_runs
    {boot : BootData} {result : Unit}
    (run : (procMakeFirst boot).Runs state result final) :
    ∃ pgtbl tf, final.procs = Function.update state.procs procZero
        ⟨state.globalPid, .runnable, (state.procs procZero).parent,
          (state.procs procZero).exitState, (state.procs procZero).sleepSpace,
          pgtbl, 12288, 2, tf, kstackOf boot.cpuid⟩ ∧
      final.globalPid = wrapInt (state.globalPid + 1) := by
  simp only [procMakeFirst, Program.runs_bind, Program.runs_get, runs_onMem,
    Program.runs_assert, runs_modifyProc] at run
  obtain ⟨_, _, ⟨rfl, rfl⟩, pid, _, allocPid, tf, _, ⟨_, _, rfl⟩, _, _,
    ⟨_, rfl⟩, pgtbl, _, ⟨_, _, rfl⟩, _, _, ⟨_, rfl⟩, _, _, ⟨_, _, rfl⟩,
    rfl⟩ := run
  obtain ⟨_, rfl, rfl⟩ := allocPid_runs allocPid
  exact ⟨pgtbl, tf, rfl, rfl⟩

/-! ## The heap -/

/-- What `sys_brk` may do, by the values it returns. -/
inductive BrkOutcome (state : State) (curr : Pid) (newBrk : UInt64) :
    UInt64 → State → Prop
  | same : newBrk = 0 ∨ newBrk = (state.procs curr).heapTop →
      BrkOutcome state curr newBrk (state.procs curr).heapTop state
  | failed {newTop : UInt64} {mem : Mem.State} : newBrk ≠ 0 →
      (state.procs curr).heapTop < newBrk →
      (Mem.uvmHeapGrow (state.procs curr).pgtbl (state.procs curr).heapTop
        (newBrk - (state.procs curr).heapTop).toUInt32).Runs state.mem newTop
        mem →
      newTop ≠ newBrk →
      BrkOutcome state curr newBrk failed (state.setMem mem)
  | grown {mem : Mem.State} : newBrk ≠ 0 →
      (state.procs curr).heapTop < newBrk →
      (Mem.uvmHeapGrow (state.procs curr).pgtbl (state.procs curr).heapTop
        (newBrk - (state.procs curr).heapTop).toUInt32).Runs state.mem newBrk
        mem →
      BrkOutcome state curr newBrk newBrk ((state.setMem mem).setProc curr
        ((state.procs curr).setHeapTop newBrk))
  | shrunk {newTop : UInt64} {mem : Mem.State} : newBrk ≠ 0 →
      newBrk < (state.procs curr).heapTop →
      (Mem.uvmHeapUngrow (state.procs curr).pgtbl (state.procs curr).heapTop
        ((state.procs curr).heapTop - newBrk).toUInt32).Runs state.mem newTop
        mem →
      BrkOutcome state curr newBrk newTop ((state.setMem mem).setProc curr
        ((state.procs curr).setHeapTop newTop))

/-- The outcomes of `sys_brk`. -/
theorem sysBrk_outcome
    {curr : Pid} {newBrk result : UInt64}
    (run : (sysBrk curr newBrk).Runs state result final) :
    BrkOutcome state curr newBrk result final := by
  simp only [sysBrk, Program.runs_bind, runs_getProc] at run
  obtain ⟨_, _, ⟨rfl, rfl⟩, run⟩ := run
  split at run
  · next isQuery =>
    obtain ⟨rfl, rfl⟩ := Program.runs_pure.mp run
    exact .same (Or.inl isQuery)
  next proper =>
  split at run
  · next grows =>
    simp only [Program.runs_bind, runs_onMem] at run
    obtain ⟨newTop, _, ⟨mem, grow, rfl⟩, run⟩ := run
    split at run
    · next differs =>
      obtain ⟨rfl, rfl⟩ := Program.runs_pure.mp run
      exact .failed proper grows grow differs
    · next isBrk =>
      simp only [Program.runs_bind, runs_modifyProc, Program.runs_pure] at run
      obtain ⟨_, _, rfl, rfl, rfl⟩ := run
      obtain rfl := not_not.mp isBrk
      exact .grown proper grows grow
  split at run
  · next shrinks =>
    simp only [Program.runs_bind, runs_onMem, runs_modifyProc,
      Program.runs_pure] at run
    obtain ⟨newTop, _, ⟨mem, ungrow, rfl⟩, _, _, rfl, rfl, rfl⟩ := run
    exact .shrunk proper shrinks ungrow
  · next notAbove notBelow =>
    obtain ⟨rfl, rfl⟩ := Program.runs_pure.mp run
    refine .same (Or.inr ?_)
    exact UInt64.le_antisymm (UInt64.not_lt.mp notAbove)
      (UInt64.not_lt.mp notBelow)

end Process
end WhuOs
