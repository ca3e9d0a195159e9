import WhuOs.Mem.Effects
import WhuOs.Process.Tree

/-!
# The pages of a process over its lifetime

A process forks a child, the child changes its heap and exits, and the process
waits for it.  The tables of the child come from the kernel region and go back
to the user region, so the kernel region has fewer free pages afterwards.
-/

namespace WhuOs
namespace Process

open Library
open Mem (KernTaken Stable stable_kernTaken pmemAlloc)
open Program (Preserves Runs)

/-- Both regions have the same free pages, and as many, as before. -/
def Conserved (before after : Mem.State) : Prop :=
  ∀ inKernel,
    (after.region inKernel).allocable = (before.region inKernel).allocable ∧
    ∀ free free',
      Linked 0 before.next (before.region inKernel).listHead free →
      Linked 0 after.next (after.region inKernel).listHead free' →
      ∀ page, page ∈ free' ↔ page ∈ free

/-- What may happen between a fork and the exit of the child: the child changes
its heap, processes are scheduled, sleep and wake each other up, and the parent
finds no child that has exited. -/
inductive Meanwhile (parent child : Pid) : State → State → Prop
  | refl (state : State) : Meanwhile parent child state state
  | brk {before middle after : State} {newBrk result : UInt64} :
      Meanwhile parent child before middle →
      (sysBrk child newBrk).Runs middle result after →
      Meanwhile parent child before after
  | schedule {before middle : State} {slot : Pid} :
      Meanwhile parent child before middle →
      (middle.procs slot).state = .runnable →
      Meanwhile parent child before
        (middle.setProc slot ((middle.procs slot).setState .running))
  | yield {before middle after : State} {slot : Pid} :
      Meanwhile parent child before middle →
      (procYield slot).Runs middle () after →
      Meanwhile parent child before after
  | sleep {before middle after : State} {slot : Pid}
      {chan : Option Channel} :
      Meanwhile parent child before middle →
      (procSleep slot chan).Runs middle () after →
      Meanwhile parent child before after
  | wakeup {before middle after : State} {slot : Pid}
      {chan : Option Channel} :
      Meanwhile parent child before middle →
      (procWakeup slot chan).Runs middle () after →
      Meanwhile parent child before after
  | wait {before middle after : State} {addr : UInt64} :
      Meanwhile parent child before middle →
      (procWait parent addr).Runs middle .sleeps after →
      Meanwhile parent child before after

/-- The life of a child, from the fork to the moment its parent gets its exit
status. -/
structure Lifetime (parent : Pid) (before after : State) where
  child : Pid
  pid : Int
  exitState : UInt32
  addr : UInt64
  forked : State
  exiting : State
  exited : State
  waiting : State
  alive : before.Alive parent
  unused : unusedSlot before = some child
  notFailed : pid ≠ -1
  forks : (procFork parent).Runs before pid forked
  lives : Meanwhile parent child forked exiting
  exits : (procExit child exitState).Runs exiting () exited
  rests : Meanwhile parent child exited waiting
  waits : (procWait parent addr).Runs waiting (.reaped pid exitState) after

/-! ## The kernel region -/

theorem procPgtblInit_kern
    {mem mem' : Mem.State} {trampoline trapframe pgtbl : UInt64} {total taken : Nat}
    (isTaken : KernTaken total taken mem) (some : pgtbl ≠ 0)
    (run : (procPgtblInit trampoline trapframe).Runs mem pgtbl mem') :
    KernTaken total (taken + 1) mem' := by
  have stable := stable_kernTaken total (taken + 1)
  simp only [procPgtblInit, Program.runs_bind] at run
  obtain ⟨page, middle, alloc, run⟩ := run
  split at run
  · rw [Program.runs_pure] at run
    exact absurd run.1.symm some
  · next pageSome =>
    refine Preserves.bind (stable.clearPage page) (fun _ => ?_)
      (Mem.kern_alloc isTaken pageSome alloc) run
    refine .bind (stable.vmMappages _ _ _ _ _) fun _ => ?_
    exact .bind (stable.vmMappages _ _ _ _ _) fun _ => .pure _

theorem copyTrapframe_stable
    {property : Mem.State → Prop} (stable : Stable property)
    (src dst : UInt64) :
    Preserves property (copyTrapframe src dst) :=
  .bind (.modify fun _ holds => stable.bytes _ _ holds) fun _ =>
    stable.store _ _

/-- A fork takes two pages of the kernel region, and more for the tables. -/
theorem procFork_kern
    {curr : Pid} {before after : State} {pid : Int} {total taken : Nat}
    (isTaken : KernTaken total taken before.mem) (alive : before.Alive curr)
    (notFailed : pid ≠ -1) (run : (procFork curr).Runs before pid after) :
    KernTaken total (taken + 2) after.mem := by
  have stable := stable_kernTaken total (taken + 2)
  rcases procFork_runs alive.1 run with
    ⟨failed, _⟩ | ⟨child, _, _, ⟨failed, _⟩ |
      ⟨tf, pgtbl, mem₁, mem₂, mem₃, mem₄, _, tfSome, pgtblSome, allocTf, init,
        copy, copyTf, rfl⟩⟩
  · exact absurd failed notFailed
  · exact absurd failed notFailed
  · have first : KernTaken total (taken + 1) mem₁ :=
      Mem.kern_alloc isTaken tfSome allocTf
    have second : KernTaken total (taken + 2) mem₂ :=
      procPgtblInit_kern first pgtblSome init
    have third : KernTaken total (taken + 2) mem₃ :=
      stable.uvmCopyPgtbl _ _ _ _ second copy
    exact copyTrapframe_stable stable _ _ third copyTf

theorem sysBrk_kern
    {curr : Pid} {before after : State} {newBrk result : UInt64} {total taken : Nat}
    (isTaken : KernTaken total taken before.mem)
    (run : (sysBrk curr newBrk).Runs before result after) :
    KernTaken total taken after.mem := by
  have stable := stable_kernTaken total taken
  simp only [sysBrk, Program.runs_bind, runs_getProc] at run
  obtain ⟨_, _, ⟨rfl, rfl⟩, run⟩ := run
  split at run
  · rw [← (Program.runs_pure.mp run).2]
    exact isTaken
  · split at run
    · simp only [Program.runs_bind, runs_onMem] at run
      obtain ⟨top, _, ⟨mem, grow, rfl⟩, run⟩ := run
      have grown := stable.uvmHeapGrow _ _ _ isTaken grow
      split at run
      · rw [← (Program.runs_pure.mp run).2]
        exact grown
      · simp only [Program.runs_bind, runs_modifyProc,
          Program.runs_pure] at run
        obtain ⟨_, _, rfl, _, rfl⟩ := run
        exact grown
    · split at run
      · simp only [Program.runs_bind, runs_onMem, runs_modifyProc,
          Program.runs_pure] at run
        obtain ⟨top, _, ⟨mem, shrink, rfl⟩, _, _, rfl, _, rfl⟩ := run
        exact stable.uvmHeapUngrow _ _ _ isTaken shrink
      · rw [← (Program.runs_pure.mp run).2]
        exact isTaken

theorem Meanwhile.kern
    {parent child : Pid} {before after : State} {total taken : Nat}
    (meanwhile : Meanwhile parent child before after)
    (isTaken : KernTaken total taken before.mem) :
    KernTaken total taken after.mem := by
  induction meanwhile with
  | refl => exact isTaken
  | brk _ brk inductionHypothesis =>
      exact sysBrk_kern inductionHypothesis brk
  | schedule _ _ inductionHypothesis => exact inductionHypothesis
  | yield _ yields inductionHypothesis =>
      obtain rfl := runs_modifyProc.mp yields
      exact inductionHypothesis
  | sleep _ sleeps inductionHypothesis =>
      obtain rfl := runs_modifyProc.mp sleeps
      exact inductionHypothesis
  | wakeup _ wakes inductionHypothesis =>
      rw [(procWakeup_runs wakes).1]
      exact inductionHypothesis
  | wait _ waits inductionHypothesis =>
      rcases procWait_runs waits with
        ⟨_, _, _, _, _, _, same, _⟩ | ⟨_, _, _, sleeps⟩ | ⟨_, same, _⟩
      · cases same
      · obtain rfl := runs_modifyProc.mp sleeps
        exact inductionHypothesis
      · cases same

/-- Freeing a process gives back one page of the kernel region at most. -/
theorem procFree_kern
    {slot : Pid} {before after : State} {total taken : Nat}
    (isTaken : KernTaken total (taken + 1) before.mem)
    (run : (procFree slot).Runs before () after) :
    KernTaken total taken after.mem := by
  obtain ⟨middle, mem, freeTf, destroy, rfl⟩ := procFree_runs run
  have freed : KernTaken total taken middle := by
    unfold freeUnlessNull at freeTf
    split at freeTf
    · rw [← (Program.runs_pure.mp freeTf).2]
      exact Nat.le_of_succ_le isTaken
    · exact Mem.kern_free isTaken freeTf
  exact (stable_kernTaken total taken).uvmDestroyPgtbl _ _ freed destroy

theorem copyStatus_stable
    {property : Mem.State → Prop} (stable : Stable property)
    (pgtbl addr : UInt64) (exitState : UInt32) :
    Preserves property (copyStatus pgtbl addr exitState) :=
  .ite (.pure _) (stable.copyoutLoop _ _ _ _ _ _)

theorem procWait_kern
    {curr : Pid} {before after : State} {addr : UInt64} {pid : Int}
    {exitState : UInt32} {total taken : Nat}
    (isTaken : KernTaken total (taken + 1) before.mem)
    (run : (procWait curr addr).Runs before (.reaped pid exitState) after) :
    KernTaken total taken after.mem := by
  rcases procWait_runs run with
    ⟨slot, middle, _, _, copy, free, _, _⟩ | ⟨_, _, same, _⟩ | ⟨_, same, _⟩
  · have copied : KernTaken total (taken + 1) middle :=
      copyStatus_stable (stable_kernTaken total (taken + 1)) _ _ _ isTaken copy
    exact procFree_kern copied free
  · cases same
  · cases same

/-- The kernel region has lost a page at the end of a child's life. -/
theorem Lifetime.kern_lost
    {parent : Pid} {before after : State}
    (life : Lifetime parent before after) :
    KernTaken (before.mem.region true).allocable.toNat 1 after.mem := by
  have start : KernTaken (before.mem.region true).allocable.toNat 0
      before.mem := Nat.le_refl _
  have forked := procFork_kern start life.alive life.notFailed life.forks
  have exiting := life.lives.kern forked
  have exited : KernTaken (before.mem.region true).allocable.toNat 2
      life.exited.mem := by
    rw [(procExit_runs life.exits).2.1]
    exact exiting
  exact procWait_kern (life.rests.kern exited) life.waits

/-- The life of a child never leaves the free pages as they were: its page
tables are taken from the kernel region and given to the user region. -/
theorem lifetime_not_conserved
    {parent : Pid} {before after : State}
    (life : Lifetime parent before after) :
    ¬Conserved before.mem after.mem := by
  intro conserved
  have lost := life.kern_lost
  have same := (conserved true).1
  unfold KernTaken at lost
  rw [same] at lost
  omega

/-! ## A child that exits at once -/

/-- The first process forks, the child exits with status 7, and the first
process waits for it. -/
def smallLife : ProcM Unit := do
  procMakeFirst smallBoot
  let before ← Program.get
  Program.assert ((before.procs 0).state = .runnable) "not alive"
  Program.assert (unusedSlot before = some 1) "no slot"
  let pid ← procFork 0
  Program.assert (pid ≠ -1) "fork failed"
  procExit 1 7
  let result ← procWait 0 0
  Program.assert (result = .reaped pid 7) "wait failed"

/-- A word is valid if its first byte is odd. -/
theorem isValid_read64 (bytes : Bytes) (address : Nat) :
    Mem.isValid (Bytes.read64 bytes address) =
      decide ((bytes address).toNat % 2 = 1) := by
  have parity : (Bytes.read64 bytes address).toNat % 2 =
      (bytes address).toNat % 2 := by
    unfold Bytes.read64 Bytes.read32
    rw [UInt64.toNat_ofNat', UInt32.toNat_ofNat', UInt32.toNat_ofNat']
    omega
  have last : (Bytes.read64 bytes address &&& Mem.pteV).toNat =
      (bytes address).toNat % 2 := by
    rw [← parity, UInt64.toNat_and]
    exact Nat.and_one_is_mod _
  unfold Mem.isValid
  apply decide_eq_decide.mpr
  rw [ne_eq, ← UInt64.toNat_inj, last]
  change ¬_ = 0 ↔ _
  omega

/-- `destroyPgtbl`, where most entries are read by their first byte only. -/
def destroyByFirst : (level : Nat) → (pgtbl : UInt64) → Mem.MemM Unit
  | 0, _ => Program.panic "destroy_pgtbl: below the last level"
  | level + 1, pgtbl => do
      (List.range 512).forM fun index => do
        let mem ← Program.get
        if (mem.bytes (Mem.entryAddress pgtbl
            (UInt64.ofNat index)).toNat).toNat % 2 = 1 then
          let pte ← Mem.load (Mem.entryAddress pgtbl (UInt64.ofNat index))
          if Mem.pteCheck pte then
            destroyByFirst level (Mem.pteToPa pte)
          else
            Mem.pmemFree (Mem.pteToPa pte) false
        else
          return
      Mem.pmemFree pgtbl false

theorem load_bind
    (address : UInt64) (next : UInt64 → Mem.MemM Unit) (mem : Mem.State) :
    (Mem.load address >>= next) mem =
      next (Bytes.read64 mem.bytes address.toNat) mem :=
  rfl

theorem get_bind (next : Mem.State → Mem.MemM Unit) (mem : Mem.State) :
    (Program.get >>= next) mem = next mem mem :=
  rfl

theorem destroyPgtbl_eq (level : Nat) (pgtbl : UInt64) :
    Mem.destroyPgtbl level pgtbl = destroyByFirst level pgtbl := by
  induction level generalizing pgtbl with
  | zero => rfl
  | succ level inductionHypothesis =>
      unfold Mem.destroyPgtbl destroyByFirst
      congr 2
      funext index mem
      have valid := isValid_read64 mem.bytes
        (Mem.entryAddress pgtbl (UInt64.ofNat index)).toNat
      rw [load_bind, get_bind, valid]
      by_cases odd : (mem.bytes (Mem.entryAddress pgtbl
          (UInt64.ofNat index)).toNat).toNat % 2 = 1
      · rw [if_pos odd, load_bind, decide_eq_true odd]
        simp only [true_and, if_true, inductionHypothesis]
      · rw [if_neg odd, decide_eq_false odd]
        rfl

theorem smallLife_returns : (smallLife.exec smallState).isOk = true := by
  simp only [smallLife, procWait, procFree, Mem.uvmDestroyPgtbl, destroyPgtbl_eq]
  decide +kernel

theorem smallLife_lifetime :
    ∃ run after, treeSystem.Reachable run ∧
      Nonempty (Lifetime procZero run.state after) := by
  cases final : smallLife.exec smallState with
  | error message =>
      have returns := smallLife_returns
      rw [final] at returns
      cases returns
  | ok outcome =>
      have run : smallLife.Runs smallState outcome.1 outcome.2 := final
      simp only [smallLife, Program.runs_bind, Program.runs_get,
        Program.runs_assert, decide_eq_true_eq] at run
      obtain ⟨_, before, makes, _, _, ⟨rfl, rfl⟩, _, _, ⟨alive, rfl⟩, _, _,
        ⟨unused, rfl⟩, pid, forked, forks, _, _, ⟨notFailed, rfl⟩, _, exited,
        exits, _, after, waits, isReaped, rfl⟩ := run
      subst isReaped
      refine ⟨⟨before, [], []⟩, outcome.2,
        .init ⟨rfl, rfl, smallBoot, smallState, rfl, rfl, makes⟩,
        ⟨⟨1, pid, 7, 0, forked, forked, exited, exited, ?_, unused, notFailed,
          forks, .refl _, exits, .refl _, waits⟩⟩⟩
      unfold State.Alive
      show (before.procs 0).state ≠ _ ∧ (before.procs 0).state ≠ _
      rw [alive]
      decide

theorem lifetime_not_conserved_small :
    ∃ before after, Nonempty (Lifetime procZero before after) ∧
      ¬Conserved before.mem after.mem := by
  obtain ⟨run, after, _, ⟨life⟩⟩ := smallLife_lifetime
  exact ⟨run.state, after, ⟨life⟩, lifetime_not_conserved life⟩

/-- Not every life of a child in a reachable state leaves the free pages as they
were. -/
theorem lifetime_leaks_tables :
    ¬∀ run parent after, treeSystem.Reachable run →
      Nonempty (Lifetime parent run.state after) →
      Conserved run.state.mem after.mem := by
  intro conserved
  obtain ⟨run, after, reachable, ⟨life⟩⟩ := smallLife_lifetime
  have same := (conserved run procZero after reachable ⟨life⟩ true).1
  have lost := life.kern_lost
  unfold KernTaken at lost
  rw [same] at lost
  omega

end Process
end WhuOs
