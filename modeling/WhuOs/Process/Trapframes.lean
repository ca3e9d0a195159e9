import WhuOs.Process.Life

/-!
# Trapframes

No call of a process touches the trapframe of another one.  A child starts with
a copy of the trapframe of its parent, in which the return value is 0.
-/

namespace WhuOs
namespace Process

open Library
open Library.Bytes
open Mem
open Program (Runs)

/-- A process keeps its page table, its trapframe and its stack. -/
structure SameFrame (before after : Proc) : Prop where
  pgtbl : after.pgtbl = before.pgtbl
  tf : after.tf = before.tf
  kstack : after.kstack = before.kstack

namespace SameFrame

theorem refl (proc : Proc) : SameFrame proc proc := ⟨rfl, rfl, rfl⟩

theorem trans
    {first second third : Proc} (lower : SameFrame first second)
    (upper : SameFrame second third) : SameFrame first third :=
  ⟨upper.pgtbl.trans lower.pgtbl, upper.tf.trans lower.tf,
    upper.kstack.trans lower.kstack⟩

theorem of_woken {before after : Proc} (woken : Woken before after) :
    SameFrame before after := by
  rcases woken with rfl | ⟨_, rfl⟩
  · exact refl _
  · exact ⟨rfl, rfl, rfl⟩

theorem reparented (proc : Proc) (curr : Pid) :
    SameFrame proc (proc.reparented curr) := by
  unfold Proc.reparented
  split
  · exact ⟨rfl, rfl, rfl⟩
  · exact refl _

end SameFrame

/-- A trapframe for a child. -/
def CopiedTrapframe (before after : State) (parent child : Pid) : Prop :=
  ∀ offset < trapframeSize,
    after.mem.bytes ((after.procs child).tf.toNat + offset) =
      if 112 ≤ offset ∧ offset < 120 then 0
      else before.mem.bytes ((before.procs parent).tf.toNat + offset)

/-- What a call of a process does to the trapframes of all. -/
structure KeepsTrapframes (curr : Pid) (before after : State) : Prop where
  kept : ∀ slot, (before.procs slot).state ≠ .unused →
    (after.procs slot).state ≠ .unused →
    SameFrame (before.procs slot) (after.procs slot) ∧
      Unchanged (before.procs slot).tf before.mem.bytes after.mem.bytes
  alive : ∀ slot, slot ≠ curr → before.Alive slot → after.Alive slot
  born : ∀ slot, (before.procs slot).state = .unused →
    (after.procs slot).state ≠ .unused →
    (before.procs curr).state ≠ .unused ∧
      CopiedTrapframe before after curr slot

variable {part : KernelPart} {state final : State}
  {free free' : Bool → List UInt64} {held held' : Holder Owner → UInt64}
  {slot curr : Pid}

namespace KeepsTrapframes

/-- Calls that only change fields of processes that others may change. -/
theorem of_procs
    (bytes : final.mem.bytes = state.mem.bytes)
    (same : ∀ slot, SameFrame (state.procs slot) (final.procs slot))
    (unused : ∀ slot, (final.procs slot).state = .unused ↔
      (state.procs slot).state = .unused)
    (alive : ∀ slot, slot ≠ curr → state.Alive slot → final.Alive slot) :
    KeepsTrapframes curr state final := by
  refine ⟨?_, alive, ?_⟩
  · intro slot isUsed _
    exact ⟨same slot, SameTrapframes.of_bytes bytes slot isUsed⟩
  · intro slot isUnused isUsed
    exact absurd ((unused slot).mpr isUnused) isUsed

/-- One process is replaced by one that is used, too. -/
theorem setProc
    {proc : Proc} (isUsed : (state.procs curr).state ≠ .unused)
    (stays : proc.state ≠ .unused) (same : SameFrame (state.procs curr) proc) :
    KeepsTrapframes curr state (state.setProc curr proc) := by
  have other : ∀ slot, slot ≠ curr →
      (state.setProc curr proc).procs slot = state.procs slot :=
    fun slot differs => setProc_procs_of_ne differs proc
  have sameBytes : (state.setProc curr proc).mem.bytes = state.mem.bytes := rfl
  apply of_procs sameBytes
  · intro slot
    by_cases isCurr : slot = curr
    · rw [isCurr, setProc_procs_self]
      exact same
    · rw [other slot isCurr]
      exact .refl _
  · intro slot
    by_cases isCurr : slot = curr
    · rw [isCurr, setProc_procs_self]
      exact iff_of_false stays isUsed
    · rw [other slot isCurr]
  · intro slot differs alive
    unfold State.Alive
    rw [other slot differs]
    exact alive

/-- Processes are woken up. -/
theorem of_woken
    (bytes : final.mem.bytes = state.mem.bytes)
    (woken : ∀ slot, Woken (state.procs slot) (final.procs slot)) :
    KeepsTrapframes curr state final := by
  have states : ∀ slot, (final.procs slot).state = (state.procs slot).state ∨
      (state.procs slot).state = .sleeping ∧
        (final.procs slot).state = .runnable := by
    intro slot
    rcases woken slot with same | ⟨sleeping, same⟩
    · rw [same]
      exact Or.inl rfl
    · rw [same]
      exact Or.inr ⟨sleeping, rfl⟩
  apply of_procs bytes fun slot => .of_woken (woken slot)
  · intro slot
    rcases states slot with same | ⟨sleeping, runnable⟩
    · rw [same]
    · rw [sleeping, runnable]
      exact iff_of_false nofun nofun
  · intro slot _ alive
    unfold State.Alive at alive ⊢
    rcases states slot with same | ⟨sleeping, runnable⟩
    · rw [same]
      exact alive
    · rw [runnable]
      exact ⟨nofun, nofun⟩

/-- A write to a page that no trapframe is in. -/
theorem write
    (spaces : Spaces part state free held) {holder : Holder Owner}
    (some : held holder ≠ 0)
    (other : ∀ slot, holder ≠ .trapframe (.slot slot)) {bytes : Bytes}
    (changed : ChangedIn (held holder) state.mem.bytes bytes) :
    KeepsTrapframes curr state
      (state.setMem (state.mem.setBytes bytes)) := by
  refine ⟨?_, fun slot _ alive => alive, ?_⟩
  · intro slot isUsed _
    refine ⟨.refl _, ?_⟩
    rw [← spaces.trapframe slot]
    exact spaces.user.unchanged_write some (spaces.trapframe_some isUsed)
      (other slot).symm changed
  · intro slot isUnused isUsed
    exact absurd isUnused isUsed

/-- `proc_exit`. -/
theorem exit
    (isUsed : (state.procs curr).state ≠ .unused) {exitState : UInt32}
    (run : (procExit curr exitState).Runs state () final) :
    KeepsTrapframes curr state final := by
  rcases procExit_runs run with ⟨_, mem, _, _, procs, woken, isFinal⟩
  have unused : ∀ proc : Proc,
      (proc.reparented curr).state = proc.state := by
    intro proc
    unfold Proc.reparented
    split
    · rfl
    · rfl
  have others : ∀ slot, slot ≠ curr → final.procs slot = procs slot := by
    intro slot differs
    rw [isFinal]
    exact Function.update_of_ne differs _ _
  have atCurr : final.procs curr = (procs curr).exited exitState := by
    rw [isFinal]
    exact Function.update_self _ _ _
  have states : ∀ slot, (procs slot).state = (state.procs slot).state ∨
      (state.procs slot).state = .sleeping ∧ (procs slot).state = .runnable := by
    intro slot
    rcases woken slot with same | ⟨sleeping, same⟩
    · rw [same, unused]
      exact Or.inl rfl
    · rw [unused] at sleeping
      rw [same]
      exact Or.inr ⟨sleeping, rfl⟩
  have frames : ∀ slot, SameFrame (state.procs slot) (procs slot) :=
    fun slot => (SameFrame.reparented _ curr).trans (.of_woken (woken slot))
  have sameBytes : final.mem.bytes = state.mem.bytes := by rw [mem]
  apply of_procs sameBytes
  · intro slot
    by_cases isCurr : slot = curr
    · rw [isCurr, atCurr]
      have same := frames curr
      exact ⟨same.pgtbl, same.tf, same.kstack⟩
    · rw [others slot isCurr]
      exact frames slot
  · intro slot
    by_cases isCurr : slot = curr
    · rw [isCurr, atCurr]
      exact iff_of_false nofun isUsed
    · rw [others slot isCurr]
      rcases states slot with same | ⟨sleeping, runnable⟩
      · rw [same]
      · rw [sleeping, runnable]
        exact iff_of_false nofun nofun
  · intro slot differs alive
    unfold State.Alive at alive ⊢
    rw [others slot differs]
    rcases states slot with same | ⟨sleeping, runnable⟩
    · rw [same]
      exact alive
    · rw [runnable]
      exact ⟨nofun, nofun⟩

/-- `proc_wait`, with an address below the trapframe. -/
theorem wait
    (spaces : Spaces part state free held)
    (isUsed : (state.procs curr).state ≠ .unused)
    (zeroAlive : state.Alive procZero) {addr : UInt64}
    (low : addr.toNat + 4 ≤ trapframeVa.toNat) {result : WaitResult}
    (run : (procWait curr addr).Runs state result final) :
    KeepsTrapframes curr state final := by
  rcases procWait_runs run with
    ⟨slot, middle, mem, isZombie, copies, frees, _, isFinal⟩ |
    ⟨_, _, _, sleeps⟩ | ⟨_, _, rfl⟩
  · have found := List.find?_some isZombie
    simp only [decide_eq_true_eq] at found
    have slotUsed : (state.procs slot).state ≠ .unused := by
      rw [found.2]
      nofun
    have notZero : slot ≠ procZero := by
      rintro rfl
      exact zeroAlive.2 found.2
    have copied := Spaces.copyStatus (spaces.slots.used curr isUsed).1 low _
      (StatusCopied.refl spaces) copies
    rcases copied.spaces.free_slot slotUsed notZero frees with
      ⟨free', held', spaces', freed⟩
    have atSlot : (final.procs slot).state = .unused := by
      rw [isFinal, setProc_procs_self]
      rfl
    have others : ∀ other, other ≠ slot →
        final.procs other = state.procs other := by
      intro other differs
      rw [isFinal]
      exact setProc_procs_of_ne differs _
    refine ⟨?_, ?_, ?_⟩
    · intro other isUsed' stays
      have differs : other ≠ slot := by
        rintro rfl
        exact stays atSlot
      have some := spaces.trapframe_some isUsed'
      rw [others other differs, ← spaces.trapframe other]
      refine ⟨.refl _, (copied.others _ some fun _ => nofun).trans
        (freed.pages _ some ?_).2⟩
      rintro (same | ⟨_, same⟩)
      · cases same
        exact differs rfl
      · cases same
    · intro other _ alive
      have differs : other ≠ slot := by
        rintro rfl
        exact alive.2 found.2
      unfold State.Alive
      rw [others other differs]
      exact alive
    · intro other isUnused isUsed'
      have differs : other ≠ slot := by
        rintro rfl
        exact slotUsed isUnused
      rw [others other differs] at isUsed'
      exact absurd isUnused isUsed'
  · simp only [procSleep, runs_modifyProc] at sleeps
    rw [← sleeps]
    exact setProc isUsed nofun ⟨rfl, rfl, rfl⟩
  · exact of_woken rfl fun _ => Or.inl rfl

/-- `proc_fork`. -/
theorem fork
    (spaces : Spaces part state free held)
    (isUsed : (state.procs curr).state ≠ .unused) {pid : Int}
    (run : (procFork curr).Runs state pid final) :
    KeepsTrapframes curr state final := by
  have decomposed := run
  rw [procFork, Program.runs_bind] at decomposed
  rcases decomposed with ⟨allocated, middle, alloc, rest⟩
  cases allocated with
  | none =>
      rcases Program.runs_pure.mp rest with ⟨rfl, rfl⟩
      rcases spaces.fork_failed alloc with ⟨_, same⟩
      rcases spaces.forksHold.fork_failed alloc with ⟨_, kept⟩
      refine ⟨?_, ?_, ?_⟩
      · intro slot isUsed' _
        rw [kept.procs slot isUsed']
        exact ⟨.refl _, same slot isUsed'⟩
      · intro slot _ alive
        unfold State.Alive
        rw [kept.procs slot alive.1]
        exact alive
      · intro slot isUnused isUsed'
        exact absurd (kept.unused slot isUnused) isUsed'
  | some child =>
      rcases procFork_of_alloc isUsed alloc run with ⟨unused, fits, _, _, _, _,
        _, _, isPid, _⟩
      have success : pid ≠ -1 := by omega
      have isUnused : (state.procs child).state = .unused := by
        simpa using List.find?_some unused
      rcases (spaces.forksHold.fork isUsed run).2 success with
        ⟨child', unused', _, forked⟩
      rcases Option.some.inj (unused.symm.trans unused') with rfl
      have parentTf : (held ∘ slotHolder) (.trapframe curr) =
          (state.procs curr).tf := spaces.trapframe curr
      refine ⟨?_, ?_, ?_⟩
      · intro slot isUsed' _
        have differs : slot ≠ child := by
          rintro rfl
          exact isUsed' isUnused
        have some : (held ∘ slotHolder) (.trapframe slot) ≠ 0 :=
          spaces.trapframe_some isUsed'
        have isTf : (held ∘ slotHolder) (.trapframe slot) =
          (state.procs slot).tf := spaces.trapframe slot
        rw [forked.others slot differs, ← isTf]
        refine ⟨.refl _, forked.memory.pages _ some ?_⟩
        intro page same
        cases same
      · intro slot _ alive
        have differs : slot ≠ child := by
          rintro rfl
          exact alive.1 isUnused
        unfold State.Alive
        rw [forked.others slot differs]
        exact alive
      · intro slot isUnused' isUsed'
        have isChild : slot = child := by
          by_contra differs
          rw [forked.others slot differs] at isUsed'
          exact isUsed' isUnused'
        rw [isChild]
        refine ⟨isUsed, ?_⟩
        intro offset bound
        rw [forked.memory.trapframe offset bound, parentTf]

/-- `sys_brk`. -/
theorem brk
    (spaces : Spaces part state free held)
    (isUsed : (state.procs curr).state ≠ .unused) {newBrk result : UInt64}
    (run : (sysBrk curr newBrk).Runs state result final) :
    KeepsTrapframes curr state final := by
  have same := (spaces.brk isUsed run).2
  have moved : ∀ slot, SameFrame (state.procs slot) (final.procs slot) ∧
      (final.procs slot).state = (state.procs slot).state := by
    intro slot
    have heap : ∀ mem heapTop, SameFrame (state.procs slot)
        (((state.setMem mem).setProc curr
          ((state.procs curr).setHeapTop heapTop)).procs slot) ∧
        (((state.setMem mem).setProc curr
          ((state.procs curr).setHeapTop heapTop)).procs slot).state =
          (state.procs slot).state := by
      intro mem heapTop
      by_cases isCurr : slot = curr
      · rw [isCurr, setProc_procs_self]
        exact ⟨⟨rfl, rfl, rfl⟩, rfl⟩
      · rw [setProc_procs_of_ne isCurr]
        exact ⟨.refl _, rfl⟩
    cases sysBrk_outcome run with
    | same _ => exact ⟨.refl _, rfl⟩
    | failed _ _ _ _ => exact ⟨.refl _, rfl⟩
    | grown _ _ _ => exact heap _ _
    | shrunk _ _ _ => exact heap _ _
  refine ⟨fun slot isUsed' _ => ⟨(moved slot).1, same slot isUsed'⟩, ?_, ?_⟩
  · intro slot _ alive
    unfold State.Alive
    rw [(moved slot).2]
    exact alive
  · intro slot isUnused isUsed'
    rw [(moved slot).2] at isUsed'
    exact absurd isUnused isUsed'

end KeepsTrapframes

/-- What a step does to the trapframes, unless it stores registers. -/
theorem LifeStep.keepsTrapframes
    {kernel : Mem.State} {trampoline : UInt64} {before after : TreeRun}
    {call : LifeCall} (started : KernelStarted kernel trampoline free)
    (holds : LifeHolds (kernelPart kernel trampoline) trampoline before)
    (below : WaitsBelow before (curr, call)) (noTrap : call ≠ .trap)
    (step : LifeStep before (curr, call) after) :
    KeepsTrapframes curr before.state after.state := by
  rcases holds.spaces with ⟨free', held, spaces⟩
  cases step with
  | tree taken =>
      cases taken with
      | fork alive run => exact .fork spaces alive.1 run
      | exit alive run => exact .exit alive.1 run
      | wait alive run => exact .wait spaces alive.1 holds.tree.zero below run
      | yield alive run =>
          rcases runs_modifyProc.mp run with rfl
          exact .setProc alive.1 nofun ⟨rfl, rfl, rfl⟩
      | sleep alive run =>
          rcases runs_modifyProc.mp run with rfl
          exact .setProc alive.1 nofun ⟨rfl, rfl, rfl⟩
      | wakeup alive run =>
          rcases procWakeup_runs run with ⟨mem, _, _, _, woken⟩
          exact .of_woken (congrArg Mem.State.bytes mem) woken
      | schedule isRunnable =>
          apply KeepsTrapframes.setProc
          · rw [isRunnable]
            nofun
          · nofun
          · exact ⟨rfl, rfl, rfl⟩
  | brk alive run => exact .brk spaces alive.1 run
  | compute alive writable changed =>
      rcases LifeHolds.userWritable_held spaces holds.owned alive writable with
        ⟨number, _, rfl, notNull⟩
      exact .write spaces notNull (fun _ => nofun) changed
  | trap alive changed => exact absurd rfl noTrap
  | work isStack changed =>
      have wasStack := started.isStack spaces isStack
      have owned : (kernelPart kernel trampoline).owned _ :=
        Or.inr (Or.inr wasStack)
      apply KeepsTrapframes.write spaces (spaces.kernel_some owned)
      · exact fun _ => nofun
      · rw [(spaces.kernelHeld _ owned).2]
        exact changed

end Process
end WhuOs
