import WhuOs.Fs.Mkfs
import WhuOs.Fs.View
import WhuOs.Library.TransitionSystem

/-!
# Representation of the inode cache

Runs of `inode_alloc`, `inode_dup` and `inode_free`, with the inodes locked and
unlocked in between so that slots are filled and used again.  Beside the cache a
run keeps how often each inode was taken and given back.
-/

namespace WhuOs
namespace Fs

open Library
open Program (Runs)

variable {state final : State}

/-! ## Finding a slot -/

/-- The first slot that nobody references. -/
def freeSlot (state : State) : Option Slot :=
  (List.finRange nInode).find? fun ip => (state.icache ip).ref = 0

theorem freeSlot_eq_none :
    freeSlot state = none ↔ ∀ ip, (state.icache ip).ref ≠ 0 := by
  unfold freeSlot
  simp [List.find?_eq_none]

section Alloc

variable {inodeNum : UInt16} {ip : Slot}

theorem acquireIcache_of_unlocked (unlocked : state.lkIcache = false) :
    acquireIcache.Runs state () (state.setLkIcache true) := by
  simp [acquireIcache, unlocked]

theorem releaseIcache_after_set
    (unlocked : state.lkIcache = false) (ip : Slot) (inode : Inode) :
    releaseIcache.Runs ((state.setLkIcache true).setInode ip inode) ()
      (state.setInode ip inode) := by
  rw [← setInode_under_lock unlocked]
  simp [releaseIcache]

/-- A cached inode is found in its first slot. -/
theorem inodeAlloc_hit
    (unlocked : state.lkIcache = false)
    (found : slotOf state inodeNum = some ip) :
    (inodeAlloc inodeNum).Runs state ip (state.setInode ip
      ((state.icache ip).setRef ((state.icache ip).ref + 1))) := by
  simp only [inodeAlloc, Program.runs_bind, Program.runs_get]
  refine ⟨(), _, acquireIcache_of_unlocked unlocked, _, _, ⟨rfl, rfl⟩, ?_⟩
  simp only [State.setLkIcache_icache]
  unfold slotOf at found
  simp only [found, Program.runs_bind, runs_modifyInode, Program.runs_pure]
  exact ⟨(), _, rfl, (), _, releaseIcache_after_set unlocked _ _, trivial,
    rfl⟩

/-- Without a cached one, the first slot that nobody references is taken. -/
theorem inodeAlloc_miss
    (unlocked : state.lkIcache = false)
    (absent : slotOf state inodeNum = none)
    (free : freeSlot state = some ip) :
    (inodeAlloc inodeNum).Runs state ip (state.takeOver ip inodeNum) := by
  simp only [inodeAlloc, Program.runs_bind, Program.runs_get]
  refine ⟨(), _, acquireIcache_of_unlocked unlocked, _, _, ⟨rfl, rfl⟩, ?_⟩
  simp only [State.setLkIcache_icache]
  unfold slotOf at absent
  unfold freeSlot at free
  simp only [absent, free, Program.runs_bind, runs_modifyInode,
    Program.runs_pure]
  exact ⟨(), _, rfl, (), _, releaseIcache_after_set unlocked _ _, trivial,
    rfl⟩

/-- `inode_alloc` panics exactly when the inode is not cached and every slot is
referenced. -/
theorem inodeAlloc_panics_iff
    (unlocked : state.lkIcache = false) :
    (inodeAlloc inodeNum).Panics state ↔
      (∀ ip, (state.icache ip).inodeNum ≠ inodeNum) ∧
        ∀ ip, (state.icache ip).ref ≠ 0 := by
  rw [Program.panics_iff]
  constructor
  · intro stuck
    cases found : slotOf state inodeNum with
    | some ip => exact absurd ⟨_, _, inodeAlloc_hit unlocked found⟩ stuck
    | none =>
        cases free : freeSlot state with
        | some ip => exact absurd ⟨_, _, inodeAlloc_miss unlocked found free⟩ stuck
        | none => exact ⟨slotOf_eq_none found, freeSlot_eq_none.mp free⟩
  · rintro ⟨absent, referenced⟩ ⟨ip, after, run⟩
    rcases inodeAlloc_runs run with ⟨number, _⟩ | ⟨_, unreferenced, _⟩
    · exact absent ip number
    · exact referenced ip unreferenced

end Alloc

/-! ## Runs -/

/-- The calls of a run. -/
inductive CacheCall
  | alloc (inodeNum : UInt16)
  | dup (ip : Slot)
  | free (ip : Slot)
  | lock (ip : Slot)
  | unlock (ip : Slot)

/-- The file system with the number of times each inode was taken, by
`inode_alloc` or `inode_dup`, and given back. -/
structure CacheRun where
  fs : State
  taken : UInt16 → Nat
  freed : UInt16 → Nat

namespace CacheRun

/-- Count an inode that was taken. -/
def take (run : CacheRun) (fs : State) (inodeNum : UInt16) : CacheRun :=
  ⟨fs, Function.update run.taken inodeNum (run.taken inodeNum + 1), run.freed⟩

/-- Count an inode that was given back. -/
def giveBack (run : CacheRun) (fs : State) (inodeNum : UInt16) : CacheRun :=
  ⟨fs, run.taken, Function.update run.freed inodeNum (run.freed inodeNum + 1)⟩

end CacheRun

/-- Calls that do not panic.  An inode is given back by somebody who holds a
reference to it. -/
inductive CacheStep : CacheRun → CacheCall → CacheRun → Prop
  | alloc {before : CacheRun} {inodeNum : UInt16} {ip : Slot} {after : State} :
      inodeNum ≠ inodeNumUnused →
      (inodeAlloc inodeNum).Runs before.fs ip after →
      CacheStep before (.alloc inodeNum) (before.take after inodeNum)
  | dup {before : CacheRun} {ip : Slot} {after : State} :
      (before.fs.icache ip).inodeNum ≠ inodeNumUnused →
      (inodeDup ip).Runs before.fs () after →
      CacheStep before (.dup ip) (before.take after (before.fs.icache ip).inodeNum)
  | free {before : CacheRun} {ip : Slot} {after : State} :
      (before.fs.icache ip).inodeNum ≠ inodeNumUnused →
      before.freed (before.fs.icache ip).inodeNum < before.taken (before.fs.icache ip).inodeNum →
      (inodeFree ip).Runs before.fs () after →
      CacheStep before (.free ip) (before.giveBack after (before.fs.icache ip).inodeNum)
  | lock {before : CacheRun} {ip : Slot} {after : State} :
      (inodeLock ip).Runs before.fs () after →
      CacheStep before (.lock ip) ⟨after, before.taken, before.freed⟩
  | unlock {before : CacheRun} {ip : Slot} {after : State} :
      (inodeUnlock ip).Runs before.fs () after →
      CacheStep before (.unlock ip) ⟨after, before.taken, before.freed⟩

/-- The file system after `inode_init`. -/
def initialCache (disk : Nat → Block) : State :=
  ⟨disk, [], fun _ => emptyInode, false⟩

/-- Runs on any disk, from the cache `inode_init` leaves. -/
def cacheSystem : TransitionSystem CacheRun CacheCall where
  Init run := ∃ disk, run = ⟨initialCache disk, fun _ => 0, fun _ => 0⟩
  Step := CacheStep

/-- A call does not take an inode that has as many references as the counter
can count. -/
def CountersFit (before : CacheRun) : CacheCall → Prop
  | .alloc inodeNum =>
      before.taken inodeNum - before.freed inodeNum + 1 < 2 ^ 32
  | .dup ip => before.taken (before.fs.icache ip).inodeNum -
      before.freed (before.fs.icache ip).inodeNum + 1 < 2 ^ 32
  | _ => True

/-! ## Invariant -/

/-- Each inode has one slot, whose counter is the number of references. -/
structure Represents (run : CacheRun) : Prop where
  unlocked : run.fs.lkIcache = false
  unique : UniqueSlots run.fs
  counted : ∀ ip, (run.fs.icache ip).inodeNum ≠ inodeNumUnused →
    (run.fs.icache ip).ref.toNat =
      run.taken (run.fs.icache ip).inodeNum - run.freed (run.fs.icache ip).inodeNum
  unused : ∀ ip, (run.fs.icache ip).inodeNum = inodeNumUnused →
    (run.fs.icache ip).ref = 0
  absent : ∀ inodeNum, inodeNum ≠ inodeNumUnused →
    (∀ ip, (run.fs.icache ip).inodeNum ≠ inodeNum) →
    run.taken inodeNum = run.freed inodeNum
  balanced : ∀ inodeNum, run.freed inodeNum ≤ run.taken inodeNum

namespace Represents

variable {run : CacheRun}

theorem initial (disk : Nat → Block) :
    Represents ⟨initialCache disk, fun _ => 0, fun _ => 0⟩ := by
  refine ⟨rfl, ?_, ?_, fun _ _ => rfl, fun _ _ _ => rfl, fun _ => le_rfl⟩
  · intro ip ip' used
    exact absurd rfl used
  · intro ip used
    exact absurd rfl used

/-- The cache is represented alike when no slot changes its inode or its
counter. -/
theorem congr
    (represents : Represents run) {after : State}
    (unlocked : after.lkIcache = false)
    (sameNum : ∀ ip, (after.icache ip).inodeNum = (run.fs.icache ip).inodeNum)
    (sameRef : ∀ ip, (after.icache ip).ref = (run.fs.icache ip).ref) :
    Represents ⟨after, run.taken, run.freed⟩ := by
  refine ⟨unlocked, represents.unique.congr sameNum, ?_, ?_, ?_,
    represents.balanced⟩
  · intro ip used
    rw [sameNum] at used ⊢
    rw [sameRef]
    exact represents.counted ip used
  · intro ip unused
    rw [sameNum] at unused
    rw [sameRef]
    exact represents.unused ip unused
  · intro inodeNum used absent
    refine represents.absent inodeNum used fun ip same => ?_
    exact absent ip ((sameNum ip).trans same)

/-- A slot keeps its inode, and its counter changes with the references. -/
theorem setCounter
    (represents : Represents run) {ip : Slot} (inode : Inode)
    (taken freed : Nat)
    (used : (run.fs.icache ip).inodeNum ≠ inodeNumUnused)
    (sameNum : inode.inodeNum = (run.fs.icache ip).inodeNum)
    (counted : inode.ref.toNat = taken - freed) (balanced : freed ≤ taken) :
    Represents ⟨run.fs.setInode ip inode,
      Function.update run.taken (run.fs.icache ip).inodeNum taken,
      Function.update run.freed (run.fs.icache ip).inodeNum freed⟩ := by
  have numbers : ∀ other, ((run.fs.setInode ip inode).icache other).inodeNum =
      (run.fs.icache other).inodeNum := inodeNum_setInode sameNum
  refine ⟨represents.unlocked, represents.unique.congr numbers, ?_, ?_, ?_,
    ?_⟩
  · intro other otherUsed
    rw [numbers] at otherUsed ⊢
    by_cases same : other = ip
    · subst same
      simpa using counted
    · have differs : (run.fs.icache other).inodeNum ≠ (run.fs.icache ip).inodeNum := fun equal =>
        same (represents.unique other ip otherUsed equal)
      simp only [State.setInode_icache, Function.update_of_ne same,
        Function.update_of_ne differs]
      exact represents.counted other otherUsed
  · intro other unused
    rw [numbers] at unused
    have differs : other ≠ ip := by
      rintro rfl
      exact used unused
    simp only [State.setInode_icache, Function.update_of_ne differs]
    exact represents.unused other unused
  · intro inodeNum numberUsed absent
    have absent : ∀ other, (run.fs.icache other).inodeNum ≠ inodeNum := fun other same =>
      absent other ((numbers other).trans same)
    simp only [Function.update_of_ne (absent ip).symm]
    exact represents.absent inodeNum numberUsed absent
  · intro inodeNum
    by_cases same : inodeNum = (run.fs.icache ip).inodeNum
    · subst same
      simpa using balanced
    · simp only [Function.update_of_ne same]
      exact represents.balanced inodeNum

/-- A slot that nobody references is used for an inode that has none. -/
theorem takeOver
    (represents : Represents run) {ip : Slot} {inodeNum : UInt16}
    (used : inodeNum ≠ inodeNumUnused)
    (absent : ∀ other, (run.fs.icache other).inodeNum ≠ inodeNum)
    (unreferenced : (run.fs.icache ip).ref = 0) :
    Represents (run.take (run.fs.takeOver ip inodeNum) inodeNum) := by
  have balance := represents.absent inodeNum used absent
  have slot : (run.fs.takeOver ip inodeNum).icache ip =
      ⟨(run.fs.icache ip).data, inodeNum, 1, false,
        (run.fs.icache ip).slk⟩ := by
    simp [State.takeOver]
  have others : ∀ other, other ≠ ip →
      (run.fs.takeOver ip inodeNum).icache other = run.fs.icache other := by
    intro other differs
    simp [State.takeOver, differs]
  refine ⟨represents.unlocked, represents.unique.takeOver absent, ?_, ?_, ?_,
    ?_⟩
  · intro other otherUsed
    simp only [CacheRun.take] at otherUsed ⊢
    by_cases same : other = ip
    · subst same
      rw [slot, Function.update_self, balance]
      simp
    · rw [others other same] at otherUsed ⊢
      rw [Function.update_of_ne (absent other)]
      exact represents.counted other otherUsed
  · intro other unused
    simp only [CacheRun.take] at unused ⊢
    by_cases same : other = ip
    · subst same
      rw [slot] at unused
      exact absurd unused used
    · rw [others other same] at unused ⊢
      exact represents.unused other unused
  · intro number numberUsed notCached
    simp only [CacheRun.take] at notCached ⊢
    have differs : number ≠ inodeNum := by
      rintro rfl
      exact notCached ip (by rw [slot])
    rw [Function.update_of_ne differs]
    -- The inode the slot held before may have lost its slot; it has no
    -- references.
    by_cases evicted : (run.fs.icache ip).inodeNum = number
    · subst evicted
      have counted := represents.counted ip numberUsed
      have balanced := represents.balanced (run.fs.icache ip).inodeNum
      rw [unreferenced, UInt32.toNat_zero] at counted
      omega
    · refine represents.absent number numberUsed fun other same => ?_
      by_cases sameSlot : other = ip
      · exact evicted (sameSlot ▸ same)
      · exact notCached other (by rw [others other sameSlot]; exact same)
  · intro number
    simp only [CacheRun.take]
    by_cases same : number = inodeNum
    · subst same
      rw [Function.update_self]
      omega
    · rw [Function.update_of_ne same]
      exact represents.balanced number

end Represents

/-- The counters after a slot was changed. -/
theorem ref_setInode
    {ip : Slot} {inode : Inode}
    (sameRef : inode.ref = (state.icache ip).ref) (other : Slot) :
    ((state.setInode ip inode).icache other).ref =
      (state.icache other).ref := by
  by_cases same : other = ip
  · subst same
    simpa using sameRef
  · simp [same]

theorem inodeDup_runs
    {ip : Slot} {result : Unit}
    (run : (inodeDup ip).Runs state result final) :
    final = state.setInode ip
      ((state.icache ip).setRef ((state.icache ip).ref + 1)) := by
  simp only [inodeDup, Program.runs_bind, runs_modifyInode] at run
  obtain ⟨_, _, acquire, _, _, rfl, release⟩ := run
  obtain ⟨unlocked, rfl⟩ := acquireIcache_runs acquire
  rw [releaseIcache_runs release]
  exact setInode_under_lock unlocked _ _

/-- A slot is taken once more. -/
theorem Represents.increment
    {run : CacheRun} (represents : Represents run) {ip : Slot}
    (used : (run.fs.icache ip).inodeNum ≠ inodeNumUnused)
    (fits : run.taken (run.fs.icache ip).inodeNum -
      run.freed (run.fs.icache ip).inodeNum + 1 < 2 ^ 32) :
    Represents (run.take (run.fs.setInode ip ((run.fs.icache ip).setRef
      ((run.fs.icache ip).ref + 1))) (run.fs.icache ip).inodeNum) := by
  have counted := represents.counted ip used
  have balanced := represents.balanced (run.fs.icache ip).inodeNum
  have changed := represents.setCounter ((run.fs.icache ip).setRef
    ((run.fs.icache ip).ref + 1)) (run.taken (run.fs.icache ip).inodeNum + 1)
    (run.freed (run.fs.icache ip).inodeNum) used rfl ?_ (by omega)
  · rw [Function.update_eq_self] at changed
    exact changed
  · have one : (1 : UInt32).toNat = 1 := rfl
    rw [Inode.setRef_ref, UInt32.toNat_add, counted, one, Nat.mod_eq_of_lt fits]
    omega

/-- Every call keeps the representation. -/
theorem Represents.step
    {before after : CacheRun} {call : CacheCall}
    (represents : Represents before) (fits : CountersFit before call)
    (step : CacheStep before call after) :
    Represents after := by
  cases step with
  | alloc used run =>
      rcases inodeAlloc_runs run with
        ⟨rfl, rfl⟩ | ⟨absent, unreferenced, rfl⟩
      · exact represents.increment used fits
      · exact represents.takeOver used absent unreferenced
  | dup used run =>
      obtain rfl := inodeDup_runs run
      exact represents.increment used fits
  | @free ip _ used held run =>
      obtain ⟨rfl, _⟩ := inodeFree_runs run
      have counted := represents.counted ip used
      have changed := represents.setCounter ((before.fs.icache ip).setRef
        ((before.fs.icache ip).ref - 1))
        (before.taken (before.fs.icache ip).inodeNum)
        (before.freed (before.fs.icache ip).inodeNum + 1) used rfl ?_ held
      · rw [Function.update_eq_self] at changed
        exact changed
      · have positive : 1 ≤ (before.fs.icache ip).ref := by
          rw [UInt32.le_iff_toNat_le, counted]
          exact Nat.sub_pos_of_lt held
        rw [Inode.setRef_ref, UInt32.toNat_sub_of_le _ _ positive, counted]
        exact Nat.sub_sub _ _ _
  | lock run =>
      obtain ⟨_, _, rfl⟩ := inodeLock_runs run
      exact represents.congr represents.unlocked
        (inodeNum_setInode rfl) (ref_setInode rfl)
  | unlock run =>
      obtain ⟨_, rfl⟩ := inodeUnlock_runs run
      exact represents.congr represents.unlocked
        (inodeNum_setInode rfl) (ref_setInode rfl)

/-- A call does not change the inode of a slot that is referenced. -/
theorem CacheStep.keeps_inode
    {before after : CacheRun} {call : CacheCall}
    (step : CacheStep before call after) {ip : Slot}
    (referenced : (before.fs.icache ip).ref ≠ 0) :
    (after.fs.icache ip).inodeNum = (before.fs.icache ip).inodeNum := by
  cases step with
  | @alloc _ slot _ _ run =>
      rcases inodeAlloc_runs run with ⟨_, rfl⟩ | ⟨_, unreferenced, rfl⟩
      · apply inodeNum_setInode
        rfl
      · have differs : ip ≠ slot := by
          rintro rfl
          exact referenced unreferenced
        simp [CacheRun.take, differs]
  | dup _ run =>
      obtain rfl := inodeDup_runs run
      apply inodeNum_setInode
      rfl
  | free _ _ run =>
      obtain ⟨rfl, _⟩ := inodeFree_runs run
      apply inodeNum_setInode
      rfl
  | lock run =>
      obtain ⟨_, _, rfl⟩ := inodeLock_runs run
      apply inodeNum_setInode
      rfl
  | unlock run =>
      obtain ⟨_, rfl⟩ := inodeUnlock_runs run
      apply inodeNum_setInode
      rfl

theorem represents_of_reachable
    {run : CacheRun}
    (reachable : cacheSystem.ReachableBy CountersFit run) :
    Represents run := by
  refine reachable.invariant ?_ ?_
  · rintro _ ⟨disk, rfl⟩
    exact Represents.initial disk
  · intro before call after represents fits step
    exact represents.step fits step

/-! ## Counters that overflow -/

/-- The cache after the root directory was taken a number of times. -/
def rootTaken (count : Nat) : CacheRun :=
  ⟨(initialCache fun _ => zeroBlock).setInode 0
      ⟨emptyInode.data, inodeRoot, UInt32.ofNat count, false, false⟩,
    Function.update (fun _ => 0) inodeRoot count, fun _ => 0⟩

theorem rootTaken_reachable (count : Nat) :
    cacheSystem.Reachable (rootTaken (count + 1)) := by
  have used : inodeRoot ≠ inodeNumUnused := by decide
  induction count with
  | zero =>
      have start : cacheSystem.Reachable
          ⟨initialCache fun _ => zeroBlock, fun _ => 0, fun _ => 0⟩ :=
        .init ⟨_, rfl⟩
      have absent : slotOf (initialCache fun _ => zeroBlock) inodeRoot =
          none := by decide
      have free : freeSlot (initialCache fun _ => zeroBlock) = some 0 := by
        decide
      exact start.step trivial (.alloc used (inodeAlloc_miss rfl absent free))
  | succ count inductionHypothesis =>
      have found : slotOf (rootTaken (count + 1)).fs inodeRoot = some 0 := by
        rfl
      have taken := inductionHypothesis.step trivial
        (.alloc used (inodeAlloc_hit rfl found))
      have same : (rootTaken (count + 1)).take ((rootTaken
          (count + 1)).fs.setInode 0 (((rootTaken
            (count + 1)).fs.icache 0).setRef (((rootTaken
            (count + 1)).fs.icache 0).ref + 1))) inodeRoot =
          rootTaken (count + 2) := by
        have counter : UInt32.ofNat (count + 1) + 1 =
            UInt32.ofNat (count + 2) := by
          rw [← UInt32.ofNat_one, ← UInt32.ofNat_add]
        simp only [rootTaken, CacheRun.take, State.setInode_setInode,
          State.setInode_icache, Function.update_self, Inode.setRef, counter,
          Function.update_idem]
      rwa [same] at taken

end Fs
end WhuOs
