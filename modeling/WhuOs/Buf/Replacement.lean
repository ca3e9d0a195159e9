import WhuOs.Buf.Calls

/-!
# The buffer that a miss recycles

One process reads and releases blocks.  The list of the cache ends with the
buffers that it has released, the last one at its end, and a miss takes the end
of the list.
-/

namespace WhuOs
namespace Buf

open Library
open Program (Runs)

/-- A call of a process. -/
inductive Call
  | read (blockNum : UInt32)
  | release (index : BufIndex)

/-- The machine, and the history of its buffers: the number of releases, and for
each buffer the number of its last release and the block that it was last read
for. -/
structure Usage where
  machine : Machine
  clock : Nat
  lastRelease : BufIndex → Option Nat
  lastBlock : BufIndex → Option UInt32

namespace Usage

/-- A buffer of the machine. -/
def buf (usage : Usage) (index : BufIndex) : BufT :=
  usage.machine.cache.bufs index

/-- A buffer is read for a block. -/
@[simps -fullyApplied] def recordRead (usage : Usage) (index : BufIndex)
    (blockNum : UInt32) (machine : Machine) : Usage :=
  { usage with
    machine := machine
    lastBlock := Function.update usage.lastBlock index (some blockNum) }

/-- A buffer is released. -/
@[simps -fullyApplied] def recordRelease (usage : Usage) (index : BufIndex)
    (machine : Machine) : Usage :=
  { usage with
    machine := machine
    clock := usage.clock + 1
    lastRelease := Function.update usage.lastRelease index (some usage.clock) }

/-- No buffer has been read or released. -/
structure Initial (usage : Usage) : Prop where
  cache : bufInit bootCache = some usage.machine.cache
  clock : usage.clock = 0
  lastRelease : ∀ index, usage.lastRelease index = none
  lastBlock : ∀ index, usage.lastBlock index = none

end Usage

/-- The calls of a process that never reads a block that it holds. -/
inductive Use (pid : Pid) : Usage → Call → Usage → Prop
  | read {usage : Usage} {blockNum : UInt32} {index : BufIndex}
      {machine : Machine} :
      ¬Holds pid usage.machine blockNum →
      (bufRead pid blockNum).Runs usage.machine index machine →
      Use pid usage (.read blockNum) (usage.recordRead index blockNum machine)
  | release {usage : Usage} {index : BufIndex} {machine : Machine} :
      (bufRelease pid index).Runs usage.machine () machine →
      Use pid usage (.release index) (usage.recordRelease index machine)

/-- The cache used by one process. -/
def usageSystem (pid : Pid) : TransitionSystem Usage Call where
  Init := Usage.Initial
  Step := Use pid

/-- No `buf_read` is given the number that marks unbound buffers. -/
def ProperCall (_ : Usage) : Call → Prop
  | .read blockNum => blockNum ≠ blockNumUnused
  | .release _ => True

/-! ## The list and the history -/

/-- The list is the buffers that the process holds, those that were never used,
and those that it has released, in the order of their last releases. -/
structure Queued (pid : Pid) (usage : Usage)
    (used fresh released : List BufIndex) : Prop where
  threaded : Threaded usage.machine.cache (used ++ (fresh ++ released))
  held : ∀ index ∈ used, (usage.buf index).bufRef = 1 ∧
    (usage.buf index).slk = some pid ∧
    (usage.buf index).blockNum ≠ blockNumUnused
  free : ∀ index ∈ fresh ++ released, (usage.buf index).bufRef = 0 ∧
    (usage.buf index).slk = none ∧
    (usage.buf index).blockNum = blockNumUnused
  never : ∀ index ∈ fresh, usage.lastRelease index = none ∧
    usage.lastBlock index = none
  times : ∀ index ∈ released, ∃ time < usage.clock,
    usage.lastRelease index = some time
  ordered : released.Pairwise fun first second => ∀ time time',
    usage.lastRelease first = some time →
    usage.lastRelease second = some time' → time < time'

/-- The list is ordered by the history. -/
def Ordered (pid : Pid) (usage : Usage) : Prop :=
  ∃ used fresh released, Queued pid usage used fresh released

namespace Queued

variable {pid : Pid} {usage usage' : Usage} {used fresh released : List BufIndex}
  {index : BufIndex} {blockNum : UInt32} {machine : Machine}

theorem mem_used_iff (queued : Queued pid usage used fresh released) :
    index ∈ used ↔ (usage.buf index).bufRef ≠ 0 := by
  constructor
  · intro member
    rw [(queued.held index member).1]
    decide
  · intro referenced
    rcases List.mem_append.mp (queued.threaded.complete index) with
      inUsed | inFree
    · exact inUsed
    · exact absurd (queued.free index inFree).1 referenced

theorem mem_free_iff (queued : Queued pid usage used fresh released) :
    index ∈ fresh ++ released ↔ (usage.buf index).bufRef = 0 := by
  constructor
  · intro member
    exact (queued.free index member).1
  · intro unreferenced
    rcases List.mem_append.mp (queued.threaded.complete index) with
      inUsed | inFree
    · exact absurd unreferenced (queued.mem_used_iff.mp inUsed)
    · exact inFree

/-- After `buf_init` no buffer has been used. -/
theorem of_initial (initial : usage.Initial) :
    Queued pid usage [] (List.finRange nBlockBuf) [] := by
  obtain ⟨cache, isInit, threaded, bufs⟩ := bufInit_threaded
  obtain rfl : cache = usage.machine.cache := by
    exact Option.some.inj (isInit.symm.trans initial.cache)
  refine ⟨by simpa using threaded, nofun, fun index _ => ?_,
    fun index _ => ⟨initial.lastRelease index, initial.lastBlock index⟩, nofun,
    List.Pairwise.nil⟩
  unfold Usage.buf
  rw [bufs index]
  exact ⟨rfl, rfl, rfl⟩

/-- No buffer is bound to a block that the process does not hold. -/
theorem absent
    (queued : Queued pid usage used fresh released)
    (proper : blockNum ≠ blockNumUnused)
    (notHeld : ¬Holds pid usage.machine blockNum) (index : BufIndex) :
    (usage.buf index).blockNum ≠ blockNum := by
  intro isBound
  rcases List.mem_append.mp (queued.threaded.complete index) with
    inUsed | inFree
  · exact notHeld ⟨index, (queued.held index inUsed).2.1, isBound⟩
  · exact proper (isBound.symm.trans (queued.free index inFree).2.2)

/-- A block that the process does not hold is read into the last buffer of the
list. -/
theorem read_runs
    (queued : Queued pid usage used fresh released)
    (proper : blockNum ≠ blockNumUnused)
    (notHeld : ¬Holds pid usage.machine blockNum)
    (run : (bufRead pid blockNum).Runs usage.machine index machine) :
    ∃ front, fresh ++ released = front ++ [index] ∧
      ReadMiss pid blockNum (used ++ front) index usage.machine machine := by
  rcases bufRead_runs queued.threaded run with hit | ⟨front, isOrder, miss⟩
  · exact absurd hit.isBound (queued.absent proper notHeld index)
  · have inFree : index ∈ fresh ++ released :=
      queued.mem_free_iff.mpr miss.unreferenced
    rcases List.eq_nil_or_concat (fresh ++ released) with isNil | ⟨rest, last, isFree⟩
    · rw [isNil] at inFree
      exact absurd inFree List.not_mem_nil
    · rw [isFree, List.concat_eq_append, ← List.append_assoc] at isOrder
      obtain ⟨rfl, same⟩ := List.append_inj' isOrder rfl
      obtain rfl := List.singleton_inj.mp same
      rw [List.concat_eq_append] at isFree
      exact ⟨rest, isFree, miss⟩

/-- A read takes the buffer that was released last, or else one that was never
used. -/
theorem read
    (queued : Queued pid usage used fresh released)
    (proper : blockNum ≠ blockNumUnused)
    (notHeld : ¬Holds pid usage.machine blockNum)
    (run : (bufRead pid blockNum).Runs usage.machine index machine) :
    ∃ fresh' released', Queued pid (usage.recordRead index blockNum machine)
        (index :: used) fresh' released' ∧
      fresh ++ released = fresh' ++ released' ++ [index] := by
  obtain ⟨front, isFree, miss⟩ := queued.read_runs proper notHeld run
  have distinct := queued.threaded.nodup
  rw [isFree, ← List.append_assoc] at distinct
  have fresher : ∀ other ∈ used ++ front, other ≠ index := by
    rintro other member rfl
    exact (List.nodup_append.mp distinct).2.2 other member other
      (List.mem_singleton_self other) rfl
  have kept : ∀ other, other ≠ index →
      (usage.recordRead index blockNum machine).buf other = usage.buf other := by
    intro other differs
    unfold Usage.buf
    rw [Usage.recordRead_machine, miss.bufs, Function.update_of_ne differs]
  have parts : ∃ fresh' released', front = fresh' ++ released' ∧
      (∀ other ∈ fresh', other ∈ fresh) ∧ released'.Sublist released := by
    rcases List.eq_nil_or_concat released with rfl | ⟨rest, last, rfl⟩
    · rw [List.append_nil] at isFree
      refine ⟨front, [], (List.append_nil front).symm, fun other member => ?_,
        .slnil⟩
      rw [isFree]
      exact List.mem_append_left _ member
    · rw [List.concat_eq_append, ← List.append_assoc] at isFree
      obtain ⟨rfl, _⟩ := List.append_inj' isFree rfl
      refine ⟨fresh, rest, rfl, fun _ member => member, ?_⟩
      rw [List.concat_eq_append]
      exact List.sublist_append_left rest [last]
  obtain ⟨fresh', released', rfl, fromFresh, fromReleased⟩ := parts
  refine ⟨fresh', released', ⟨miss.threaded, fun other member => ?_,
    fun other member => ?_, fun other member => ?_, fun other member => ?_,
    queued.ordered.sublist fromReleased⟩, isFree⟩
  · rcases List.mem_cons.mp member with rfl | inUsed
    · unfold Usage.buf
      rw [Usage.recordRead_machine, miss.bufs, Function.update_self]
      exact ⟨rfl, rfl, proper⟩
    · rw [kept other (fresher other (List.mem_append_left _ inUsed))]
      exact queued.held other inUsed
  · rw [kept other (fresher other (List.mem_append_right _ member))]
    refine queued.free other ?_
    rw [isFree]
    exact List.mem_append_left _ member
  · have differs := fresher other
      (List.mem_append_right _ (List.mem_append_left _ member))
    obtain ⟨notReleased, notRead⟩ := queued.never other (fromFresh other member)
    refine ⟨notReleased, ?_⟩
    rw [Usage.recordRead_lastBlock, Function.update_of_ne differs]
    exact notRead
  · exact queued.times other (fromReleased.subset member)

theorem release
    (queued : Queued pid usage used fresh released)
    (run : (bufRelease pid index).Runs usage.machine () machine) :
    ∃ front back, used = front ++ index :: back ∧
      Queued pid (usage.recordRelease index machine) (front ++ back) fresh
        (released ++ [index]) := by
  have isHeld : (usage.buf index).slk = some pid := by
    by_contra notHeld
    unfold Program.Runs at run
    rw [bufRelease_not_held notHeld] at run
    cases run
  have inUsed : index ∈ used := by
    rcases List.mem_append.mp (queued.threaded.complete index) with
      inUsed | inFree
    · exact inUsed
    · rw [(queued.free index inFree).2.1] at isHeld
      cases isHeld
  obtain ⟨isLast, _, _⟩ := queued.held index inUsed
  obtain ⟨front, back, rfl⟩ := List.append_of_mem inUsed
  have threaded := queued.threaded
  rw [List.append_assoc, List.cons_append] at threaded
  obtain ⟨_, run', isReleased⟩ := bufRelease_runs threaded isLast isHeld
  obtain ⟨_, rfl⟩ := run.deterministic run'
  have distinct := threaded.nodup
  rw [List.nodup_middle, List.nodup_cons] at distinct
  have kept : ∀ other, other ∈ front ++ (back ++ (fresh ++ released)) →
      other ≠ index ∧
        (usage.recordRelease index machine).buf other = usage.buf other := by
    intro other member
    have differs : other ≠ index := by
      rintro rfl
      exact distinct.1 member
    unfold Usage.buf
    rw [Usage.recordRelease_machine, isReleased.bufs,
      Function.update_of_ne differs]
    exact ⟨differs, rfl⟩
  have inFree : ∀ other ∈ fresh ++ released,
      other ∈ front ++ (back ++ (fresh ++ released)) :=
    fun other member => List.mem_append_right _ (List.mem_append_right _ member)
  refine ⟨front, back, rfl, ⟨?_, fun other member => ?_,
    fun other member => ?_, fun other member => ?_, fun other member => ?_, ?_⟩⟩
  · have moved := isReleased.threaded
    simp only [List.append_assoc] at moved ⊢
    exact moved
  · have member' : other ∈ front ++ (back ++ (fresh ++ released)) := by
      rw [← List.append_assoc]
      exact List.mem_append_left _ member
    rw [(kept other member').2]
    refine queued.held other ?_
    rcases List.mem_append.mp member with inFront | inBack
    · exact List.mem_append_left _ inFront
    · exact List.mem_append_right _ (List.mem_cons_of_mem _ inBack)
  · rw [← List.append_assoc] at member
    rcases List.mem_append.mp member with before | isIndex
    · rw [(kept other (inFree other before)).2]
      exact queued.free other before
    · obtain rfl := List.mem_singleton.mp isIndex
      unfold Usage.buf
      rw [Usage.recordRelease_machine, isReleased.bufs, Function.update_self]
      exact ⟨rfl, rfl, rfl⟩
  · have differs := (kept other (inFree other
      (List.mem_append_left _ member))).1
    rw [Usage.recordRelease_lastRelease, Function.update_of_ne differs]
    exact queued.never other member
  · rw [Usage.recordRelease_lastRelease, Usage.recordRelease_clock]
    rcases List.mem_append.mp member with before | isIndex
    · have differs := (kept other (inFree other
        (List.mem_append_right _ before))).1
      obtain ⟨time, earlier, isTime⟩ := queued.times other before
      rw [Function.update_of_ne differs]
      exact ⟨time, Nat.lt_succ_of_lt earlier, isTime⟩
    · obtain rfl := List.mem_singleton.mp isIndex
      rw [Function.update_self]
      exact ⟨_, Nat.lt_succ_self _, rfl⟩
  · rw [Usage.recordRelease_lastRelease]
    have differs : ∀ other ∈ released, other ≠ index :=
      fun other member => (kept other (inFree other
        (List.mem_append_right _ member))).1
    refine List.pairwise_append.mpr ⟨?_, List.pairwise_singleton _ _,
      fun first before second isIndex time time' isTime isTime' => ?_⟩
    · refine queued.ordered.imp_of_mem fun inFirst inSecond before time time' isTime
        isTime' => ?_
      rw [Function.update_of_ne (differs _ inFirst)] at isTime
      rw [Function.update_of_ne (differs _ inSecond)] at isTime'
      exact before time time' isTime isTime'
    · obtain rfl := List.mem_singleton.mp isIndex
      rw [Function.update_of_ne (differs _ before)] at isTime
      rw [Function.update_self] at isTime'
      obtain ⟨time'', earlier, isTime''⟩ := queued.times first before
      rw [isTime''] at isTime
      cases isTime
      cases isTime'
      exact earlier

theorem step
    (queued : Queued pid usage used fresh released) {call : Call}
    (proper : ProperCall usage call) (taken : Use pid usage call usage') :
    Ordered pid usage' := by
  cases taken with
  | read notHeld run =>
      obtain ⟨fresh', released', queued', _⟩ := queued.read proper notHeld run
      exact ⟨_, fresh', released', queued'⟩
  | release run =>
      obtain ⟨front, back, _, queued'⟩ := queued.release run
      exact ⟨_, fresh, _, queued'⟩

end Queued

theorem ordered_of_reachable
    {pid : Pid} {usage : Usage}
    (reachable : (usageSystem pid).ReachableBy ProperCall usage) :
    Ordered pid usage := by
  apply reachable.invariant
  · intro usage initial
    exact ⟨_, _, _, Queued.of_initial initial⟩
  · rintro usage call usage' ⟨used, fresh, released, queued⟩ proper taken
    exact queued.step proper taken

/-! ## Least recently used -/

/-- A buffer was released before another one, or was never used. -/
def NotAfter (first second : Option Nat) : Prop :=
  ∀ time, first = some time → ∃ time', second = some time' ∧ time ≤ time'

/-- What a cache does that replaces the least recently used buffer. -/
structure ServesLru (usage : Usage) (blockNum : UInt32) (index : BufIndex)
    (machine : Machine) : Prop where
  /-- A buffer that is filled from the disk was never used, or the one whose
  last release is the oldest. -/
  oldest : machine.requests ≠ usage.machine.requests →
    (usage.buf index).bufRef = 0 ∧
      ∀ other, (usage.buf other).bufRef = 0 →
        NotAfter (usage.lastRelease index) (usage.lastRelease other)
  /-- A block whose buffer was not recycled is not read from the disk again. -/
  cached : ∀ other, (usage.buf other).bufRef = 0 →
    usage.lastBlock other = some blockNum →
    index = other ∧ machine.requests = usage.machine.requests

/-- The buffers that the process does not hold were never used, or there is only
one of them and it was last read for another block. -/
def NoChoice (usage : Usage) (blockNum : UInt32) : Prop :=
  (∀ index, (usage.buf index).bufRef = 0 → usage.lastRelease index = none) ∨
    ∃ last, (∀ index, (usage.buf index).bufRef = 0 ↔ index = last) ∧
      usage.lastBlock last ≠ some blockNum

/-! ## The first reads -/

/-- The cache after `buf_init`, with an empty disk. -/
theorem exists_initialUsage : ∃ usage : Usage, usage.Initial := by
  obtain ⟨cache, isInit, _⟩ := bufInit_eq_some
  exact ⟨⟨⟨cache, fun _ => 0, []⟩, 0, fun _ => none, fun _ => none⟩, isInit, rfl,
    fun _ => rfl, fun _ => rfl⟩

namespace Queued

variable {pid : Pid} {usage : Usage} {used fresh released : List BufIndex}
  {blockNum : UInt32}

/-- A process that holds no buffer holds no block. -/
theorem not_holds (queued : Queued pid usage [] fresh released) :
    ¬Holds pid usage.machine blockNum := by
  rintro ⟨index, isHeld, _⟩
  have isFree := (queued.free index (queued.threaded.complete index)).2.1
  unfold Usage.buf at isFree
  rw [isFree] at isHeld
  cases isHeld

/-- A read returns as long as a buffer is not held. -/
theorem exists_read
    (queued : Queued pid usage used fresh released)
    (proper : blockNum ≠ blockNumUnused)
    (notHeld : ¬Holds pid usage.machine blockNum)
    (some : fresh ++ released ≠ []) :
    ∃ index machine, (bufRead pid blockNum).Runs usage.machine index machine := by
  rcases List.eq_nil_or_concat (fresh ++ released) with
    none | ⟨front, last, isFree⟩
  · exact absurd none some
  · have threaded := queued.threaded
    rw [isFree, List.concat_eq_append, ← List.append_assoc] at threaded
    obtain ⟨unreferenced, isFree, _⟩ := queued.free last (by simp [isFree])
    refine ⟨last, bufRead_recycles threaded (queued.absent proper notHeld)
      unreferenced ?_⟩
    change (usage.buf last).slk ≠ _
    rw [isFree]
    exact nofun

/-- A buffer that the process holds can be released. -/
theorem exists_release
    {index : BufIndex} (queued : Queued pid usage used fresh released)
    (member : index ∈ used) :
    ∃ machine, (bufRelease pid index).Runs usage.machine () machine := by
  obtain ⟨isLast, isHeld, _⟩ := queued.held index member
  obtain ⟨front, back, rfl⟩ := List.append_of_mem member
  have threaded := queued.threaded
  rw [List.append_assoc, List.cons_append] at threaded
  obtain ⟨machine, run, _⟩ := bufRelease_runs threaded isLast isHeld
  exact ⟨machine, run⟩

end Queued

end Buf
end WhuOs
