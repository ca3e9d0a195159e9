import WhuOs.Library.TransitionSystem
import WhuOs.Process.Scheduler

/-!
# Time slices

CPU 0 runs the scheduler; the other CPU idles.  A process that is scheduled gets
a full time slice, every timer interrupt takes one tick of it, and the end of a
trap preempts a process that has used up its slice.  So a process that is ready
to run waits for a bounded number of ticks of other processes.
-/

namespace WhuOs
namespace Process

open Library

/-- What timer interrupts and the scheduler of CPU 0 work on. -/
structure Sharing where
  scheduler : Scheduler
  totalTime : Pid → UInt64
  /-- `sys_timer.ticks`. -/
  ticks : UInt64
  /-- `mycpu()->proc`. -/
  current : Option Pid

namespace Sharing

def task (sharing : Sharing) (slot : Pid) : Task :=
  sharing.scheduler.procs slot

def setTask (sharing : Sharing) (slot : Pid) (task : Task) : Sharing :=
  { sharing with scheduler :=
    ⟨Function.update sharing.scheduler.procs slot task,
      sharing.scheduler.lastScheduled⟩ }

def setCurrent (sharing : Sharing) (current : Option Pid) : Sharing :=
  { sharing with current := current }

def addTime (sharing : Sharing) (slot : Pid) : Sharing :=
  { sharing with totalTime :=
    Function.update sharing.totalTime slot (sharing.totalTime slot + 1) }

end Sharing

/-- `timer_update`. -/
def timerUpdate (sharing : Sharing) : Sharing :=
  { sharing with ticks := sharing.ticks + 1 }

/-- `timer_interrupt_handler` on CPU 0. -/
def timerInterruptHandler (sharing : Sharing) : Sharing :=
  let sharing := timerUpdate sharing
  match sharing.current with
  | none => sharing
  | some slot =>
      let sharing := sharing.addTime slot
      let task := sharing.task slot
      if 0 < task.timeSlice then
        sharing.setTask slot ⟨task.state, task.timeSlice - 1⟩
      else sharing

/-- The check of the time slice at the end of `trap_user_handler`, and of
`trap_kernel_handler` after a timer interrupt.  A process that has used up its
slice switches to the scheduler. -/
def checkTimeSlice (sharing : Sharing) : Sharing :=
  match sharing.current with
  | none => sharing
  | some slot =>
      if (sharing.task slot).timeSlice = 0 then
        (sharing.setTask slot ⟨.runnable, fullTimeSlice⟩).setCurrent none
      else sharing

inductive SharingAction
  | pick (slot : Pid)
  /-- A timer interrupt while a process runs. -/
  | tick (slot : Pid)
  /-- A timer interrupt of the scheduler. -/
  | idleTick
  /-- Any other trap from user mode. -/
  | trap (slot : Pid)
  /-- `proc_yield`, `proc_sleep` or `proc_exit`. -/
  | leave (slot : Pid)
  /-- `proc_fork`, `proc_wakeup`, `proc_wait` and so on change other slots. -/
  | others

/-- A tick that a process pays for. -/
def SharingAction.isTick : SharingAction → Bool
  | .tick _ => true
  | _ => false

/-- A step of CPU 0. -/
inductive SharingStep : Sharing → SharingAction → Sharing → Prop
  | pick {before : Sharing} {slot : Pid} :
      before.current = none →
      before.scheduler.pick = some slot →
      SharingStep before (.pick slot) ⟨before.scheduler.round,
        before.totalTime, before.ticks, some slot⟩
  | tick {before : Sharing} {slot : Pid} :
      before.current = some slot →
      SharingStep before (.tick slot)
        (checkTimeSlice (timerInterruptHandler before))
  | idleTick {before : Sharing} :
      before.current = none →
      SharingStep before .idleTick (timerInterruptHandler before)
  | trap {before : Sharing} {slot : Pid} :
      before.current = some slot →
      SharingStep before (.trap slot) (checkTimeSlice before)
  | leave {before : Sharing} {slot : Pid} {state : ProcState} :
      before.current = some slot →
      state = .runnable ∨ state = .sleeping ∨ state = .zombie →
      SharingStep before (.leave slot) ((before.setTask slot
        ⟨state, (before.task slot).timeSlice⟩).setCurrent none)
  | others {before : Sharing} {procs : Pid → Task} :
      (∀ slot, before.current = some slot → procs slot = before.task slot) →
      SharingStep before .others ⟨⟨procs, before.scheduler.lastScheduled⟩,
        before.totalTime, before.ticks, before.current⟩

/-- CPU 0 from the first round of its scheduler on. -/
def sharingSystem : TransitionSystem Sharing SharingAction where
  Init sharing := sharing.scheduler.lastScheduled = -1 ∧
    sharing.current = none
  Step := SharingStep

/-! ## The invariant -/

/-- The process that runs is `RUNNING`, was scheduled last and has some of its
time slice left. -/
structure SliceLeft (sharing : Sharing) (slot : Pid) : Prop where
  running : (sharing.task slot).state = .running
  last : sharing.scheduler.lastScheduled = slot.val
  some : 0 < (sharing.task slot).timeSlice
  atMost : (sharing.task slot).timeSlice ≤ fullTimeSlice

/-- Whatever runs has a time slice. -/
def SlicesHold (sharing : Sharing) : Prop :=
  ∀ slot, sharing.current = some slot → SliceLeft sharing slot

/-- A task after a tick. -/
def Task.ticked (task : Task) : Task :=
  ⟨task.state, task.timeSlice - 1⟩

/-- What a timer interrupt does while a process runs. -/
structure Ticked (before after : Sharing) (slot : Pid) : Prop where
  last : after.scheduler.lastScheduled = before.scheduler.lastScheduled
  outcome :
    (after.current = some slot ∧ 1 < (before.task slot).timeSlice ∧
      after.task slot = (before.task slot).ticked) ∨
    after.current = none

section Steps

variable {before after : Sharing} {slot : Pid}

theorem SliceLeft.congr
    (left : SliceLeft before slot) (isTask : after.task slot = before.task slot)
    (last : after.scheduler.lastScheduled = before.scheduler.lastScheduled) :
    SliceLeft after slot := by
  refine ⟨?_, last.trans left.last, ?_, ?_⟩
  · rw [isTask]
    exact left.running
  · rw [isTask]
    exact left.some
  · rw [isTask]
    exact left.atMost

/-- The scheduler starts behind the process it scheduled last. -/
theorem start_of_last
    {scheduler : Scheduler} (isLast : scheduler.lastScheduled = slot.val) :
    scheduler.start = slot + 1 := by
  have bound := slot.isLt
  apply Fin.ext
  rw [RoundRobin.next_val]
  change scheduler.startIdx = _
  unfold Scheduler.startIdx
  rw [isLast]
  unfold nProc at *
  split <;> omega

/-- Only `last_scheduled` decides where a round starts. -/
theorem start_congr
    {scheduler scheduler' : Scheduler}
    (same : scheduler'.lastScheduled = scheduler.lastScheduled) :
    scheduler'.start = scheduler.start := by
  apply Fin.ext
  change scheduler'.startIdx = scheduler.startIdx
  unfold Scheduler.startIdx
  rw [same]

/-- A process with time left goes on. -/
theorem checkTimeSlice_of_left
    (isCurrent : before.current = some slot)
    (left : 0 < (before.task slot).timeSlice) :
    checkTimeSlice before = before := by
  have notZero : (before.task slot).timeSlice ≠ 0 := by
    intro isZero
    rw [isZero] at left
    exact UInt64.lt_irrefl 0 left
  unfold checkTimeSlice
  rw [isCurrent]
  exact if_neg notZero

theorem ticked
    (isCurrent : before.current = some slot)
    (left : 0 < (before.task slot).timeSlice) :
    Ticked before (checkTimeSlice (timerInterruptHandler before)) slot := by
  have isCurrent' : (timerUpdate before).current = some slot := isCurrent
  have handled : timerInterruptHandler before =
      ((timerUpdate before).addTime slot).setTask slot
        (before.task slot).ticked := by
    unfold timerInterruptHandler
    dsimp only
    rw [isCurrent']
    exact if_pos left
  have isTask : (timerInterruptHandler before).task slot =
      (before.task slot).ticked := by
    rw [handled]
    exact Function.update_self _ _ _
  have stays : (timerInterruptHandler before).current = some slot := by
    rw [handled]
    exact isCurrent
  have sameLast : (timerInterruptHandler before).scheduler.lastScheduled =
      before.scheduler.lastScheduled := by
    rw [handled]
    rfl
  unfold checkTimeSlice
  rw [stays]
  dsimp only
  split
  · exact ⟨sameLast, Or.inr rfl⟩
  · next some =>
      refine ⟨sameLast, Or.inl ⟨stays, ?_, isTask⟩⟩
      rw [isTask] at some
      have isSome : (before.task slot).timeSlice - 1 ≠ 0 := some
      have differs : (before.task slot).timeSlice ≠ 1 := by
        intro same
        rw [same] at isSome
        exact isSome rfl
      rw [UInt64.lt_iff_toNat_lt] at left ⊢
      have notOne : (before.task slot).timeSlice.toNat ≠ 1 :=
        fun same => differs (UInt64.toNat_inj.mp same)
      change 0 < _ at left
      change 1 < _
      omega

/-- The time left after a tick that was not the last one. -/
theorem ticked_toNat {task : Task} (more : 1 < task.timeSlice) :
    task.ticked.timeSlice.toNat + 1 = task.timeSlice.toNat := by
  have isMore : 1 < task.timeSlice.toNat := more
  have least : (1 : UInt64) ≤ task.timeSlice :=
    UInt64.le_iff_toNat_le.mpr (Nat.le_of_lt isMore)
  have less : (task.timeSlice - 1).toNat = task.timeSlice.toNat - 1 :=
    UInt64.toNat_sub_of_le _ _ least
  change (task.timeSlice - 1).toNat + 1 = _
  omega

/-- What a round has done when it switches to a process. -/
theorem round_of_pick
    {scheduler : Scheduler} (picked : scheduler.pick = some slot) :
    scheduler.round = ⟨Function.update scheduler.procs slot
      ⟨.running, fullTimeSlice⟩, slot.val⟩ := by
  unfold Scheduler.round
  rw [picked]
  rfl

/-- Every step leaves the process that runs some of its time slice. -/
theorem SlicesHold.step
    (holds : SlicesHold before) {action : SharingAction}
    (step : SharingStep before action after) : SlicesHold after := by
  cases step with
  | @pick slot isNone picked =>
      intro current isCurrent
      cases isCurrent
      have round := round_of_pick picked
      have isTask : (Sharing.mk before.scheduler.round before.totalTime
          before.ticks (some slot)).task slot = ⟨.running, fullTimeSlice⟩ := by
        unfold Sharing.task
        rw [round]
        exact Function.update_self _ _ _
      refine ⟨?_, ?_, ?_, ?_⟩
      · rw [isTask]
      · exact congrArg Scheduler.lastScheduled round
      · rw [isTask]
        decide
      · rw [isTask]
        exact UInt64.le_rfl
  | @tick slot isCurrent =>
      have left := holds slot isCurrent
      have isTicked := ticked isCurrent left.some
      intro current isCurrent'
      rcases isTicked.outcome with ⟨stays, more, isTask⟩ | isNone
      · cases Option.some.inj (stays.symm.trans isCurrent')
        have less := ticked_toNat more
        refine ⟨?_, isTicked.last.trans left.last, ?_, ?_⟩
        · rw [isTask]
          exact left.running
        · have isMore : 1 < (before.task slot).timeSlice.toNat := more
          rw [isTask, UInt64.lt_iff_toNat_lt]
          change 0 < _
          omega
        · have bound := UInt64.le_iff_toNat_le.mp left.atMost
          rw [isTask, UInt64.le_iff_toNat_le]
          omega
      · cases isNone.symm.trans isCurrent'
  | idleTick isNone =>
      have idle : timerInterruptHandler before = timerUpdate before := by
        unfold timerInterruptHandler
        dsimp only
        rw [show (timerUpdate before).current = none from isNone]
      rw [idle]
      intro current isCurrent
      cases isNone.symm.trans isCurrent
  | trap isCurrent =>
      rw [checkTimeSlice_of_left isCurrent (holds _ isCurrent).some]
      exact holds
  | leave isCurrent =>
      intro current isCurrent'
      cases isCurrent'
  | others same =>
      intro current isCurrent
      exact (holds current isCurrent).congr (same current isCurrent) rfl

theorem SlicesHold.of_reachable
    (reachable : sharingSystem.Reachable before) : SlicesHold before := by
  apply reachable.invariant
  · rintro sharing ⟨_, isNone⟩ current isCurrent
    cases isNone.symm.trans isCurrent
  · intro before action after holds _ step
    exact holds.step step

/-! ## Waiting -/

/-- The ticks that other processes can use before a process is scheduled: the
rest of the slice of the process that runs, and a full slice for each slot in
between. -/
def waitBound (slot : Pid) (sharing : Sharing) : Nat :=
  fullTimeSlice.toNat * RoundRobin.ahead sharing.scheduler.start slot +
    match sharing.current with
    | none => 0
    | some current => (sharing.task current).timeSlice.toNat

theorem waitBound_none
    (slot : Pid) (isNone : before.current = none) :
    waitBound slot before =
      fullTimeSlice.toNat * RoundRobin.ahead before.scheduler.start slot := by
  unfold waitBound
  rw [isNone]
  exact Nat.add_zero _

theorem waitBound_some
    (slot : Pid) {current : Pid} (isCurrent : before.current = some current) :
    waitBound slot before =
      fullTimeSlice.toNat * RoundRobin.ahead before.scheduler.start slot +
        (before.task current).timeSlice.toNat := by
  unfold waitBound
  rw [isCurrent]

/-- The bound pays for the ticks while a process waits. -/
theorem waitBound_pays
    (holds : SlicesHold before)
    (waits : (before.task slot).state = .runnable)
    (waits' : (after.task slot).state = .runnable) {action : SharingAction}
    (step : SharingStep before action after) :
    (if action.isTick then 1 else 0) + waitBound slot after ≤
      waitBound slot before := by
  have isFull : fullTimeSlice.toNat = 10 := rfl
  cases step with
  | @pick picked isNone isPicked =>
      have round := round_of_pick isPicked
      have isTask : (Sharing.mk before.scheduler.round before.totalTime
          before.ticks (some picked)).task picked =
          ⟨.running, fullTimeSlice⟩ := by
        unfold Sharing.task
        rw [round]
        exact Function.update_self _ _ _
      have differs : slot ≠ picked := by
        intro same
        rw [same, isTask] at waits'
        cases waits'
      have earlier := (Scheduler.pick_eq_some isPicked).ahead_lt waits differs
      have start : before.scheduler.round.start = picked + 1 :=
        start_of_last (congrArg Scheduler.lastScheduled round)
      rw [waitBound_none slot isNone, waitBound_some slot rfl, isTask, start,
        isFull]
      change 0 + _ ≤ _
      omega
  | @tick current isCurrent =>
      have left := holds current isCurrent
      have isTicked := ticked isCurrent left.some
      have some : 0 < (before.task current).timeSlice.toNat := left.some
      have start := start_congr isTicked.last
      rw [waitBound_some slot isCurrent]
      change 1 + _ ≤ _
      rcases isTicked.outcome with ⟨stays, more, isTask⟩ | isNone
      · have less := ticked_toNat more
        rw [waitBound_some slot stays, start, isTask]
        omega
      · rw [waitBound_none slot isNone, start]
        omega
  | idleTick isNone =>
      have idle : timerInterruptHandler before = timerUpdate before := by
        unfold timerInterruptHandler
        dsimp only
        rw [show (timerUpdate before).current = none from isNone]
      rw [idle]
      exact Nat.le_of_eq (Nat.zero_add _)
  | trap isCurrent =>
      rw [checkTimeSlice_of_left isCurrent (holds _ isCurrent).some]
      exact Nat.le_of_eq (Nat.zero_add _)
  | @leave current state isCurrent =>
      rw [waitBound_some slot isCurrent, waitBound_none slot rfl]
      change 0 + fullTimeSlice.toNat *
        RoundRobin.ahead before.scheduler.start slot ≤ _
      omega
  | @others procs same =>
      have start : Scheduler.start ⟨procs, before.scheduler.lastScheduled⟩ =
          before.scheduler.start := start_congr rfl
      cases isCurrent : before.current with
      | none =>
          rw [waitBound_none slot isCurrent, waitBound_none slot rfl, start]
          exact Nat.le_of_eq (Nat.zero_add _)
      | some current =>
          have isTask : Sharing.task ⟨⟨procs, before.scheduler.lastScheduled⟩,
              before.totalTime, before.ticks, some current⟩ current =
              before.task current := same current isCurrent
          rw [waitBound_some slot isCurrent, waitBound_some slot rfl, start,
            isTask]
          exact Nat.le_of_eq (Nat.zero_add _)

end Steps

end Process
end WhuOs
