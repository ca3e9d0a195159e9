import WhuOs.Library.RoundRobin
import WhuOs.Process.Defs

/-!
# The scheduler

The rounds of the loop of `proc_scheduler` on one CPU.  A round scans the process
table from the slot after `last_scheduled` and switches to the first runnable
process; when that process switches back, and while the CPU waits, the other
processes may have changed in any way.
-/

namespace WhuOs
namespace Process

open Library

/-- `TIME_SLICE`. -/
def fullTimeSlice : UInt64 := 10

/-- The fields of `proc_t` that the scheduler reads and writes. -/
structure Task where
  state : ProcState
  timeSlice : UInt64

/-- The process table and `last_scheduled`. -/
structure Scheduler where
  procs : Pid → Task
  lastScheduled : Int

/-- `proc_reset_time_slice`. -/
def Task.resetTimeSlice (task : Task) : Task :=
  { task with timeSlice := fullTimeSlice }

/-- The slot that a round looks at in a turn: `(start_idx + i) % NPROC`. -/
def slotAt (startIdx turn : Nat) : Pid :=
  ⟨(startIdx + turn) % nProc, Nat.mod_lt _ (by decide)⟩

/-- `start_idx`. -/
def Scheduler.startIdx (scheduler : Scheduler) : Nat :=
  ((scheduler.lastScheduled + 1) % nProc).toNat

/-- The process that a round switches to. -/
def Scheduler.pick (scheduler : Scheduler) : Option Pid :=
  ((List.range nProc).find? fun turn =>
    (scheduler.procs (slotAt scheduler.startIdx turn)).state = .runnable).map
      (slotAt scheduler.startIdx)

/-- What a round has done when it switches to a process, or when it waits for an
interrupt. -/
def Scheduler.round (scheduler : Scheduler) : Scheduler :=
  match scheduler.pick with
  | some slot =>
      ⟨Function.update scheduler.procs slot
        { (scheduler.procs slot).resetTimeSlice with state := .running },
        slot.val⟩
  | none => scheduler

/-- The rounds of one CPU.  Nothing but the scheduler writes
`last_scheduled`. -/
structure Rounds (run : Nat → Scheduler) : Prop where
  initial : (run 0).lastScheduled = -1
  next : ∀ round, (run (round + 1)).lastScheduled =
    (run round).round.lastScheduled

/-! ## Rounds on the ring of slots -/

theorem Scheduler.startIdx_lt (scheduler : Scheduler) :
    scheduler.startIdx < nProc := by
  have small := Int.emod_lt_of_pos (scheduler.lastScheduled + 1)
    (show (0 : Int) < nProc by decide)
  unfold Scheduler.startIdx
  unfold nProc at *
  omega

/-- The first slot of a round. -/
def Scheduler.start (scheduler : Scheduler) : Pid :=
  ⟨scheduler.startIdx, scheduler.startIdx_lt⟩

theorem ahead_slotAt
    (scheduler : Scheduler) {turn : Nat} (bound : turn < nProc) :
    RoundRobin.ahead scheduler.start (slotAt scheduler.startIdx turn) =
      turn := by
  have start := scheduler.startIdx_lt
  unfold RoundRobin.ahead Scheduler.start slotAt
  dsimp only
  unfold nProc at *
  split <;> omega

/-- Each slot is looked at in some turn. -/
theorem slotAt_ahead (scheduler : Scheduler) (slot : Pid) :
    RoundRobin.ahead scheduler.start slot < nProc ∧
      slotAt scheduler.startIdx (RoundRobin.ahead scheduler.start slot) =
        slot := by
  have start := scheduler.startIdx_lt
  have bound := slot.isLt
  unfold RoundRobin.ahead Scheduler.start slotAt
  dsimp only
  unfold nProc at *
  constructor
  · split <;> omega
  · apply Fin.ext
    dsimp only
    split <;> omega

/-- A round switches to the first runnable process. -/
theorem Scheduler.pick_eq_some
    {scheduler : Scheduler} {slot : Pid} (picked : scheduler.pick = some slot) :
    RoundRobin.Picks (fun slot => (scheduler.procs slot).state = .runnable)
      scheduler.start slot := by
  obtain ⟨turn, found, rfl⟩ := Option.map_eq_some_iff.mp picked
  obtain ⟨isRunnable, inRange, before⟩ := List.find?_range_eq_some.mp found
  rw [List.mem_range] at inRange
  refine ⟨of_decide_eq_true isRunnable, fun other isReady => ?_⟩
  obtain ⟨bound, isOther⟩ := slotAt_ahead scheduler other
  rw [ahead_slotAt scheduler inRange]
  by_contra earlier
  have skipped := before _ (Nat.lt_of_not_le earlier)
  rw [isOther, decide_eq_true isReady] at skipped
  exact absurd skipped (by decide)

theorem Scheduler.pick_eq_none
    {scheduler : Scheduler} (idle : scheduler.pick = none) (slot : Pid) :
    (scheduler.procs slot).state ≠ .runnable := by
  obtain ⟨bound, isSlot⟩ := slotAt_ahead scheduler slot
  have skipped := List.find?_eq_none.mp (Option.map_eq_none_iff.mp idle) _
    (List.mem_range.mpr bound)
  rw [isSlot] at skipped
  exact fun isRunnable => skipped (decide_eq_true isRunnable)

theorem Rounds.roundRobin {run : Nat → Scheduler} (rounds : Rounds run) :
    RoundRobin.Rounds
      (fun round slot => ((run round).procs slot).state = .runnable)
      (fun round => (run round).start) (fun round => (run round).pick) := by
  refine ⟨fun round slot picked => ⟨Scheduler.pick_eq_some picked, ?_⟩,
    fun round idle => ⟨Scheduler.pick_eq_none idle, ?_⟩⟩
  · have next := rounds.next round
    have bound := slot.isLt
    unfold Scheduler.round at next
    rw [picked] at next
    apply Fin.ext
    rw [RoundRobin.next_val]
    change (run (round + 1)).startIdx = _
    unfold Scheduler.startIdx
    rw [next]
    dsimp only
    unfold nProc at *
    split <;> omega
  · have next := rounds.next round
    unfold Scheduler.round at next
    rw [idle] at next
    apply Fin.ext
    change (run (round + 1)).startIdx = (run round).startIdx
    unfold Scheduler.startIdx
    rw [next]

/-- Between two rounds that pick a process, each other process that is runnable
in every round after the first is picked. -/
theorem round_robin
    {run : Nat → Scheduler} (rounds : Rounds run) {first second : Nat}
    (before : first < second) {slot other : Pid}
    (picked : (run first).pick = some slot)
    (again : (run second).pick = some slot) (differs : other ≠ slot)
    (always : ∀ round, first < round → round ≤ second →
      ((run round).procs other).state = .runnable) :
    ∃ round, first < round ∧ round < second ∧
      (run round).pick = some other :=
  rounds.roundRobin.picked_between before picked again differs always

/-- Two processes that are runnable in every round. -/
def twoTasks : Nat → Scheduler
  | 0 => ⟨fun slot => ⟨if slot.val < 2 then .runnable else .unused, 0⟩, -1⟩
  | round + 1 =>
      ⟨fun slot => ⟨if slot.val < 2 then .runnable else .unused, 0⟩,
        (twoTasks round).round.lastScheduled⟩

theorem round_robin_twoTasks :
    ∃ round, 0 < round ∧ round < 2 ∧ (twoTasks round).pick = some 1 :=
  @round_robin twoTasks ⟨rfl, fun _ => rfl⟩ 0 2 (by decide) 0 1
    (by decide +kernel) (by decide +kernel) (by decide) fun round _ _ => by
      cases round <;> rfl

end Process
end WhuOs
