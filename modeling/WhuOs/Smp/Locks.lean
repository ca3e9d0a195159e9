import WhuOs.Smp.Defs

/-!
# Locks and states

Which locks a thread holds at each point of the code, what a step does to the
state of a slot, and the invariant that ties states, locks and CPUs together.
-/

namespace WhuOs
namespace Smp

open Library
open Process (Channel ProcState procZero)

/-! ## Locks of a thread -/

/-- The lock that is held during a call of `proc_wakeup`. -/
def AfterWake.Holds : AfterWake → Lock → Prop
  | .caller, _ => False
  | .reparent _, _ => False
  | .exit, _ => False
  | .signal event, lock => lock = .other event.lock

/-- The locks a thread holds. -/
def Holds (me : Option Pid) : Control → Lock → Prop
  | .forkSkip slot _, lock => lock = .proc slot
  | .forkAlloc slot, lock => lock = .proc slot
  | .forkDone slot, lock => lock = .proc slot
  | .wake _ _ next, lock => next.Holds lock
  | .wakeHeld _ slot _ next, lock => lock = .proc slot ∨ next.Holds lock
  | .waitHeld slot _, lock => lock = .proc slot
  | .waitReaped slot, lock => lock = .proc slot
  | .sleepWoken _, lock => ∃ curr, me = some curr ∧ lock = .proc curr
  | .resume, lock => ∃ curr, me = some curr ∧ lock = .proc curr
  | .exited, lock => ∃ curr, me = some curr ∧ lock = .proc curr
  | .awaitTest event, lock => lock = .other event.lock
  | .signalUnlock event, lock => lock = .other event.lock
  | .scanHeld slot _, lock => lock = .proc slot
  | .back slot, lock => lock = .proc slot
  | _, _ => False

/-- The locks held after a lock operation. -/
def LockOp.After (before : Lock → Prop) : LockOp → Lock → Prop
  | .none, lock => before lock
  | .acquire taken, lock => lock = taken ∨ before lock
  | .release given, lock => lock ≠ given ∧ before lock

theorem holds_afterWake
    {me : Option Pid} (next : AfterWake) (lock : Lock) :
    Holds me next.control lock ↔ next.Holds lock := by
  cases next with
  | caller => exact Iff.rfl
  | reparent rest => exact Iff.rfl
  | exit => exact Iff.rfl
  | signal event => exact Iff.rfl

theorem not_holds_afterSleep
    {me : Option Pid} (next : AfterSleep) (lock : Lock) :
    ¬Holds me next.control lock := by
  cases next with
  | caller => exact id
  | wait => exact id
  | await event => exact id

theorem not_holds_entry
    {me : Option Pid} (call : Call) (lock : Lock) :
    ¬Holds me call.entry lock := by
  cases call with
  | fork => exact id
  | exit => exact id
  | wait => exact id
  | yield => exact id
  | sleep chan => exact id
  | wakeup chan => exact id
  | await event request => exact id
  | signal event => exact id

theorem not_holds_signal_proc {next : AfterWake} {slot : Pid} :
    ¬next.Holds (.proc slot) := by
  cases next with
  | caller => exact id
  | reparent rest => exact id
  | exit => exact id
  | signal event => exact nofun

variable {me : Option Pid} {shared shared' : Shared} {control next : Control}
  {op : LockOp}

/-- A thread holds what it held before, and what it took and did not give
back. -/
theorem Act.holds
    (act : Act me shared control op shared' next) (lock : Lock) :
    Holds me next lock ↔ op.After (Holds me control) lock := by
  cases act with
  | wakeTake differs =>
      exact Iff.rfl
  | @wakeNext chan slot rest next =>
      constructor
      · intro holds
        refine ⟨?_, Or.inr holds⟩
        rintro rfl
        exact not_holds_signal_proc holds
      · rintro ⟨differs, same | holds⟩
        · exact absurd same differs
        · exact holds
  | wakeDone => exact holds_afterWake _ lock
  | woken isMe =>
      subst isMe
      refine iff_of_false (not_holds_afterSleep _ lock) ?_
      rintro ⟨differs, curr, same, rfl⟩
      cases same
      exact differs rfl
  | resume isMe =>
      subst isMe
      simp [LockOp.After, Holds]
  | _ => simp [LockOp.After, Holds, AfterWake.Holds]

/-! ## States of a slot -/

/-- How a step that leaves its thread on the CPU changes the state of a slot. -/
inductive Written (control : Control) (op : LockOp) (slot : Pid) :
    ProcState → ProcState → Prop
  | take :
      op = .acquire (.proc slot) → Written control op slot .unused .runnable
  | fail {state : ProcState} :
      control = .forkAlloc slot → op = .release (.proc slot) →
      Written control op slot state .unused
  | retake {state : ProcState} :
      control = .forkRetake slot → op = .acquire (.proc slot) →
      Written control op slot state .runnable
  | wake :
      op = .acquire (.proc slot) → Written control op slot .sleeping .runnable
  | reap :
      op = .acquire (.proc slot) → Written control op slot .zombie .unused

theorem setSlot_self (shared : Shared) (slot : Pid) (value : Slot) :
    (shared.setSlot slot value).procs slot = value :=
  Function.update_self _ _ _

theorem setSlot_of_ne
    (shared : Shared) {slot other : Pid} (differs : other ≠ slot)
    (value : Slot) :
    (shared.setSlot slot value).procs other = shared.procs other :=
  Function.update_of_ne differs _ _

/-- A change of one slot that keeps its state. -/
theorem state_setSlot
    {shared : Shared} {slot : Pid} {value : Slot}
    (same : value.state = (shared.procs slot).state) (other : Pid) :
    ((shared.setSlot slot value).procs other).state =
      (shared.procs other).state := by
  by_cases isSlot : other = slot
  · subst isSlot
    rw [setSlot_self, same]
  · rw [setSlot_of_ne _ isSlot]

/-- A change of the state of one slot. -/
theorem written_setSlot
    {slot : Pid} {value : Slot}
    (written : Written control op slot (shared.procs slot).state value.state)
    (other : Pid) :
    ((shared.setSlot slot value).procs other).state =
        (shared.procs other).state ∨
      Written control op other (shared.procs other).state
        ((shared.setSlot slot value).procs other).state := by
  by_cases isSlot : other = slot
  · subst isSlot
    rw [setSlot_self]
    exact Or.inr written
  · rw [setSlot_of_ne _ isSlot]
    exact Or.inl rfl

theorem Act.written
    (act : Act me shared control op shared' next) (slot : Pid) :
    (shared'.procs slot).state = (shared.procs slot).state ∨
      Written control op slot (shared.procs slot).state
        (shared'.procs slot).state := by
  cases act with
  | forkTake unused =>
      refine written_setSlot ?_ slot
      rw [unused]
      exact .take rfl
  | forkFail => exact written_setSlot (.fail rfl rfl) slot
  | forkRetake => exact written_setSlot (.retake rfl rfl) slot
  | waitReap zombie =>
      refine written_setSlot ?_ slot
      rw [zombie]
      exact .reap rfl
  | @wakeTake chan other rest next differs =>
      unfold Shared.wakeSlot
      split
      · next sleeps =>
        refine written_setSlot ?_ slot
        rw [sleeps.1]
        exact .wake rfl
      · exact Or.inl rfl
  | forkParent isMe =>
      refine Or.inl (state_setSlot ?_ slot)
      rfl
  | exitHand isMe isChild =>
      refine Or.inl (state_setSlot ?_ slot)
      rfl
  | woken isMe =>
      refine Or.inl (state_setSlot ?_ slot)
      rfl
  | @awaitTake event request =>
      unfold Shared.startRequest
      split
      · exact Or.inl rfl
      · exact Or.inl rfl
  | _ => exact Or.inl rfl

/-- A process that is calling `proc_sched` has changed its own state only. -/
theorem Park.others
    {curr slot : Pid} (park : Park curr shared control shared' next)
    (differs : slot ≠ curr) :
    shared'.procs slot = shared.procs slot := by
  cases park with
  | yield => exact setSlot_of_ne _ differs _
  | sleep => exact setSlot_of_ne _ differs _
  | exit => exact setSlot_of_ne _ differs _

/-- The points at which a process waits to be scheduled. -/
def Parked : Control → Prop
  | .resume => True
  | .sleepWoken _ => True
  | .exited => True
  | _ => False

theorem Park.parked
    {curr : Pid} (park : Park curr shared control shared' next) :
    Parked next := by
  cases park with
  | yield => trivial
  | sleep => trivial
  | exit => trivial

theorem Park.not_holds
    {curr : Pid} (park : Park curr shared control shared' next) (lock : Lock) :
    ¬Holds me control lock := by
  cases park with
  | yield => exact id
  | sleep => exact id
  | exit => exact id

/-- A process that is scheduled holds its own lock. -/
theorem Parked.holds
    {curr : Pid} (parked : Parked control) (lock : Lock) :
    Holds (some curr) control lock ↔ lock = .proc curr := by
  cases control with
  | resume => simp [Holds]
  | sleepWoken next => simp [Holds]
  | exited => simp [Holds]
  | _ => exact parked.elim

end Smp
end WhuOs
